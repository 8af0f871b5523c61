import KogmoRtdb.DataPath.ObjdataSlot
import KogmoRtdb.Meta.OwnRing

/-!
# What the slot API touches

The calls of `kogmo_rtdb_objdata_slot.c` on one handle, with the remainders they compute and the
bytes of the heap they look at. A handle keeps the place it was at, whatever its last call
answered; `Cursor.placed` remembers whether that place was one of the object's ring.
-/

namespace KogmoRtdb

/-! ## Accesses -/

/-- A remainder, or a look at `len` bytes of the heap. -/
inductive SlotAccess where
  | rem (divisor : Int)
  | read (pos len : Int)

def InBuffer (db : Db) (oid : ObjId) (pos len : Int) : Prop :=
  oid ≠ 0 ∧ ∃ i < objMax, (db.objmeta i).oid = oid ∧ (db.objmeta i).bufferIdx ≠ 0 ∧
    (db.objmeta i).bufferIdx ≤ pos ∧
    pos + len ≤ (db.objmeta i).bufferIdx + (db.objmeta i).blockSize

/-- Nothing goes wrong, for a handle that names the object. -/
def SlotAccess.Safe (db : Db) (oid : ObjId) : SlotAccess → Prop
  | .rem divisor => divisor ≠ 0
  | .read pos len => InBuffer db oid pos len

instance (db : Db) (oid : ObjId) (pos len : Int) : Decidable (InBuffer db oid pos len) := by
  unfold InBuffer
  infer_instance

instance (db : Db) (oid : ObjId) : DecidablePred (SlotAccess.Safe db oid)
  | .rem divisor => inferInstanceAs (Decidable (divisor ≠ 0))
  | .read pos len => inferInstanceAs (Decidable (InBuffer db oid pos len))

/-- What `kogmo_rtdb_obj_readdataslot_ptr` touches once the object is known: of the old record
and the new one their stamps, and the new one's size. -/
def readSlotAccesses (heap : Heap) (info : ObjInfo) (mode : SlotMode) (offset : Int)
    (objslot : ObjSlot) : List SlotAccess :=
  let last := objslot.historySlot
  let slot := slotPos info.historySize last offset
  .rem info.historySize :: .read (info.slotAddr slot) 8 ::
    if slotTs heap info slot = invalidTs then []
    else if mode = .checked then
      .read (info.slotAddr last) 8 ::
        match checkSlots (slotTs heap info last) (slotTs heap info slot) objslot.committedTs
          offset with
        | some _ => []
        | none => [.read (info.slotAddr slot + 20) 4]
    else [.read (info.slotAddr slot + 20) 4]

def ObjSlot.AtObject (db : Db) (objslot : ObjSlot) : Prop :=
  ¬ (objslot.objectSlot < 0 ∨ objMax ≤ objslot.objectSlot) ∧
    objslot.oid = (db.objmeta objslot.objectSlot.toNat).oid

instance (db : Db) (objslot : ObjSlot) : Decidable (objslot.AtObject db) := by
  unfold ObjSlot.AtObject
  infer_instance

/-- What `kogmo_rtdb_obj_readdataslot_ptr` touches. -/
def ptrAccesses (db : Db) (mode : SlotMode) (offset : Int) (objslot : ObjSlot) :
    List SlotAccess :=
  match mode with
  | .init =>
      match db.findmetaById objslot.oid with
      | none => []
      | some i =>
          let info := db.objmeta i
          if info.historySlot < 0 then []
          else
            readSlotAccesses db.heap info .init 0 { objslot with historySlot := info.historySlot }
  | mode =>
      if objslot.AtObject db then
        readSlotAccesses db.heap (db.objmeta objslot.objectSlot.toNat) mode offset objslot
      else []

/-! ## The calls -/

/-- A handle; whether it is at a place of the object's ring, as far as its last successful
look at the object goes; and whether all its accesses were safe. -/
structure Cursor where
  objslot : ObjSlot
  placed : Bool
  safe : Bool

inductive SlotCall where
  | relative (offset size : Int)
  | relativePtr (offset : Int)
  | check
  | ptr (offset : Int)

namespace Cursor

/-- `init` has a place in the ring to start from. -/
def starts (db : Db) (oid : ObjId) : Bool :=
  (db.findmetaById oid).any fun i => 0 ≤ (db.objmeta i).historySlot

/-- The handle is at an object, or `init` puts it at one, whose ring it gets a place of. -/
def places (db : Db) (mode : SlotMode) (c : Cursor) : Bool :=
  match mode with
  | .init => starts db c.objslot.oid
  | _ => c.placed || decide (c.objslot.AtObject db)

def touch (db : Db) (accesses : List SlotAccess) (c : Cursor) : Cursor :=
  { c with safe := c.safe && accesses.all fun a => decide (a.Safe db c.objslot.oid) }

/-- `kogmo_rtdb_obj_readdataslot_ptr`. -/
def ptr (db : Db) (mode : SlotMode) (offset : Int) (c : Cursor) :
    Except Err (Int × Int) × Cursor :=
  ((readdataslotPtr db mode offset c.objslot).1,
    { objslot := (readdataslotPtr db mode offset c.objslot).2
      placed := c.places db mode
      safe := (c.touch db (ptrAccesses db mode offset c.objslot)).safe })

/-- `kogmo_rtdb_obj_readdataslot_init`. -/
def init (db : Db) (oid : ObjId) (c : Cursor) : Cursor :=
  (ptr db .init 0 { c with objslot := { c.objslot with oid := oid } }).2

/-- The handle of a call that failed is initialised anew. -/
def orInit (db : Db) : Except Err (Int × Int) × Cursor → Cursor
  | (.error _, c) => (c.ptr db .init 0).2
  | (.ok (_, olen), c) => if olen < 0 then (c.ptr db .init 0).2 else c

/-- `kogmo_rtdb_obj_readdataslot_relative`; the length of the `memcpy` is a `size_t`. -/
def relative (db : Db) (offset size : Int) (c : Cursor) : Cursor :=
  match c.ptr db .checked offset with
  | (.error olen, c) => orInit db (.error olen, c)
  | (.ok (objdata, realsize), c) =>
      if realsize < 0 then orInit db (.ok (objdata, realsize), c)
      else
        let len := (if realsize < size then realsize else size) % 2 ^ 64
        orInit db ((c.touch db [.read objdata len]).ptr db .checked 0)

def run (db : Db) : SlotCall → Cursor → Cursor
  | .relative offset size, c => c.relative db offset size
  | .relativePtr offset, c => orInit db (c.ptr db .checked offset)
  | .check, c => (c.ptr db .checked 0).2
  | .ptr offset, c => (c.ptr db .checked offset).2

end Cursor

end KogmoRtdb
