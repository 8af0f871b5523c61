import KogmoRtdb.DataPath.Record
import KogmoRtdb.DataPath.Search
import KogmoRtdb.Db

/-!
# Reading and writing object data

`kogmo_rtdb_obj_writedata`, `kogmo_rtdb_obj_histscan` and
`kogmo_rtdb_obj_readdata__mode` with each call as one step on the database: the
sequential meaning of the data path. A record in the heap is the window at its
slot's index, and a store to it names how many bytes it covers.

The search may run forever: on an object that was never written, slot -1 stands
for the last slot of the ring, and if that holds a record no wrap-around ends the
scan. So the search takes fuel, and `none` means that it has not answered yet.
-/

namespace KogmoRtdb

/-! ## Scanning the history -/

def slotWindow (heap : Heap) (info : ObjInfo) (slot : Int) : Mem :=
  heap.window (info.slotAddr slot)

def slotTs (heap : Heap) (info : ObjInfo) (slot : Int) : Timestamp :=
  (slotWindow heap info slot).read64 0

/-- The size that the record in a history slot states. -/
def slotSize (heap : Heap) (info : ObjInfo) (slot : Int) : Int :=
  ((slotWindow heap info slot).read32 20).toInt

/-- `kogmo_rtdb_obj_histscan`: the new `currslot` and `firstslot`, or `NULL`. -/
def histscan (heap : Heap) (info : ObjInfo) (adj currslot firstslot : Int) :
    Option (Int × Int) :=
  if info.historySize = 0 then none
  else
    let firstslot := if adj = 0 then info.historySlot else firstslot
    let slot := if adj = 0 then info.historySlot else currslot + adj
    let slot := histPos info.historySize slot
    if slot = firstslot ∧ adj ≠ 0 then none
    else if (slotWindow heap info slot).read32 4 = hiWord invalidTs then none
    else some (slot, firstslot)

def probeAt (heap : Heap) (info : ObjInfo) (mode : Mode) (slot : Int) : Probe where
  slot := slot
  ts := (slotWindow heap info slot).read64 0
  dataTs := if mode.usesDataTs then (slotWindow heap info slot).read64 12 else 0

/-- The loop of a time mode, from the record under the cursor on. -/
def scanLoop (heap : Heap) (info : ObjInfo) (mode : Mode) (ts : Timestamp) :
    Nat → Int → Int → Option Probe → Option (Except Err Probe)
  | 0, _, _, _ => none
  | fuel + 1, currslot, firstslot, kept =>
      match mode.verdict ts kept (probeAt heap info mode currslot) with
      | .take p => some (.ok p)
      | .notFound => some (.error .notFound)
      | .back kept' =>
          match histscan heap info (-1) currslot firstslot with
          | none => some (atEndResult kept')
          | some (currslot', firstslot') =>
              scanLoop heap info mode ts fuel currslot' firstslot' kept'

/-! ## `kogmo_rtdb_obj_readdata__mode` -/

def ObjInfo.readDenied (info : ObjInfo) (h : Handle) : Bool :=
  info.flags.readDeny && info.createdProc ≠ h.procOid && !h.admin

/-- The selection part of `kogmo_rtdb_obj_readdata__mode`: the object's metadata
and the record selected. -/
def select (db : Db) (h : Handle) (mode : Mode) (oid : ObjId) (ts : Timestamp)
    (fuel : Nat) : Option (Except Err (ObjInfo × Probe)) :=
  match db.findmetaById oid with
  | none => some (.error .notFound)
  | some i =>
      let info := db.objmeta i
      if info.bufferIdx = 0 then some (.error .notFound)
      else if info.readDenied h then some (.error .noPerm)
      else
        match histscan db.heap info 0 0 0 with
        | none => some (.error .notFound)
        | some (currslot, firstslot) =>
            if mode = .last ∧ ts = invalidTs ∧ info.deletedTs ≠ invalidTs then
              some (.error .notFound)
            else
              (scanLoop db.heap info mode ts fuel currslot firstslot none).map
                fun res => res.map fun p => (info, p)

/-- What a read leaves behind: its answer and the caller's buffer. -/
structure ReadOut where
  ret : Result
  buf : Mem

variable [Rounding]

/-- The age test of `withhold_stale`. -/
def tooOld (info : ObjInfo) (committedTs now : Timestamp) : Bool :=
  info.flags.withholdStale && decide (info.maxCycle < Rounding.float (diffSecs committedTs now))

/-- The copying end of `kogmo_rtdb_obj_readdata__mode`. -/
def copyOut (heap : Heap) (info : ObjInfo) (p : Probe) (size : Int) (buf : Mem)
    (now : Timestamp) : ReadOut :=
  let objbase := slotWindow heap info p.slot
  let avail := if (objbase.read32 20).toInt ≤ size then (objbase.read32 20).toInt else size
  let finalTs := objbase.read64 0
  let buf := ((buf.copy 0 objbase 0 avail.toNat).write32 20 (BitVec.ofInt 32 avail)).write64 0
    finalTs
  if finalTs ≠ p.ts then { ret := .error .histWrap, buf := buf }
  else if tooOld info finalTs now then { ret := .error .tooFast, buf := buf }
  else { ret := .ok (objbase.read32 20).toInt, buf := buf }

/-- `kogmo_rtdb_obj_readdata__mode` without `RTDBSEL_PTR`. -/
def readdataMode (db : Db) (h : Handle) (mode : Mode) (oid : ObjId) (ts : Timestamp)
    (buf : Mem) (size : Int) (now : Timestamp) (fuel : Nat) : Option ReadOut :=
  (select db h mode oid ts fuel).map fun
    | .error e => { ret := .error e, buf := buf }
    | .ok (info, p) => copyOut db.heap info p size buf now

/-- `kogmo_rtdb_obj_readdata__mode` with `RTDBSEL_PTR`: the heap index the pointer
is set to and the record's size. -/
def readdataModePtr (db : Db) (h : Handle) (mode : Mode) (oid : ObjId) (ts : Timestamp)
    (fuel : Nat) : Option (Except Err (Int × Int)) :=
  (select db h mode oid ts fuel).map fun res => res.map fun (info, p) =>
    (info.slotAddr p.slot, ((slotWindow db.heap info p.slot).read32 20).toInt)

/-- `kogmo_rtdb_obj_readdata`. -/
def readdata (db : Db) (h : Handle) := readdataMode db h .last
/-- `kogmo_rtdb_obj_readdata_older`. -/
def readdataOlder (db : Db) (h : Handle) := readdataMode db h .older
/-- `kogmo_rtdb_obj_readdata_younger`. -/
def readdataYounger (db : Db) (h : Handle) := readdataMode db h .younger

/-! ## `kogmo_rtdb_obj_writedata` -/

/-- What a write leaves behind: its answer, the database and the caller's
record. -/
structure WriteOut where
  ret : Result
  db : Db
  data : Mem

def ObjInfo.writeDenied (info : ObjInfo) (h : Handle) : Bool :=
  !info.flags.writeAllow && info.createdProc ≠ h.procOid && !h.admin

/-- The `cycle_watch` test against the latest record. -/
def tooFast (heap : Heap) (info : ObjInfo) (committedTs : Timestamp) : Bool :=
  info.flags.cycleWatch &&
    match histscan heap info 0 0 0 with
    | none => false
    | some (slot, _) =>
        decide (Rounding.float (diffSecs ((slotWindow heap info slot).read64 0) committedTs) <
          info.minCycle)

/-- The store of a record into slot `slot` of an object. -/
def storeRecord (db : Db) (i : Nat) (slot : Int) (src : Mem) (size : Nat)
    (committedTs : Timestamp) : Db :=
  let info := db.objmeta i
  let addr := info.slotAddr slot
  { db.setMeta i { info with historySlot := slot } with
    heap := db.heap.put addr (fillSlot (db.heap.window addr) src size committedTs) size }

omit [Rounding] in
@[simp] theorem storeRecord_oid (db : Db) (i : Nat) (slot : Int) (src : Mem) (size : Nat)
    (committedTs : Timestamp) (j : Nat) :
    ((storeRecord db i slot src size committedTs).objmeta j).oid = (db.objmeta j).oid := by
  by_cases hj : j = i
  · subst hj
    simp [storeRecord]
  · simp [storeRecord, Db.setMeta_objmeta_ne hj]

/-- `kogmo_rtdb_obj_writedata`; `committedTs` is the clock reading it starts
with. -/
def writedata (db : Db) (h : Handle) (oid : ObjId) (data : Mem) (committedTs : Timestamp) :
    WriteOut :=
  let size := (data.read32 20).toInt
  match db.findmetaById oid with
  | none => { ret := .error .notFound, db := db, data := data }
  | some i =>
      let info := db.objmeta i
      if info.bufferIdx = 0 then { ret := .error .notFound, db := db, data := data }
      else if info.sizeMax < size then { ret := .error .invalid, db := db, data := data }
      else if size < 24 then { ret := .error .invalid, db := db, data := data }
      else if info.writeDenied h then { ret := .error .noPerm, db := db, data := data }
      else
        let proc : BitVec 32 := BitVec.ofInt 32 h.procOid
        if tooFast db.heap info committedTs then
          { ret := .error .tooFast, db := db, data := data.write32 8 proc }
        else
          let slot := nextSlot info.historySize info.historySlot
          let src := commitSource proc data
          let stamp := forge db.simmode committedTs ((slotWindow db.heap info slot).read64 0)
          { ret := .ok 0
            db := storeRecord db i slot src size.toNat stamp
            data := src.write64 0 stamp }

/-- A write fails and leaves the database alone, or stores the record, with the
stamp that it leaves in the caller's, in the object's next slot. -/
theorem writedata_cases {db : Db} {h : Handle} {oid : ObjId} {data : Mem}
    {committedTs : Timestamp} {out : WriteOut}
    (hout : out = writedata db h oid data committedTs) :
    (∃ e, out.ret = .error e ∧ out.db = db) ∨
      ∃ i, db.findmetaById oid = some i ∧ (db.objmeta i).bufferIdx ≠ 0 ∧
        24 ≤ (data.read32 20).toInt ∧ (data.read32 20).toInt ≤ (db.objmeta i).sizeMax ∧
        out.ret = .ok 0 ∧
        out.db = storeRecord db i
          (nextSlot (db.objmeta i).historySize (db.objmeta i).historySlot)
          (commitSource (BitVec.ofInt 32 h.procOid) data) (data.read32 20).toInt.toNat
          (out.data.read64 0) := by
  unfold writedata at hout
  split at hout
  · exact Or.inl ⟨_, by rw [hout], by rw [hout]⟩
  · rename_i i hfound
    dsimp only at hout
    by_cases h1 : (db.objmeta i).bufferIdx = 0
    · rw [if_pos h1] at hout
      exact Or.inl ⟨_, by rw [hout], by rw [hout]⟩
    rw [if_neg h1] at hout
    by_cases h2 : (db.objmeta i).sizeMax < (data.read32 20).toInt
    · rw [if_pos h2] at hout
      exact Or.inl ⟨_, by rw [hout], by rw [hout]⟩
    rw [if_neg h2] at hout
    by_cases h3 : (data.read32 20).toInt < 24
    · rw [if_pos h3] at hout
      exact Or.inl ⟨_, by rw [hout], by rw [hout]⟩
    rw [if_neg h3] at hout
    split at hout
    · exact Or.inl ⟨_, by rw [hout], by rw [hout]⟩
    · split at hout
      · exact Or.inl ⟨_, by rw [hout], by rw [hout]⟩
      · refine Or.inr ⟨i, hfound, h1, by omega, by omega, ?_, ?_⟩
        · rw [hout]
        · rw [hout, Mem.read64_write64]

end KogmoRtdb
