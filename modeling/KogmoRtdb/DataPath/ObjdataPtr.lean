import KogmoRtdb.DataPath.Objdata

/-!
# Writing through a pointer

`kogmo_rtdb_obj_writedata_ptr_begin` hands out the address of the history slot that the
next commit will use, and `kogmo_rtdb_obj_writedata_ptr_commit` makes it valid. In between
the slot has the stamp 0 and the writer fills it in place. A pointer is a heap index.
-/

namespace KogmoRtdb

/-- What a call leaves behind: its answer, the database and the caller's pointer. -/
structure PtrOut where
  ret : Result
  db : Db
  ptr : Int

/-- The object cannot be written through a pointer: it is public or another's. -/
def ObjInfo.ptrDenied (info : ObjInfo) (h : Handle) : Bool :=
  info.flags.writeAllow || info.createdProc ≠ h.procOid

/-- The stamp of the record at `addr` is cleared. -/
def invalidate (db : Db) (addr : Int) : Db :=
  { db with heap := db.heap.put addr ((db.heap.window addr).write64 0 invalidTs) 8 }

/-- The record at `addr` becomes valid, and its slot the object's latest. -/
def validate (db : Db) (i : Nat) (slot addr : Int) (proc : BitVec 32) (committedTs : Timestamp) :
    Db :=
  { db.setMeta i { db.objmeta i with historySlot := slot } with
    heap := db.heap.put addr
      ((defaultDataTs ((db.heap.window addr).write32 8 proc) committedTs).write64 0 committedTs)
      24 }

/-- `kogmo_rtdb_obj_writedata_ptr_begin`. -/
def writedataPtrBegin (db : Db) (h : Handle) (oid : ObjId) (dataPtr : Int) : PtrOut :=
  match db.findmetaById oid with
  | none => { ret := .error .notFound, db := db, ptr := dataPtr }
  | some i =>
      let info := db.objmeta i
      if info.bufferIdx = 0 then { ret := .error .notFound, db := db, ptr := dataPtr }
      else if info.ptrDenied h then { ret := .error .invalid, db := db, ptr := dataPtr }
      else
        let addr := info.slotAddr (nextSlot info.historySize info.historySlot)
        { ret := .ok 0, db := invalidate db addr, ptr := addr }

/-- `kogmo_rtdb_obj_writedata_ptr_commit`; `committedTs` is the clock reading it starts
with. -/
def writedataPtrCommit [Rounding] (db : Db) (h : Handle) (oid : ObjId) (dataPtr : Int)
    (committedTs : Timestamp) : PtrOut :=
  let size := ((db.heap.window dataPtr).read32 20).toInt
  let fail (e : Err) : PtrOut := { ret := .error e, db := db, ptr := dataPtr }
  match db.findmetaById oid with
  | none => fail .notFound
  | some i =>
      let info := db.objmeta i
      if info.bufferIdx = 0 then fail .notFound
      else if info.sizeMax < size then fail .invalid
      else if size < 24 then fail .invalid
      else if info.ptrDenied h then fail .invalid
      else if tooFast db.heap info committedTs then fail .tooFast
      else
        let slot := nextSlot info.historySize info.historySlot
        let addr := info.slotAddr slot
        if dataPtr ≠ addr then fail .invalid
        else
          { ret := .ok 0
            db := validate db i slot addr (BitVec.ofInt 32 h.procOid) committedTs
            ptr := dataPtr }

end KogmoRtdb
