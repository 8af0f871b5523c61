import KogmoRtdb.Meta.World

/-!
# Purging deleted objects

`kogmo_rtdb_obj_purgeslot` and `kogmo_rtdb_objmeta_purge_objs`.
-/

namespace KogmoRtdb

/-- `KOGMO_RTDB_PURGE_KEEPALLOC_PERCFREE`. -/
def purgeKeepallocPercfree : Int := 20

/-- `KOGMO_RTDB_PURGE_KEEPALLOC_MAXSECS`. -/
def purgeKeepallocMaxsecs : ℚ := 10

/-- `objmeta_free` moves by `n`. -/
def Db.addFree (db : Db) (n : Int) : Db := { db with objmetaFree := db.objmetaFree + n }

variable [Rounding]

open Rounding in
def Db.percentFree (db : Db) : Int :=
  truncate (float (float (float db.heapFree * 100) / float db.heapSize))

/-- When a deleted object may go: it outlives its history, and at least the
database's interval. -/
def Db.scanDeleteTs (db : Db) (info : ObjInfo) : Timestamp :=
  addSecs info.deletedTs <|
    if db.defaultKeepDeletedInterval < info.historyInterval then info.historyInterval
    else db.defaultKeepDeletedInterval

/-- The tests of `purge_objs` on one slot. -/
def Db.purgeDue (db : Db) (info : ObjInfo) (purgeKeepAlloc : Bool) (ts : Timestamp) : Bool :=
  let scanDeleteTs := db.scanDeleteTs info
  info.oid ≠ 0 && info.deletedTs ≠ 0 && scanDeleteTs.toInt < ts.toInt &&
    !(info.flags.keepAlloc &&
      (!purgeKeepAlloc || diffSecs scanDeleteTs ts < purgeKeepallocMaxsecs))

/-- `kogmo_rtdb_obj_purgeslot`. -/
def purgeslot (slot : Nat) : Call PUnit := do
  let db ← readDb
  let info := db.objmeta slot
  Prog.when (info.bufferIdx ≠ 0) (memFree info.bufferIdx info.blockSize)
  writeDb fun db => db.setMeta slot { db.objmeta slot with oid := 0 }
  writeDb fun db => db.addFree 1

/-- One pass of the loop of `purge_objs`. -/
def purgeObjsBody (env : Env) (purgeKeepAlloc : Bool) (ts : Timestamp) (i : Nat) :
    Call PUnit := do
  let db ← readDb
  Prog.when (db.purgeDue (db.objmeta i) purgeKeepAlloc ts) do
    purgeslot i
    objmetaUnlockNotify
    objmetaLock env

/-- `kogmo_rtdb_objmeta_purge_objs`. -/
def purgeObjs (env : Env) : Call Result := do
  let db ← readDb
  let purgeKeepAlloc := decide (db.percentFree < purgeKeepallocPercfree)
  let ts ← timestampNow env
  objmetaLock env
  (List.range objMax).forM (purgeObjsBody env purgeKeepAlloc ts)
  objmetaUnlock
  return .ok 0

end KogmoRtdb
