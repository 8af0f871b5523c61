import KogmoRtdb.Meta.Purge
import KogmoRtdb.Meta.Searchinfo

/-!
# Inserting objects

`kogmo_rtdb_obj_insert`, cut where the source's comments cut it: the caller's
metadata is completed, a slot of the process's own is looked for that may be
reused, else memory and a free slot are, the object must not clash with a
unique one, and the metadata enters the table.

The loop around the second search is `do { … } while(0)`: the `continue` meant to
retry after a purge jumps to the test of the loop and leaves it. `LoopExit` says how
the loop's body ends.
-/

namespace KogmoRtdb

/-! ## The object's metadata -/

/-- A conversion from floating point to `int`; what does not fit becomes the
smallest one. -/
def toInt32 (x : ℚ) : Int :=
  if -2 ^ 31 ≤ truncate x ∧ truncate x < 2 ^ 31 then truncate x else -2 ^ 31

variable [Rounding]

open Rounding in
/-- `UNSIGNED_CEIL` of a `float`. -/
def unsignedCeil (x : ℚ) : Int :=
  if 0 < float (x - float (toInt32 x)) then toInt32 (float (x + 1)) else toInt32 x

open Rounding in
def orDefault (x : ℚ) : ℚ := if x ≤ 0 then float (double (1 / 1000)) else x

open Rounding in
/-- The part of the metadata that `insert` fills in. -/
def initMetadata (env : Env) (h : Handle) (ts : Timestamp) (metadata : ObjInfo) : ObjInfo :=
  let metadata := { metadata with
    oid := 0
    name := metadata.name.take (nameMaxlen - 1)
    createdTs := ts
    createdProc := h.procOid
    deletedTs := 0
    deletedProc := 0
    historyInterval := orDefault (env.adjustHistory metadata.historyInterval metadata.sizeMax)
    maxCycletime := orDefault metadata.maxCycletime
    minCycletime := orDefault metadata.minCycletime }
  { metadata with
    historySize :=
      if metadata.sizeMax = 0 then 0
      else unsignedCeil (float (float (metadata.historyInterval / metadata.minCycle) + 1))
    historySlot := -1
    bufferIdx := 0
    sizeMax :=
      if metadata.sizeMax % 2 = 1 then wrap32 (metadata.sizeMax + 1) else metadata.sizeMax }

/-! ## The scans of the table -/

def Db.reusable (db : Db) (h : Handle) (metadata : ObjInfo) (ts : Timestamp)
    (info : ObjInfo) : Bool :=
  info.oid ≠ 0 && info.deletedTs ≠ 0 && info.createdProc = h.procOid &&
    info.flags.keepAlloc && info.blockSize = metadata.blockSize &&
    (db.scanDeleteTs info).toInt < ts.toInt

/-- A deleted slot of this process, kept allocated, with a block of the right
size. -/
def findReusable (db : Db) (h : Handle) (metadata : ObjInfo) (ts : Timestamp) : Option Nat :=
  (List.range objMax).find? fun i => db.reusable h metadata ts (db.objmeta i)

/-- The `nth` object the uniqueness check looks at. -/
def searchNth (db : Db) (otype : Int) (nth : Int) : Result :=
  (searchAnswer db (searchTable db .any otype 0 0 0 nth false) 0 0 none nth).1

/-- The loop of the uniqueness check: whether it finds a clash. -/
def clash (db : Db) (metadata : ObjInfo) : List Nat → Bool
  | [] => false
  | i :: is =>
      match searchNth db metadata.otype (i + 1) with
      | .error _ => false
      | .ok oid =>
          if oid ≤ 0 then false
          else
            match db.findmetaById oid with
            | none => clash db metadata is
            | some j =>
                let info := db.objmeta j
                if info.name = metadata.name ∧ (info.flags.unique ∨ metadata.flags.unique) then
                  true
                else clash db metadata is

/-- Some object with this type and name is unique or must be. -/
def Db.notUniq (db : Db) (metadata : ObjInfo) : Bool := clash db metadata (List.range objMax)

/-! ## `kogmo_rtdb_obj_insert` -/

/-- How the body of the retry loop ends: with a return from the function, or by
leaving the loop with `found_slot`, `new_allocated_heap_idx` and the metadata. -/
inductive LoopExit where
  | ret (e : Err) (metadata : ObjInfo)
  | left (foundSlot : Option Nat) (newIdx : Int) (metadata : ObjInfo)

/-- The search for a free slot at the end of the body. -/
def findFreeSlot (purgeRetry : Bool) (newIdx : Int) (metadata : ObjInfo) : Call LoopExit := do
  let db ← readDb
  match db.findmetaById 0 with
  | some i =>
      writeDb fun db => db.addFree (-1)
      return .left (some i) newIdx metadata
  | none =>
      if !purgeRetry then return .left none newIdx metadata
      else
        objmetaUnlock
        Prog.when (newIdx ≠ 0) (memFree newIdx metadata.blockSize)
        return .ret .outOfObj metadata

def retryBody (env : Env) (purgeRetry : Bool) (metadata : ObjInfo) : Call LoopExit := do
  Prog.when purgeRetry do
    objmetaUnlock
    let _ ← purgeObjs env
    objmetaLock env
  if metadata.sizeMax ≠ 0 then
    objmetaUnlock
    let idx ← memAlloc env metadata.blockSize
    if idx < 0 then
      if !purgeRetry then
        objmetaLock env
        return .left none idx metadata
      else return .ret .noMemory metadata
    else
      objmetaLock env
      findFreeSlot purgeRetry idx { metadata with bufferIdx := idx }
  else findFreeSlot purgeRetry 0 metadata

def Db.nextOid (db : Db) : ObjId := wrap32 db.objmetaOidNext

/-- `objmeta_oid_next++`. -/
def World.oidTaken (w : World) : World :=
  { w with db := { w.db with objmetaOidNext := (w.db.objmetaOidNext + 1) % 2 ^ 64 } }

/-- The next object id, as an `int32_t`. -/
def takeOid : Call ObjId := fun w => some (wrap32 w.db.objmetaOidNext, w.oidTaken)

/-- The metadata enters slot `i`. -/
def enterTable (i : Nat) (metadata : ObjInfo) : Call (Result × ObjInfo) := do
  writeDb fun db => db.setMeta i metadata
  let freeOid ← takeOid
  if freeOid ≤ 0 then
    Prog.when (metadata.bufferIdx ≠ 0) (memFree metadata.bufferIdx metadata.blockSize)
    objmetaUnlock
    return (.error .outOfObj, metadata)
  else
    let metadata :=
      if metadata.parentOid = 0 ∧ 1 < freeOid then { metadata with parentOid := 1 } else metadata
    writeDb fun db => db.setMeta i { metadata with oid := freeOid }
    objmetaUnlockNotify
    return (.ok freeOid, { metadata with oid := freeOid })

def finishInsert (foundSlot : Option Nat) (newIdx : Int) (metadata : ObjInfo) :
    Call (Result × ObjInfo) := do
  let db ← readDb
  if db.notUniq metadata then
    objmetaUnlock
    Prog.when (newIdx ≠ 0) (memFree newIdx metadata.blockSize)
    return (.error .notUniq, metadata)
  else
    match foundSlot with
    | none => return (.error .outOfObj, metadata)
    | some i => enterTable i metadata

/-- The critical sections of `kogmo_rtdb_obj_insert`, for completed metadata. -/
def insertLocked (env : Env) (h : Handle) (ts : Timestamp) (metadata : ObjInfo) :
    Call (Result × ObjInfo) := do
  objmetaLock env
  let db ← readDb
  match findReusable db h metadata ts with
  | some i => finishInsert (some i) 0 { metadata with bufferIdx := (db.objmeta i).bufferIdx }
  | none =>
      match ← retryBody env false metadata with
      | .ret e metadata => return (.error e, metadata)
      | .left foundSlot newIdx metadata => finishInsert foundSlot newIdx metadata

def ObjInfo.refused (metadata : ObjInfo) : Bool :=
  (metadata.sizeMax ≠ 0 && metadata.sizeMax < 24) || metadata.name = []

/-- `kogmo_rtdb_obj_insert`: the answer and the caller's metadata. -/
def insert (env : Env) (h : Handle) (metadata : ObjInfo) : Call (Result × ObjInfo) := do
  let ts ← timestampNow env
  if metadata.refused then return (.error .invalid, metadata)
  else insertLocked env h ts (initMetadata env h ts metadata)

end KogmoRtdb
