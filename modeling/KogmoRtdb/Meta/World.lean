import KogmoRtdb.Db
import KogmoRtdb.Lib.AllocLog
import KogmoRtdb.Lib.Prog

/-!
# What a call on the metadata table sees

The functions of `kogmo_rtdb_objmeta.c` and `kogmo_rtdb_housekeeping.c` as
programs over a `World`: the database, whether the calling process holds
`objmeta_lock`, and the calls made to the allocator so far.

What a call cannot know is in `Env`: the clock, what other processes do to
the database while it does not hold the lock, which waits time out, and the
code outside the repository (the allocator below `kogmo_rtdb_obj_mem_alloc`,
the C library's regular expressions). The environment is asked at a `tick`
that every such question advances, so its answers need not be the same
twice.
-/

namespace KogmoRtdb

/-- `kogmo_rtdb_objid_list_t`. -/
abbrev IdList := Nat → ObjId

structure Env where
  /-- `kogmo_rtdb_timestamp_now` -/
  now : Nat → Timestamp
  /-- What other processes have made of the database when a lock is granted. -/
  others : Nat → Db → Db
  /-- Whether a wait with a wake-up time ends with `ETIMEDOUT`. -/
  timedOut : Nat → Bool
  /-- `malloc_ex` or `suba_alloc`, given the calls so far, newest first. -/
  alloc : List HeapEvent → Int → Option Int
  /-- `KOGMO_RTDB_MINHIST` and `KOGMO_RTDB_MAXHIST` on an interval and a size. -/
  adjustHistory : ℚ → Int → ℚ
  /-- `KOGMO_RTDB_NAMEREMAP` -/
  nameRemap : ObjName → ObjName
  /-- The object id at the end of a search name, as in `~Name(42)`, or 0. -/
  directOid : ObjName → ObjId
  /-- The type id at the end of a search name, as in `~Name#42`, and the name
  before it. -/
  directType : ObjName → Option (Int × ObjName)
  /-- `regcomp`, with `regexec` of what it compiles. -/
  regcomp : ObjName → Option (ObjName → Bool)
  /-- The contents of an uninitialised local list. -/
  uninit : IdList

/-- The state of a call. `unguarded` records whether some entry of the table or
`objmeta_free` has been written without `objmeta_lock`. -/
structure World where
  db : Db
  held : Bool
  unguarded : Bool
  heapLog : List HeapEvent
  tick : Nat

abbrev Call := Prog World

namespace World

def ask (w : World) : World := { w with tick := w.tick + 1 }

/-- `objmeta_lock` is taken; the holder's own second attempt does nothing. -/
def lock (env : Env) (w : World) : World :=
  if w.held then w
  else { w with db := env.others w.tick w.db, held := true, tick := w.tick + 1 }

/-- `objmeta_lock` is released, if it is held. -/
def unlock (w : World) : World := { w with held := false }

/-- The condition variable's wait releases the lock and takes it again. -/
def wait (env : Env) (w : World) : World :=
  { w with db := env.others w.tick w.db, tick := w.tick + 1 }

def write (f : Db → Db) (w : World) : World :=
  { w with db := f w.db, unguarded := w.unguarded || !w.held }

def allocated (idx size : Int) (w : World) : World :=
  { w with
    db := { w.db with
      heap := w.db.heap.put idx Mem.zero size.toNat
      heapFree := w.db.heapFree - size
      heapUsed := w.db.heapUsed + size }
    heapLog := .alloc ⟨idx, size⟩ :: w.heapLog }

/-- The world after `kogmo_rtdb_obj_mem_alloc`. -/
def afterAlloc (env : Env) (size : Int) (w : World) : World :=
  if size ≤ 0 then w
  else
    match env.alloc w.heapLog size with
    | none => w
    | some idx => w.allocated idx size

def freed (idx size : Int) (w : World) : World :=
  { w with
    db := { w.db with
      heapFree := w.db.heapFree + size
      heapUsed := w.db.heapUsed - size }
    heapLog := .free ⟨idx, size⟩ :: w.heapLog }

end World

/-! ## The primitive calls -/

/-- `kogmo_rtdb_timestamp_now`. -/
def timestampNow (env : Env) : Call Timestamp := fun w => some (env.now w.tick, w.ask)

/-- `kogmo_rtdb_objmeta_lock`, also `kogmo_rtdb_obj_wait_metanotify_prepare`. -/
def objmetaLock (env : Env) : Call PUnit := fun w => some (⟨⟩, w.lock env)

/-- `kogmo_rtdb_objmeta_unlock`, also `kogmo_rtdb_obj_wait_metanotify_done`. -/
def objmetaUnlock : Call PUnit := fun w => some (⟨⟩, w.unlock)

/-- `kogmo_rtdb_objmeta_unlock_notify`; the broadcast changes no table. -/
def objmetaUnlockNotify : Call PUnit := objmetaUnlock

/-- `kogmo_rtdb_ipc_condvar_wait` on `objmeta_changenotify`: whether it timed out.
Without the lock the wait fails and the process ends itself. -/
def condvarWait (env : Env) (wakeupTs : Timestamp) : Call Bool := fun w =>
  if w.held then some (wakeupTs != 0 && env.timedOut w.tick, w.wait env) else none

/-- `kogmo_rtdb_obj_wait_metanotify`. -/
def waitMetanotify (env : Env) (wakeupTs : Timestamp) : Call Bool := do
  let timedOut ← condvarWait env wakeupTs
  objmetaUnlock
  return timedOut

def readDb : Call Db := fun w => some (w.db, w)

def writeDb (f : Db → Db) : Call PUnit := fun w => some (⟨⟩, w.write f)

/-- `kogmo_rtdb_obj_mem_alloc`. -/
def memAlloc (env : Env) (size : Int) : Call Int := fun w =>
  if size ≤ 0 then some (-1, w)
  else
    match env.alloc w.heapLog size with
    | none => some (-1, w)
    | some idx => some (idx, w.allocated idx size)

/-- `kogmo_rtdb_obj_mem_alloc` fails. -/
def allocFails (env : Env) (heapLog : List HeapEvent) (size : Int) : Prop :=
  size ≤ 0 ∨ (env.alloc heapLog size).getD (-1) < 0

instance (env : Env) (heapLog : List HeapEvent) (size : Int) :
    Decidable (allocFails env heapLog size) := by
  unfold allocFails
  infer_instance

/-- `kogmo_rtdb_obj_mem_free`. -/
def memFree (idx size : Int) : Call PUnit := fun w => some (⟨⟩, w.freed idx size)

/-- `size_max * history_size`, the bytes asked for and given back. -/
def ObjInfo.blockSize (info : ObjInfo) : Int := wrap32 (info.sizeMax * info.historySize)

/-- The size of the object's block does not leave the 32-bit range. -/
def ObjInfo.Fits (m : ObjInfo) : Prop :=
  -2 ^ 31 ≤ m.sizeMax * m.historySize ∧ m.sizeMax * m.historySize < 2 ^ 31

instance (m : ObjInfo) : Decidable m.Fits := by
  unfold ObjInfo.Fits
  infer_instance

theorem ObjInfo.Fits.blockSize_eq {m : ObjInfo} (h : m.Fits) :
    m.blockSize = m.sizeMax * m.historySize := wrap32_of_bounds h.1 h.2

end KogmoRtdb
