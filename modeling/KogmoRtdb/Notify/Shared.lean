import KogmoRtdb.Lib.Monitor
import KogmoRtdb.Meta.Init

/-!
# Shared memory with its locks

The shared memory as threads see it that run at the same time: the database, the
three kinds of mutexes with their condition variables, and the calls made to the
allocator. Every access of a thread is a step of its own, and the modules
beside this one say for each call which step comes next.

`objmeta_lock` protects the table and comes with `objmeta_changenotify`. Every
slot of the table has an `obj_changenotify_lock` with an `obj_changenotify`,
and an `obj_lock` for objects that several processes may write.

The ghost field `deleted` lists the oids whose objects have been marked as
deleted.
-/

namespace KogmoRtdb

abbrev Pid := Nat

structure Shared where
  db : Db
  heapLog : List HeapEvent
  objmetaLock : Monitor Pid
  changenotify : Nat → Monitor Pid
  objLock : Nat → Monitor Pid
  deleted : List ObjId

namespace Shared

/-- The shared memory that `kogmo_rtdb_obj_local_init` leaves. -/
def initial (env : Env) (heapSize : Int) : Shared where
  db := (World.initial env heapSize).db
  heapLog := (World.initial env heapSize).heapLog
  objmetaLock := .free
  changenotify _ := .free
  objLock _ := .free
  deleted := []

def setDb (s : Shared) (db : Db) : Shared := { s with db := db }

/-! ## The locks -/

/-- `kogmo_rtdb_objmeta_lock`, also `kogmo_rtdb_obj_wait_metanotify_prepare`. -/
def lockObjmeta (s : Shared) (p : Pid) : Option Shared :=
  (s.objmetaLock.lock p).map fun m => { s with objmetaLock := m }

/-- `kogmo_rtdb_objmeta_unlock`, also `kogmo_rtdb_obj_wait_metanotify_done`. -/
def unlockObjmeta (s : Shared) (p : Pid) : Shared :=
  { s with objmetaLock := s.objmetaLock.unlock p }

/-- The wait in `kogmo_rtdb_obj_wait_metanotify`. -/
def waitObjmeta (s : Shared) (p : Pid) : Option Shared :=
  (s.objmetaLock.wait p).map fun m => { s with objmetaLock := m }

/-- The broadcast of `kogmo_rtdb_objmeta_unlock_notify`. -/
def broadcastObjmeta (s : Shared) : Shared :=
  { s with objmetaLock := s.objmetaLock.broadcast }

def wakeObjmeta (s : Shared) (p : Pid) : Shared :=
  { s with objmetaLock := s.objmetaLock.wake p }

def setNotify (s : Shared) (i : Nat) (m : Monitor Pid) : Shared :=
  { s with changenotify := Function.update s.changenotify i m }

/-- `kogmo_rtdb_obj_do_notify_prepare`, also `kogmo_rtdb_obj_wait_notify_prepare`. -/
def lockNotify (s : Shared) (p : Pid) (i : Nat) : Option Shared :=
  ((s.changenotify i).lock p).map (s.setNotify i)

/-- `kogmo_rtdb_obj_wait_notify_done`, also the end of `kogmo_rtdb_obj_do_notify`. -/
def unlockNotify (s : Shared) (p : Pid) (i : Nat) : Shared :=
  s.setNotify i ((s.changenotify i).unlock p)

/-- The wait in `kogmo_rtdb_obj_wait_notify`. -/
def waitNotify (s : Shared) (p : Pid) (i : Nat) : Option Shared :=
  ((s.changenotify i).wait p).map (s.setNotify i)

/-- The broadcast of `kogmo_rtdb_obj_do_notify`. -/
def broadcastNotify (s : Shared) (i : Nat) : Shared :=
  s.setNotify i (s.changenotify i).broadcast

def wakeNotify (s : Shared) (p : Pid) (i : Nat) : Shared :=
  s.setNotify i ((s.changenotify i).wake p)

def setObjLock (s : Shared) (i : Nat) (m : Monitor Pid) : Shared :=
  { s with objLock := Function.update s.objLock i m }

/-- `kogmo_rtdb_obj_lock`. -/
def lockObj (s : Shared) (p : Pid) (i : Nat) : Option Shared :=
  ((s.objLock i).lock p).map (s.setObjLock i)

/-- `kogmo_rtdb_obj_unlock`. -/
def unlockObj (s : Shared) (p : Pid) (i : Nat) : Shared :=
  s.setObjLock i ((s.objLock i).unlock p)

/-! ## The heap -/

def store32 (s : Shared) (a : Int) (v : BitVec 32) : Shared :=
  s.setDb { s.db with heap := s.db.heap.put a (Mem.leBytes v) 4 }

/-- `kogmo_rtdb_obj_mem_alloc` hands out a block, cleared. -/
def allocated (s : Shared) (idx size : Int) : Shared :=
  { s with
    db := { s.db with
      heap := s.db.heap.put idx Mem.zero size.toNat
      heapFree := s.db.heapFree - size
      heapUsed := s.db.heapUsed + size }
    heapLog := .alloc ⟨idx, size⟩ :: s.heapLog }

/-- `kogmo_rtdb_obj_mem_free`. -/
def freed (s : Shared) (idx size : Int) : Shared :=
  { s with
    db := { s.db with
      heapFree := s.db.heapFree + size
      heapUsed := s.db.heapUsed - size }
    heapLog := .free ⟨idx, size⟩ :: s.heapLog }

end Shared

end KogmoRtdb
