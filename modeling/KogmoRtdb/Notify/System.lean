import KogmoRtdb.Lib.Lts
import KogmoRtdb.Notify.Committers
import KogmoRtdb.Notify.Table
import KogmoRtdb.Notify.Waiters

/-!
# Threads on one database

Any number of threads, each in at most one call, on the shared memory of one database. A
label starts a call or names the thread that takes the next step of its call; what a
call cannot know (the clock, an early end of a wait) comes with the label.
-/

namespace KogmoRtdb

inductive Pc where
  | idle
  | waitnext (c : Waitnext) (pc : WaitPc)
  | searchWait (c : SearchWait) (pc : SearchPc)
  | write (c : WriteCall) (pc : WritePc)
  | insert (c : InsertCall) (pc : InsertPc)
  | delete (c : DeleteCall) (pc : DeletePc)
  | purge (c : PurgeCall) (pc : PurgePc)

def Pc.finished : Pc → Bool
  | .idle | .waitnext _ (.done _) | .searchWait _ (.done _) | .write _ (.done _)
  | .write _ (.filling ..) | .insert _ (.done _) | .delete _ (.done _) | .purge _ .done => true
  | _ => false

inductive Start where
  | waitnext (c : Waitnext)
  | searchWait (c : SearchWait)
  | writedata (h : Handle) (oid : ObjId) (data : Mem)
  | ptrBegin (h : Handle) (oid : ObjId)
  | ptrCommit (h : Handle) (oid : ObjId) (dataPtr : Int)
  | insert (h : Handle) (metadata : ObjInfo)
  | delete (h : Handle) (oid : ObjId) (immediatelyDelete : Bool)
  | purgeObjs

/-- The call up to its first access to what it shares with others, at clock reading `now`. -/
def Start.enter [Rounding] (env : Env) (db : Db) (now : Timestamp) : Start → Pc
  | .waitnext c => .waitnext c .find
  | .searchWait c => .searchWait c .prepare
  | .writedata h oid data => .write (.writedata h oid data now) .find
  | .ptrBegin h oid => .write (.ptrBegin h oid) .find
  | .ptrCommit h oid dataPtr =>
      .write (.ptrCommit h oid dataPtr ((db.heap.window dataPtr).read32 20).toInt now) .find
  | .insert h metadata =>
      .insert
        { h := h, ts := now, metadata := initMetadata env h now metadata, newIdx := 0
          found := none }
        (if metadata.refused then .done (-Err.invalid.code) else .lock)
  | .delete h oid immediatelyDelete =>
      .delete
        { h := h, oid := oid, immediatelyDelete := immediatelyDelete, rest := [], child := false }
        .lock
  | .purgeObjs =>
      .purge { keepAlloc := decide (db.percentFree < purgeKeepallocPercfree), ts := now } (.lock 0)

def Pc.step [Rounding] (env : Env) (p : Pid) (s : Shared) (now : Timestamp) : Pc → Option
    (Shared × Pc)
  | .idle => none
  | .waitnext c pc => (c.step p s now pc).map fun (s, pc) => (s, .waitnext c pc)
  | .searchWait c pc => (c.step env p s pc).map fun (s, pc) => (s, .searchWait c pc)
  | .write c pc => (c.step p s pc).map fun (s, pc) => (s, .write c pc)
  | .insert c pc => (c.step env p s pc).map fun (s, c, pc) => (s, .insert c pc)
  | .delete c pc => (c.step env p s now pc).map fun (s, c, pc) => (s, .delete c pc)
  | .purge c pc => (c.step p s pc).map fun (s, pc) => (s, .purge c pc)

/-- The wait of a thread ends without a broadcast; with a wake-up time, perhaps because it
is reached. -/
def Pc.wake (p : Pid) (s : Shared) (timedOut : Bool) : Pc → Option (Shared × Pc)
  | .waitnext c (.loop l (.blocked false)) =>
      if (s.changenotify l.i).waiting p ∧ (timedOut → c.wakeupTs ≠ 0) then
        some (s.wakeNotify p l.i, .waitnext c (.loop l (.blocked timedOut)))
      else none
  | .searchWait c (.blocked false) =>
      if s.objmetaLock.waiting p ∧ (timedOut → c.wakeupTs ≠ 0) then
        some (s.wakeObjmeta p, .searchWait c (.blocked timedOut))
      else none
  | _ => none

def Pc.fill (s : Shared) (n : Nat) (v : BitVec 32) : Pc → Option (Shared × Pc)
  | .write c pc => (fillWord s n v pc).map fun s => (s, .write c pc)
  | _ => none

/-- The ghost field `started` lists the threads that have made a call. -/
structure Threads where
  shared : Shared
  pc : Pid → Pc
  started : List Pid

inductive Label where
  | start (p : Pid) (call : Start) (now : Timestamp)
  | next (p : Pid) (now : Timestamp)
  | wake (p : Pid) (timedOut : Bool)
  | fill (p : Pid) (n : Nat) (v : BitVec 32)

def Label.pid : Label → Pid
  | .start p _ _ | .next p _ | .wake p _ | .fill p _ _ => p

/-- What a label makes of the shared memory and of where its thread is. -/
def Label.move [Rounding] (env : Env) (s : Shared) (pc : Pc) : Label → Option (Shared × Pc)
  | .start _ call now => if pc.finished then some (s, call.enter env s.db now) else none
  | .next p now => pc.step env p s now
  | .wake p timedOut => pc.wake p s timedOut
  | .fill _ n v => pc.fill s n v

/-- A call makes its thread one of those that have started. -/
def Label.starts : Label → List Pid → List Pid
  | .start p _ _, ps => p :: ps
  | _, ps => ps

def Threads.moved (t : Threads) (l : Label) (s : Shared) (pc : Pc) : Threads where
  shared := s
  pc := Function.update t.pc l.pid pc
  started := l.starts t.started

/-- The threads on a database from its initialisation on. -/
def threadsLts [Rounding] (env : Env) (heapSize : Int) : Lts Threads Label where
  init t := t = { shared := .initial env heapSize, pc := fun _ => .idle, started := [] }
  step t l := (l.move env t.shared (t.pc l.pid)).map fun (s, pc) => t.moved l s pc

theorem threadsLts_step [Rounding] {env : Env} {heapSize : Int} {t t' : Threads} {l : Label}
    (h : (threadsLts env heapSize).step t l = some t') :
    ∃ s pc, l.move env t.shared (t.pc l.pid) = some (s, pc) ∧ t' = t.moved l s pc := by
  obtain ⟨⟨s, pc⟩, hmove, hput⟩ := Option.map_eq_some_iff.mp h
  exact ⟨s, pc, hmove, hput.symm⟩

namespace Threads

variable {t : Threads} {l : Label} {s : Shared} {pc : Pc} {q : Pid}

@[simp] theorem moved_shared : (t.moved l s pc).shared = s := rfl

@[simp] theorem moved_pc_self : (t.moved l s pc).pc l.pid = pc := Function.update_self ..

theorem moved_pc_of_ne (h : q ≠ l.pid) : (t.moved l s pc).pc q = t.pc q :=
  Function.update_of_ne h ..

end Threads

theorem Label.mem_starts {l : Label} {p : Pid} {ps : List Pid} (h : p ∈ ps) : p ∈ l.starts ps := by
  cases l with
  | start q call now => exact List.mem_cons_of_mem q h
  | _ => exact h

/-- A thread that is in no call yet takes no step but to start one. -/
theorem Label.move_idle [Rounding] {env : Env} {s s' : Shared} {pc : Pc} {l : Label}
    (h : l.move env s .idle = some (s', pc)) (ps : List Pid) : l.pid ∈ l.starts ps := by
  cases l with
  | start p call now => exact List.mem_cons_self
  | _ => cases h

end KogmoRtdb
