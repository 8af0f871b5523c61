import KogmoRtdb.DataPath.Objdata
import KogmoRtdb.Meta.Searchinfo
import KogmoRtdb.Notify.Shared

/-!
# The calls that wait

`kogmo_rtdb_obj_readdata_waitnext_until` and `kogmo_rtdb_obj_searchinfo_wait_until`,
step by step. Each runs a loop: take the lock of a condition variable, look whether
there is what the caller wants, and if not, wait for a broadcast and start again.

The search is one look at the table, since everything it reads changes under the lock
it holds. The look for new data takes no lock that would keep writers out
of the history, and is taken apart into its loads: it is
`kogmo_rtdb_obj_readdata` for the latest record, of which only the stamp is used.

Answers are integers as in the source, errors negative.
-/

namespace KogmoRtdb

/-! ## `kogmo_rtdb_obj_readdata_waitnext_until` -/

/-- The arguments of a call; `doPtr` marks the direct-pointer variant. -/
structure Waitnext where
  h : Handle
  oid : ObjId
  oldTs : Timestamp
  buf : Mem
  size : Int
  wakeupTs : Timestamp
  doPtr : Bool

/-- The local variables of the loop: the object's slot, and whether to poll. The ghost
fields tell whether this is a second or later round, and whether the round
began after the object's deletion. -/
structure WaitLoop where
  i : Nat
  noNotifies : Bool
  again : Bool
  late : Bool
  deriving DecidableEq

/-- The next step of the loop; `j` is the slot that `readdata` works on, `k` the history
slot. -/
inductive LoopPc where
  | prepare
  | lookup
  | checks (j : Nat)
  | histSlot (j : Nat)
  | test (j : Nat) (k : Int)
  | deletedTs (j : Nat) (k : Int)
  | scanHi (j : Nat) (k : Int)
  | scanLo (j : Nat) (k : Int) (hi : BitVec 32)
  | finLo (j : Nat) (k : Int) (ts : Timestamp)
  | finHi (j : Nat) (k : Int) (ts : Timestamp) (lo : BitVec 32)
  | stale (j : Nat) (k : Int) (ts : Timestamp)
  | retSize (j : Nat) (k : Int) (ts : Timestamp)
  | deletedTest
  | leave (ret : Option Int)
  | wait (ret : Int)
  | blocked (timedOut : Bool)
  | woken (timedOut : Bool)
  | unlocked (timedOut : Bool)
  | timedOut (ret : Int)
  deriving DecidableEq

inductive WaitPc where
  | find
  | flags (i : Nat)
  | loop (l : WaitLoop) (pc : LoopPc)
  | final
  | done (ret : Int)
  deriving DecidableEq

/-- What follows from the answer of `readdata` and the stamp it left. -/
def Waitnext.judge (c : Waitnext) (ret : Int) (ts : Timestamp) : LoopPc :=
  if 0 ≤ ret ∧ c.oldTs.toInt < ts.toInt then .leave none
  else if ret < 0 ∧ ret ≠ -Err.notFound.code then .leave (some ret)
  else if ret = -Err.notFound.code then .deletedTest
  else .wait ret

/-- `readdata` fails. -/
def Waitnext.fail (c : Waitnext) (e : Err) : LoopPc := c.judge (-e.code) invalidTs

variable [Rounding]

/-- The loads of `readdata`, from the object's metadata on. -/
def Waitnext.look (c : Waitnext) (db : Db) (now : Timestamp) : LoopPc → LoopPc
  | .lookup =>
      match db.findmetaById c.oid with
      | none => c.fail .notFound
      | some j => .checks j
  | .checks j =>
      let info := db.objmeta j
      if info.bufferIdx = 0 then c.fail .notFound
      else if info.readDenied c.h then c.fail .noPerm
      else .histSlot j
  | .histSlot j =>
      let info := db.objmeta j
      if info.historySize = 0 then c.fail .notFound
      else .test j (histPos info.historySize info.historySlot)
  | .test j k =>
      if (slotWindow db.heap (db.objmeta j) k).read32 4 = hiWord invalidTs then c.fail .notFound
      else .deletedTs j k
  | .deletedTs j k =>
      if (db.objmeta j).deletedTs ≠ invalidTs then c.fail .notFound else .scanHi j k
  | .scanHi j k => .scanLo j k ((slotWindow db.heap (db.objmeta j) k).read32 4)
  | .scanLo j k hi =>
      .finLo j k (ofWords hi ((slotWindow db.heap (db.objmeta j) k).read32 0))
  | .finLo j k ts => .finHi j k ts ((slotWindow db.heap (db.objmeta j) k).read32 0)
  | .finHi j k ts lo =>
      if ofWords ((slotWindow db.heap (db.objmeta j) k).read32 4) lo ≠ ts then c.fail .histWrap
      else .stale j k ts
  | .stale j k ts =>
      if tooOld (db.objmeta j) (slotTs db.heap (db.objmeta j) k) now then c.fail .tooFast
      else .retSize j k ts
  | .retSize j k ts => c.judge (slotSize db.heap (db.objmeta j) k) ts
  | pc => pc

def Waitnext.finalRead (c : Waitnext) (db : Db) (now : Timestamp) : Int :=
  if c.doPtr then
    match readdataModePtr db c.h .last c.oid invalidTs 1 with
    | some (.ok (_, size)) => size
    | some (.error e) => -e.code
    | none => -Err.unknown.code
  else
    match readdata db c.h c.oid invalidTs c.buf c.size now 1 with
    | some { ret := .ok size, .. } => size
    | some { ret := .error e, .. } => -e.code
    | none => -Err.unknown.code

def Waitnext.loopStep (c : Waitnext) (p : Pid) (s : Shared) (now : Timestamp) (l : WaitLoop) :
    LoopPc → Option (Shared × WaitPc)
  | .prepare =>
      let l := { l with late := decide (c.oid ∈ s.deleted) }
      if l.noNotifies then some (s, .loop l .lookup)
      else (s.lockNotify p l.i).map fun s => (s, .loop l .lookup)
  | .deletedTest =>
      if (s.db.objmeta l.i).deletedTs ≠ invalidTs then
        some (s, .loop l (.leave (some (-Err.notFound.code))))
      else some (s, .loop l (.wait (-Err.notFound.code)))
  | .leave ret =>
      some (if l.noNotifies then s else s.unlockNotify p l.i,
        match ret with
        | none => .final
        | some ret => .done ret)
  | .wait ret =>
      if l.noNotifies then
        let pollTs := addSecs now (s.db.objmeta l.i).pollTime
        if c.wakeupTs ≠ 0 ∧ c.wakeupTs.toInt < pollTs.toInt then
          some (s, .loop l (.timedOut ret))
        else some (s, .loop { l with again := true } .prepare)
      else (s.waitNotify p l.i).map fun s => (s, .loop l (.blocked false))
  | .blocked timedOut =>
      if (s.changenotify l.i).waiting p then none
      else (s.lockNotify p l.i).map fun s => (s, .loop l (.woken timedOut))
  | .woken timedOut => some (s.unlockNotify p l.i, .loop l (.unlocked timedOut))
  | .unlocked timedOut =>
      if timedOut then some (s, .loop l (.timedOut (-Err.timeout.code)))
      else some (s, .loop { l with again := true } .prepare)
  -- the lock has been released before
  | .timedOut ret => some (s.unlockNotify p l.i, .done ret)
  | pc => some (s, .loop l (c.look s.db now pc))

def Waitnext.step (c : Waitnext) (p : Pid) (s : Shared) (now : Timestamp) :
    WaitPc → Option (Shared × WaitPc)
  | .find =>
      match s.db.findmetaById c.oid with
      | none => some (s, .done (-Err.notFound.code))
      | some i => some (s, .flags i)
  | .flags i =>
      let noNotifies := (s.db.objmeta i).flags.noNotifies || s.db.noNotifies
      some (s, .loop { i := i, noNotifies := noNotifies, again := false, late := false } .prepare)
  | .loop l pc => c.loopStep p s now l pc
  | .final => some (s, .done (c.finalRead s.db now))
  | .done _ => none

/-! ## `kogmo_rtdb_obj_searchinfo_wait_until` -/

structure SearchWait where
  name : Option ObjName
  otype : Int
  parentOid : ObjId
  procOid : ObjId
  wakeupTs : Timestamp

inductive SearchPc where
  | prepare
  | search
  | leave (ret : Int)
  | wait
  | blocked (timedOut : Bool)
  | woken (timedOut : Bool)
  | unlocked (timedOut : Bool)
  | timedOut
  | done (ret : Int)
  deriving DecidableEq

/-- What the search returns: the oid of the first match, or an error. -/
def SearchWait.answer (c : SearchWait) (env : Env) (db : Db) : Int :=
  match (searchDb env db c.name c.otype c.parentOid c.procOid 0 none 1).1 with
  | .ok oid => oid
  | .error e => -e.code

def SearchWait.step (c : SearchWait) (env : Env) (p : Pid) (s : Shared) :
    SearchPc → Option (Shared × SearchPc)
  | .prepare => (s.lockObjmeta p).map fun s => (s, .search)
  | .search =>
      let ret := c.answer env s.db
      some (s, if ret = -Err.notFound.code then .wait else .leave ret)
  | .leave ret => some (s.unlockObjmeta p, .done ret)
  | .wait => (s.waitObjmeta p).map fun s => (s, .blocked false)
  | .blocked timedOut =>
      if s.objmetaLock.waiting p then none
      else (s.lockObjmeta p).map fun s => (s, .woken timedOut)
  | .woken timedOut => some (s.unlockObjmeta p, .unlocked timedOut)
  | .unlocked timedOut => some (s, if timedOut then .timedOut else .prepare)
  -- the lock has been released before
  | .timedOut => some (s.unlockObjmeta p, .done (-Err.timeout.code))
  | .done _ => none

end KogmoRtdb
