import KogmoRtdb.DataPath.ObjdataPtr
import KogmoRtdb.Notify.Shared

/-!
# The calls that commit

`kogmo_rtdb_obj_writedata` and the pair `kogmo_rtdb_obj_writedata_ptr_begin` and
`kogmo_rtdb_obj_writedata_ptr_commit`, step by step. Once a call has chosen its history
slot, every store of a word is a step, and the two ways to write share
the steps that make the record valid and tell the waiters.

Between `ptr_begin` and `ptr_commit` the application stores words of its own behind the
stamp; the size it states there is never negative.
-/

namespace KogmoRtdb

inductive PutKind where
  | writedata | ptrBegin | ptrCommit
  deriving DecidableEq, Repr

/-- A call past its checks: the slot of the table, the history slot and its heap index, the
record to copy, the stamp, and whether waiters are to be told. -/
structure Put where
  kind : PutKind
  i : Nat
  slot : Int
  addr : Int
  proc : BitVec 32
  size : Nat
  src : Mem
  stamp : Timestamp
  noNotifies : Bool

inductive PutPc where
  | invHigh
  | invLow
  | copy (n : Nat)
  | proc
  | dataTest
  | dataLow
  | dataHigh
  | prepare
  | valLow
  | valHigh
  | publish
  | unlockObj
  | broadcast
  | unlock
  deriving DecidableEq, Repr

/-- A call that writes. `data` and `ts` are the caller's record and the clock reading,
`dataPtr` the caller's pointer. -/
inductive WriteCall where
  | writedata (h : Handle) (oid : ObjId) (data : Mem) (ts : Timestamp)
  | ptrBegin (h : Handle) (oid : ObjId)
  | ptrCommit (h : Handle) (oid : ObjId) (dataPtr size : Int) (ts : Timestamp)

/-- The next step of a call. In `filling` the call has returned and the application uses the
pointer it got. -/
inductive WritePc where
  | find
  | checks (i : Nat)
  | lockObj (i : Nat)
  | watch (i : Nat)
  | refuse (i : Nat)
  | choose (i : Nat)
  | put (t : Put) (pc : PutPc)
  | filling (i : Nat) (addr sizeMax : Int)
  | done (ret : Int)

/-- Step 6 comes next, for which the waiters' lock is taken if there can be any. -/
def Put.toValidate (t : Put) : PutPc := if t.noNotifies then .valLow else .prepare

/-- The steps from the choice of the history slot on. -/
def Put.step (t : Put) (p : Pid) (s : Shared) : PutPc → Option (Shared × WritePc)
  | .invHigh => some (s.store32 (t.addr + 4) (hiWord invalidTs), .put t .invLow)
  | .invLow =>
      some (s.store32 t.addr (loWord invalidTs),
        if t.kind = .ptrBegin then .filling t.i t.addr (s.db.objmeta t.i).sizeMax
        else .put t (.copy 0))
  | .copy n =>
      if 4 * n < t.size then
        let word : Mem := fun b => t.src (4 * n + b)
        some (s.setDb { s.db with
          heap := s.db.heap.put (t.addr + (4 * n : Nat)) word (min 4 (t.size - 4 * n)) },
          .put t (.copy (n + 1)))
      else some (s, .put t .dataTest)
  | .proc => some (s.store32 (t.addr + 8) t.proc, .put t .dataTest)
  | .dataTest =>
      some (s, .put t
        (if (s.db.heap.window t.addr).read64 12 = invalidTs then .dataLow else t.toValidate))
  | .dataLow => some (s.store32 (t.addr + 12) (loWord t.stamp), .put t .dataHigh)
  | .dataHigh => some (s.store32 (t.addr + 16) (hiWord t.stamp), .put t t.toValidate)
  | .prepare => (s.lockNotify p t.i).map fun s => (s, .put t .valLow)
  | .valLow => some (s.store32 t.addr (loWord t.stamp), .put t .valHigh)
  | .valHigh => some (s.store32 (t.addr + 4) (hiWord t.stamp), .put t .publish)
  | .publish =>
      some (s.setDb (s.db.setMeta t.i { s.db.objmeta t.i with historySlot := t.slot }),
        .put t .unlockObj)
  | .unlockObj =>
      some (if t.kind = .writedata ∧ (s.db.objmeta t.i).flags.writeAllow then s.unlockObj p t.i
        else s, if t.noNotifies then .done 0 else .put t .broadcast)
  | .broadcast => some (s.broadcastNotify t.i, .put t .unlock)
  | .unlock => some (s.unlockNotify p t.i, .done 0)

/-- The checks of a call on the object it has found, and where it goes on. -/
def WriteCall.checks (c : WriteCall) (info : ObjInfo) (i : Nat) : WritePc :=
  if info.bufferIdx = 0 then .done (-Err.notFound.code)
  else
    match c with
    | .writedata h _ data _ =>
        let size := (data.read32 20).toInt
        if info.sizeMax < size then .done (-Err.invalid.code)
        else if size < 24 then .done (-Err.invalid.code)
        else if info.writeDenied h then .done (-Err.noPerm.code)
        else if info.flags.writeAllow then .lockObj i
        else .watch i
    | .ptrBegin h _ => if info.ptrDenied h then .done (-Err.invalid.code) else .choose i
    | .ptrCommit h _ _ size _ =>
        if info.sizeMax < size then .done (-Err.invalid.code)
        else if size < 24 then .done (-Err.invalid.code)
        else if info.ptrDenied h then .done (-Err.invalid.code)
        else .watch i

/-- The caller's record has a size that the object allows. -/
def WriteCall.Sized (info : ObjInfo) : WriteCall → Prop
  | .writedata _ _ data _ =>
      24 ≤ (data.read32 20).toInt ∧ (data.read32 20).toInt ≤ info.sizeMax
  | _ => True

/-- The checks end the call, or it goes on with an object that has a buffer. -/
theorem WriteCall.checks_cases (c : WriteCall) (info : ObjInfo) (i : Nat) :
    (∃ ret, c.checks info i = .done ret) ∨
      info.bufferIdx ≠ 0 ∧ c.Sized info ∧
        (c.checks info i = .lockObj i ∨ c.checks info i = .watch i ∨
          c.checks info i = .choose i) := by
  unfold WriteCall.checks
  by_cases hidx : info.bufferIdx = 0
  · exact Or.inl ⟨_, if_pos hidx⟩
  rw [if_neg hidx]
  cases c with
  | writedata h oid data ts =>
      dsimp only
      split
      · exact Or.inl ⟨_, rfl⟩
      rename_i hmax
      split
      · exact Or.inl ⟨_, rfl⟩
      rename_i hmin
      split
      · exact Or.inl ⟨_, rfl⟩
      have hsized : (WriteCall.writedata h oid data ts).Sized info := ⟨by omega, by omega⟩
      split
      · exact Or.inr ⟨hidx, hsized, Or.inl rfl⟩
      · exact Or.inr ⟨hidx, hsized, Or.inr (Or.inl rfl)⟩
  | ptrBegin h oid =>
      dsimp only
      split
      · exact Or.inl ⟨_, rfl⟩
      · exact Or.inr ⟨hidx, trivial, Or.inr (Or.inr rfl)⟩
  | ptrCommit h oid dataPtr size ts =>
      dsimp only
      split
      · exact Or.inl ⟨_, rfl⟩
      split
      · exact Or.inl ⟨_, rfl⟩
      split
      · exact Or.inl ⟨_, rfl⟩
      · exact Or.inr ⟨hidx, trivial, Or.inr (Or.inl rfl)⟩

variable [Rounding]

/-- The `cycle_watch` test. -/
def WriteCall.refuses (c : WriteCall) (heap : Heap) (info : ObjInfo) : Bool :=
  match c with
  | .writedata _ _ _ ts | .ptrCommit _ _ _ _ ts => tooFast heap info ts
  | .ptrBegin _ _ => false

def WriteCall.choose (c : WriteCall) (db : Db) (i : Nat) : WritePc :=
  let info := db.objmeta i
  let noNotifies := info.flags.noNotifies || db.noNotifies
  let slot := nextSlot info.historySize info.historySlot
  let addr := info.slotAddr slot
  match c with
  | .writedata h _ data ts =>
      let proc : BitVec 32 := BitVec.ofInt 32 h.procOid
      .put
        { kind := .writedata, i := i, slot := slot, addr := addr, proc := proc
          size := (data.read32 20).toInt.toNat, src := commitSource proc data
          stamp := forge db.simmode ts ((db.heap.window addr).read64 0)
          noNotifies := noNotifies }
        .invHigh
  | .ptrBegin h _ =>
      .put
        { kind := .ptrBegin, i := i, slot := slot, addr := addr
          proc := BitVec.ofInt 32 h.procOid, size := 0, src := .zero, stamp := invalidTs
          noNotifies := noNotifies }
        .invHigh
  | .ptrCommit h _ dataPtr size ts =>
      if dataPtr ≠ addr then .done (-Err.invalid.code)
      else
        .put
          { kind := .ptrCommit, i := i, slot := slot, addr := addr
            proc := BitVec.ofInt 32 h.procOid, size := size.toNat, src := .zero, stamp := ts
            noNotifies := noNotifies }
          .proc

def WriteCall.oid : WriteCall → ObjId
  | .writedata _ oid _ _ | .ptrBegin _ oid | .ptrCommit _ oid _ _ _ => oid

def WriteCall.step (c : WriteCall) (p : Pid) (s : Shared) : WritePc → Option (Shared × WritePc)
  | .find =>
      match s.db.findmetaById c.oid with
      | none => some (s, .done (-Err.notFound.code))
      | some i => some (s, .checks i)
  | .checks i => some (s, c.checks (s.db.objmeta i) i)
  | .lockObj i => (s.lockObj p i).map fun s => (s, .watch i)
  | .watch i =>
      some (s, if c.refuses s.db.heap (s.db.objmeta i) then .refuse i else .choose i)
  | .refuse i =>
      some (if (s.db.objmeta i).flags.writeAllow then s.unlockObj p i else s,
        .done (-Err.tooFast.code))
  | .choose i => some (s, c.choose s.db i)
  | .put t pc => t.step p s pc
  | .filling .. | .done _ => none

/-- The application stores word `n` of the record it fills in place. -/
def fillWord (s : Shared) (n : Nat) (v : BitVec 32) : WritePc → Option Shared
  | .filling _ addr sizeMax =>
      if 2 ≤ n ∧ (4 * n + 4 : Int) ≤ sizeMax ∧ (n = 5 → 0 ≤ v.toInt) then
        some (s.store32 (addr + (4 * n : Nat)) v)
      else none
  | _ => none

end KogmoRtdb
