import Mathlib.Data.List.Chain
import KogmoRtdb.Lib.Lts
import KogmoRtdb.DataPath.Writer

/-!
# The stamps of one writer

One process commits to one object, in both ways and with a clock that does not go back.
Only `kogmo_rtdb_obj_writedata` looks at an earlier stamp, at the one that it overwrites,
and only to see whether it equals the clock reading. So the stamps increase as long as
every commit reads the clock late enough: `Timely`.
-/

namespace KogmoRtdb

/-- A commit: the clock reading that it starts with, the stamp that it overwrites, and the
stamp that it stores. -/
structure Stamping where
  byPtr : Bool
  reading : Timestamp
  overwritten : Timestamp
  stamp : Timestamp
  deriving DecidableEq, Repr

/-- The database, the latest clock reading, and the commits, newest first. -/
structure StampState where
  db : Db
  clock : Timestamp
  commits : List Stamping

/-- The clock reading of a call that looks at the clock. -/
def WriterOp.reading : WriterOp → Option Timestamp
  | .writedata _ committedTs => some committedTs
  | .ptrCommit _ committedTs => some committedTs
  | _ => none

def WriterOp.byPtr : WriterOp → Bool
  | .writedata _ _ => false
  | _ => true

/-- What a commit to object `i` has stored in the slot that is the object's latest now. -/
def stampingOf (db db' : Db) (i : Nat) (op : WriterOp) (reading : Timestamp) : Stamping where
  byPtr := op.byPtr
  reading := reading
  overwritten := slotTs db.heap (db.objmeta i) (db.objmeta i).next
  stamp := slotTs db'.heap (db'.objmeta i) (db'.objmeta i).historySlot

/-- One call of the writer. The clock does not go back. -/
def stampStep [Rounding] (h : Handle) (oid : ObjId) (s : StampState)
    (op : WriterOp) : Option StampState :=
  let reading := op.reading.getD s.clock
  if reading.toInt < s.clock.toInt then none
  else
    match op.run h oid s.db with
    | none => none
    | some (db, committed) =>
        some {
          db := db
          clock := reading
          commits :=
            match s.db.findmetaById oid with
            | some i =>
                if committed then stampingOf s.db db i op reading :: s.commits else s.commits
            | none => s.commits }

/-- Any number of calls, outside of the simulation mode. -/
def stampLts [Rounding] (h : Handle) (oid : ObjId) : Lts StampState WriterOp where
  init s := s.db.simmode = false ∧ s.commits = []
  step := stampStep h oid

/-- Every commit has a later stamp than the ones before. -/
def StampsIncrease (commits : List Stamping) : Prop :=
  commits.Pairwise fun c c' => c'.stamp.toInt < c.stamp.toInt

/-- `writedata` finds its clock reading in the slot that it overwrites. -/
def Stamping.Forged (c : Stamping) : Prop := c.byPtr = false ∧ c.reading = c.overwritten

instance : DecidablePred Stamping.Forged := fun c => by
  unfold Stamping.Forged
  infer_instance

/-- The clock reading is later than the stamp of the commit before, or equal to it where
the stamp is forged. A forged stamp is not the last one there is. -/
def Timely (c last : Stamping) : Prop :=
  if c.Forged then last.stamp.toInt ≤ c.reading.toInt ∧ c.reading.toInt + 1 < 2 ^ 63
  else last.stamp.toInt < c.reading.toInt

instance (c last : Stamping) : Decidable (Timely c last) := by
  unfold Timely
  infer_instance

variable {h : Handle} {oid : ObjId} {s s' : StampState} {op : WriterOp} {c last : Stamping}

/-- The stamp is the clock reading, or one tick more. -/
def Stamping.Right (c : Stamping) : Prop :=
  c.stamp = if c.Forged then c.reading + 1 else c.reading

theorem toInt_add_one (t : Timestamp) :
    (t + 1).toInt = if t.toInt + 1 < 2 ^ 63 then t.toInt + 1 else -2 ^ 63 := by
  have hlow := t.le_toInt
  have hhigh := t.toInt_lt
  have hone : (1 : Timestamp).toInt = 1 := by decide
  rw [BitVec.toInt_add, hone, Int.bmod_def]
  split <;> split <;> omega

theorem Stamping.Right.timely_iff (hc : c.Right) :
    Timely c last ↔ last.stamp.toInt < c.stamp.toInt := by
  unfold Timely
  rw [hc]
  by_cases hf : c.Forged
  · rw [if_pos hf, if_pos hf, toInt_add_one]
    have hlow := last.stamp.le_toInt
    split <;> omega
  · rw [if_neg hf, if_neg hf]

theorem Stores.stamp_latest {db db' : Db} {i : Nat} {ts : Timestamp} (hs : Stores db i ts db') :
    slotTs db'.heap (db'.objmeta i) (db'.objmeta i).historySlot = ts := by
  rw [hs.objmeta, Function.update_self]
  exact hs.ts

theorem WriterOp.reading_of_commit [Rounding] {db db' : Db}
    (hrun : op.run h oid db = some (db', true)) : op.reading ≠ none := by
  cases op with
  | writedata data committedTs => exact Option.some_ne_none _
  | ptrCommit dataPtr committedTs => exact Option.some_ne_none _
  | ptrBegin => cases hrun
  | fill data size =>
      unfold WriterOp.run at hrun
      dsimp only at hrun
      split at hrun
      · cases hrun
      · split at hrun <;> cases hrun

theorem stampingOf_right {db db' : Db} {i : Nat} (clock : Timestamp)
    (hsim : db.simmode = false) (hs : Stores db i (op.stamp db i) db')
    (hread : op.reading ≠ none) :
    (stampingOf db db' i op (op.reading.getD clock)).Right := by
  have hstamp : (stampingOf db db' i op (op.reading.getD clock)).stamp = op.stamp db i :=
    hs.stamp_latest
  unfold Stamping.Right
  rw [hstamp]
  cases op with
  | writedata data committedTs =>
      by_cases heq : committedTs = slotTs db.heap (db.objmeta i) (db.objmeta i).next
      · have hf : (stampingOf db db' i (.writedata data committedTs) committedTs).Forged :=
          ⟨rfl, heq⟩
        refine Eq.trans ?_ (if_pos hf).symm
        exact if_pos ⟨heq, by rw [hsim]; exact Bool.false_ne_true⟩
      · have hf : ¬ (stampingOf db db' i (.writedata data committedTs) committedTs).Forged :=
          fun hf => heq hf.2
        refine Eq.trans ?_ (if_neg hf).symm
        exact if_neg fun hand => heq hand.1
  | ptrCommit dataPtr committedTs =>
      have hf : ¬ (stampingOf db db' i (.ptrCommit dataPtr committedTs) committedTs).Forged := by
        rintro ⟨hptr, -⟩
        cases hptr
      exact (if_neg hf).symm
  | ptrBegin => exact absurd rfl hread
  | fill data size => exact absurd rfl hread

/-- What a run keeps: the stamps are what they should be. -/
structure StampInv (s : StampState) : Prop where
  simmode : s.db.simmode = false
  right : ∀ c ∈ s.commits, c.Right

theorem WriterOp.run_simmode [Rounding] {db db' : Db} {committed : Bool}
    (hrun : op.run h oid db = some (db', committed)) : db'.simmode = db.simmode := by
  rcases run_cases hrun with ⟨-, rfl⟩ | ⟨i, -, -, ⟨-, hp⟩ | ⟨-, hs⟩⟩
  · rfl
  · exact hp.simmode
  · exact hs.simmode

theorem stampInv_step [Rounding] (hI : StampInv s)
    (hs : stampStep h oid s op = some s') : StampInv s' := by
  unfold stampStep at hs
  dsimp only at hs
  split at hs
  · cases hs
  cases hrun : op.run h oid s.db with
  | none =>
      rw [hrun] at hs
      cases hs
  | some out =>
      obtain ⟨db, committed⟩ := out
      rw [hrun] at hs
      cases hs
      refine ⟨(WriterOp.run_simmode hrun).trans hI.simmode, ?_⟩
      dsimp only
      split
      · rename_i i hi
        split
        · rename_i hcommit
          rw [hcommit] at hrun
          rcases WriterOp.run_cases hrun with ⟨hno, -⟩ | ⟨j, hj, -, ⟨hno, -⟩ | ⟨-, hst⟩⟩
          · cases hno
          · cases hno
          · obtain rfl := Option.some.inj (hj.symm.trans hi)
            have hright := stampingOf_right s.clock hI.simmode hst
              (WriterOp.reading_of_commit hrun)
            exact List.forall_mem_cons.mpr ⟨hright, hI.right⟩
        · exact hI.right
      · exact hI.right

/-- Commit stamps: in every run of one writer's calls, the stamps increase if and only if
every commit but the first is timely. -/
theorem stampsIncrease_iff [Rounding] (hr : (stampLts h oid).Reachable s) :
    StampsIncrease s.commits ↔ s.commits.IsChain Timely := by
  have hinv : StampInv s := by
    refine hr.invariant (I := StampInv) ?_ fun s op s' hI hs => stampInv_step hI hs
    rintro s ⟨hsim, hnil⟩
    refine ⟨hsim, fun c hc => ?_⟩
    rw [hnil] at hc
    cases hc
  have htrans : IsTrans Stamping fun c c' => c'.stamp.toInt < c.stamp.toInt :=
    ⟨fun _ _ _ h1 h2 => Int.lt_trans h2 h1⟩
  rw [StampsIncrease, ← List.isChain_iff_pairwise, List.isChain_iff_getElem,
    List.isChain_iff_getElem]
  refine forall₂_congr fun k hk => ?_
  exact (hinv.right _ (List.getElem_mem _)).timely_iff.symm

/-- A record of 32 bytes, and the first process's handle. -/
def stampSchedule (ts : Timestamp) : List WriterOp :=
  [.writedata historyRecord 0x100000005, .ptrBegin, .fill historyRecord 16,
    .writedata historyRecord ts]

theorem stampsIncrease_iff_later :
    ∃ s, (stampLts ⟨1, false⟩ 5).Reachable s ∧ StampsIncrease s.commits ∧ s.commits.length = 2 := by
  obtain ⟨s, hr, hp⟩ := (stampLts ⟨1, false⟩ 5).exists_of_exec (stampSchedule 0x100000006)
    (fun s => decide (s.commits.IsChain Timely) && decide (s.commits.length = 2))
    (s := ⟨historyDb, 0, []⟩) ⟨rfl, rfl⟩ (by decide +kernel)
  rw [Bool.and_eq_true] at hp
  exact ⟨s, hr, (stampsIncrease_iff hr).mpr (of_decide_eq_true hp.1), of_decide_eq_true hp.2⟩

/-- Two commits in one tick of the clock have the same stamp. -/
theorem exists_not_stampsIncrease :
    ∃ s, (stampLts ⟨1, false⟩ 5).Reachable s ∧ ¬ StampsIncrease s.commits := by
  obtain ⟨s, hr, hp⟩ := (stampLts ⟨1, false⟩ 5).exists_of_exec (stampSchedule 0x100000005)
    (fun s => decide (¬ s.commits.IsChain fun c c' : Stamping => c'.stamp.toInt < c.stamp.toInt))
    (s := ⟨historyDb, 0, []⟩) ⟨rfl, rfl⟩ (by decide +kernel)
  exact ⟨s, hr, fun hinc => of_decide_eq_true hp hinc.isChain⟩

end KogmoRtdb
