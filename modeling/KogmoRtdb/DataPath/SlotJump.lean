import KogmoRtdb.DataPath.SlotWalk

/-!
# Jumps through the slots

`kogmo_rtdb_obj_readdataslot_relative` with any offset, on a ring that is not being written to.
The place it comes to is the one of all commits that many places on, a whole number of turns
left out, and the comparison of the stamps only tells on which side of the cursor the record
found there lies (`jump_cases`). So a jump of a turn or more can end at a commit that is in
the ring where it should fail.
-/

namespace KogmoRtdb

/-! ## Rings between two writes -/

structure SettledRing (db : Db) (oid : ObjId) (i n : Nat) (cs : List Commit) : Prop extends
    RingHistory db oid i n cs where
  settled : ∀ k < n, slotTs db.heap (db.objmeta i) k = invalidTs → cs.length ≤ k

/-- The runs of writers on the object in slot `i`: the commits, oldest first, whether something
has been written since the last one, and the database. -/
inductive WriterRun [Rounding] (oid : ObjId) (i : Nat)
    (db₀ : Db) : List Commit → Bool → Db → Prop where
  | nil : WriterRun oid i db₀ [] false db₀
  | prepare {cs : List Commit} {pending : Bool} {db db' : Db} {h : Handle} {op : WriterOp} :
      WriterRun oid i db₀ cs pending db → op.run h oid db = some (db', false) →
      WriterRun oid i db₀ cs true db'
  | commit {cs : List Commit} {pending : Bool} {db db' : Db} {h : Handle} {op : WriterOp}
      {c : Commit} :
      WriterRun oid i db₀ cs pending db → op.run h oid db = some (db', true) →
      slotCommit db'.heap (db.objmeta i) (db.objmeta i).next = some c → Continues cs c →
      WriterRun oid i db₀ (cs ++ [c]) false db'

/-- Commit number `j` is among the last `n`. -/
def Retained (n : Nat) (cs : List Commit) (j : Int) : Prop :=
  0 ≤ j ∧ j < cs.length ∧ cs.length ≤ j + n

instance (n : Nat) (cs : List Commit) (j : Int) : Decidable (Retained n cs j) := by
  unfold Retained
  infer_instance

variable {db db' db₀ : Db} {h : Handle} {oid : ObjId} {i n k : Nat} {cs : List Commit} {c : Commit}
  {objslot objslot' : ObjSlot} {offset : Int} {data : Mem} {size : Int} {pending : Bool}

theorem RingHistory.settled_of_stores {ts : Timestamp} (hr : RingHistory db oid i n cs)
    (hst : Stores db i ts db')
    (hc : slotCommit db'.heap (db.objmeta i) (db.objmeta i).next = some c)
    (hcont : Continues cs c) : SettledRing db' oid i n (cs ++ [c]) where
  toRingHistory := hr.stores hst hc hcont
  settled k hk hts := by
    have hinfo : db'.objmeta i = { db.objmeta i with historySlot := (db.objmeta i).next } := by
      rw [hst.objmeta, Function.update_self]
    rw [hinfo] at hts
    have hts : slotTs db'.heap (db.objmeta i) k = invalidTs := hts
    have hne : k ≠ cs.length % n := by
      intro heq
      rw [heq, ← hr.next_eq, ← (slotCommit_some hc).1] at hts
      exact hcont.1 hts
    rw [hr.ts_eq hst.elsewhere hk hne] at hts
    rw [List.length_append]
    rcases hr.slots k hk with ⟨-, hle | heq⟩ | ⟨m, d, hm, -, -, hheld⟩
    · have hlt : cs.length ≠ k := by
        rintro rfl
        exact hne (Nat.mod_eq_of_lt hk).symm
      have hone : [c].length = 1 := rfl
      omega
    · exact absurd heq hne
    · exact absurd (hheld.read64_stamp.symm.trans hts) (hr.valid_of_lookup hm)

theorem EmptyRing.settled (he : EmptyRing db oid i n) : SettledRing db oid i n [] where
  toRingHistory := he.history
  settled _ _ _ := Nat.zero_le _

theorem WriterRun.inv [Rounding] (he : EmptyRing db₀ oid i n)
    (hrun : WriterRun oid i db₀ cs pending db) :
    RingHistory db oid i n cs ∧ (pending = false → SettledRing db oid i n cs) := by
  induction hrun with
  | nil => exact ⟨he.history, fun _ => he.settled⟩
  | prepare _ hop ih =>
      refine ⟨?_, fun hp => by cases hp⟩
      rcases WriterOp.run_cases hop with ⟨-, rfl⟩ | ⟨j, hj, -, ⟨-, hp⟩ | ⟨hcontra, -⟩⟩
      · exact ih.1
      · obtain rfl := Option.some.inj (hj.symm.trans ih.1.found)
        exact ih.1.prepares hp
      · cases hcontra
  | commit _ hop hc hcont ih =>
      rcases WriterOp.run_cases hop with ⟨hcontra, -⟩ | ⟨j, hj, -, ⟨hcontra, -⟩ | ⟨-, hst⟩⟩
      · cases hcontra
      · cases hcontra
      · obtain rfl := Option.some.inj (hj.symm.trans ih.1.found)
        have hsettled := ih.1.settled_of_stores hst hc hcont
        exact ⟨hsettled.toRingHistory, fun _ => hsettled⟩

/-! ## The place that a jump comes to -/

/-- The cursor's arithmetic is a remainder, for offsets of either sign and any size. -/
theorem slotPos_eq_emod (hn : 0 < n) {slot : Int} (hslot : 0 ≤ slot) (offset : Int) :
    slotPos n slot offset = (slot + offset) % n := by
  have hlow : -(n : Int) < offset.tmod n := Int.lt_tmod_of_pos offset (by omega)
  rw [slotPos, Int.tmod_eq_emod_of_nonneg (by omega), Int.add_emod_right, Int.tmod_def,
    show slot + (offset - n * offset.tdiv n) = slot + offset - n * offset.tdiv n by omega,
    Int.sub_mul_emod_self_left]

/-- Two numbers with one place, less than a turn apart, are equal. -/
theorem eq_of_emod_eq {n : Nat} {a b : Int} (hab : a % n = b % n) (h1 : a < b + n)
    (h2 : b < a + n) : a = b := by
  obtain ⟨q, hq⟩ : (n : Int) ∣ a - b :=
    Int.dvd_of_emod_eq_zero (Int.emod_eq_emod_iff_emod_sub_eq_zero.mp hab)
  have hq0 : q = 0 := by
    by_contra hne
    rcases Int.lt_or_gt_of_ne hne with hneg | hpos
    · have : (n : Int) * q ≤ n * (-1) := Int.mul_le_mul_of_nonneg_left (by omega) (by omega)
      omega
    · have : (n : Int) * 1 ≤ n * q := Int.mul_le_mul_of_nonneg_left (by omega) (by omega)
      omega
  rw [hq0, Int.mul_zero] at hq
  omega

/-! ## The records of a settled ring -/

theorem RingHistory.stamp_le_iff {j : Nat} {d : Commit} (hr : RingHistory db oid i n cs)
    (hk : cs[k]? = some c) (hj : cs[j]? = some d) :
    c.stamp.toInt ≤ d.stamp.toInt ↔ k ≤ j := by
  constructor
  · intro hle
    by_contra hlt
    have := hr.stamp_lt hj hk (by omega)
    omega
  · intro hle
    rcases Nat.lt_or_eq_of_le hle with hlt | heq
    · exact Int.le_of_lt (hr.stamp_lt hk hj hlt)
    · rw [heq, hj] at hk
      exact Int.le_of_eq (by rw [Option.some.inj hk])

namespace SettledRing

theorem holds (hr : SettledRing db oid i n cs) {m : Nat} (hm : cs[m]? = some c)
    (hret : cs.length ≤ m + n) :
    HoldsRecord (slotWindow db.heap (db.objmeta i) (m % n : Nat)) c := by
  have hmlt := lookup_lt hm
  have hlt := Nat.mod_lt m hr.block.pos
  have hvalid : slotTs db.heap (db.objmeta i) (m % n : Nat) ≠ invalidTs := fun hts => by
    have := hr.settled _ hlt hts
    have := Nat.mod_le m n
    omega
  obtain ⟨j, d, hj, hjret, hmod, hheld⟩ := hr.occupied_of_ts hlt hvalid
  have hjlt := lookup_lt hj
  have heq : (m : Int) = j := eq_of_emod_eq (n := n) (by omega) (by omega) (by omega)
  rw [Int.ofNat_inj.mp heq, hj] at hm
  cases hm
  rwa [Int.ofNat_inj.mp heq] at hheld ⊢

theorem exists_retained {j : Int} (hret : Retained n cs j) :
    ∃ (m : Nat) (c : Commit), j = m ∧ cs[m]? = some c ∧ cs.length ≤ m + n := by
  obtain ⟨h0, hlt, hle⟩ := hret
  obtain ⟨m, rfl⟩ := Int.eq_ofNat_of_zero_le h0
  exact ⟨m, _, rfl, List.getElem?_eq_getElem (by omega), by omega⟩

/-- The place that a jump comes to has a stamp if it is that of a retained commit. -/
theorem slotTs_ne_iff (hr : SettledRing db oid i n cs) {p : Nat} (hp : p < n) :
    slotTs db.heap (db.objmeta i) p ≠ invalidTs ↔
      ∃ (j : Nat) (c : Commit), cs[j]? = some c ∧ cs.length ≤ j + n ∧ p = j % n := by
  constructor
  · intro hvalid
    obtain ⟨j, c, hj, hret, hmod, -⟩ := hr.occupied_of_ts hp hvalid
    exact ⟨j, c, hj, hret, hmod⟩
  · rintro ⟨j, c, hj, hret, rfl⟩
    have hts : slotTs db.heap (db.objmeta i) (j % n : Nat) = c.stamp :=
      (hr.holds hj hret).read64_stamp
    rw [hts]
    exact hr.valid_of_lookup hj

end SettledRing

/-! ## The jump -/

/-- The call has delivered commit number `j`, and the cursor is there. -/
def JumpsTo (oid : ObjId) (i n : Nat) (cs : List Commit) (size : Int)
    (out : Result × ObjSlot × Mem) (j : Nat) : Prop :=
  ∃ realsize c, cs[j]? = some c ∧ out.1 = .ok realsize ∧
    Delivers realsize size out.2.2 out.2.1.committedTs c ∧ CursorAt oid i n cs out.2.1 j

/-- Commit number `j` lies at the place `offset` places on from commit number `k`, on the side
that the sign of the offset says. -/
def Reaches (n : Nat) (cs : List Commit) (k : Nat) (offset : Int) (j : Nat) : Prop :=
  Retained n cs j ∧ (j : Int) % n = (k + offset) % n ∧ (0 < offset → k ≤ j) ∧
    (offset < 0 → j ≤ k)

/-- A checked call at a place with a record on the right side of the cursor. -/
theorem CursorAt.readSlot_ok {j : Nat} {d : Commit} (hr : SettledRing db oid i n cs)
    (hc : CursorAt oid i n cs objslot k) (hret : cs.length ≤ k + n) (hj : cs[j]? = some d)
    (hreach : Reaches n cs k offset j) :
    readdataslotPtr db .checked offset objslot =
      (.ok ((db.objmeta i).slotAddr (j % n : Nat), (d.size : Int)),
        { objslot with historySlot := (j % n : Nat), committedTs := d.stamp }) := by
  rw [hc.read_eq hr.toRingHistory]
  obtain ⟨-, -, hslot, c, hk, hts⟩ := hc
  obtain ⟨hjret, hmod, hpos, hneg⟩ := hreach
  have hn := hr.block.pos
  have hlen : cs.length ≤ j + n := by
    have := hjret.2.2
    omega
  have hheld := hr.holds hj hlen
  have hplace : slotPos (db.objmeta i).historySize objslot.historySlot offset = (j % n : Nat) := by
    rw [hr.block.historySize, hslot, slotPos_eq_emod hn (Int.natCast_nonneg _), Int.natCast_emod,
      Int.natCast_emod, hmod, Int.emod_add_emod]
  have hcheck : checkSlots (slotTs db.heap (db.objmeta i) objslot.historySlot) d.stamp
      objslot.committedTs offset = none := by
    have hlast : slotTs db.heap (db.objmeta i) (k % n : Nat) = c.stamp :=
      (hr.holds hk hret).read64_stamp
    rw [hslot, hlast, hts, checkSlots_eq_none_iff]
    refine ⟨rfl, fun hlt => ?_, fun hlt => ?_⟩
    · exact (hr.stamp_le_iff hj hk).mpr (hneg hlt)
    · exact (hr.stamp_le_iff hk hj).mpr (hpos hlt)
  have hstamp : slotTs db.heap (db.objmeta i) (j % n : Nat) = d.stamp := hheld.read64_stamp
  have hok : readSlot db.heap (db.objmeta i) .checked offset objslot = _ :=
    readSlot_eq_ok hplace (by rw [hstamp]; exact hr.valid_of_lookup hj) fun _ => by
      rw [hstamp]
      exact hcheck
  rw [hok, hstamp]
  exact congrArg (fun s : Int => ((Except.ok ((db.objmeta i).slotAddr (j % n : Nat), s) :
    Except Err (Int × Int)), _)) hheld.read32_size

theorem CursorAt.readSlot_error (hr : SettledRing db oid i n cs)
    (hc : CursorAt oid i n cs objslot k)
    (hno : ∀ j, ¬ Reaches n cs k offset j) :
    ∃ e objslot', readdataslotPtr db .checked offset objslot = (.error e, objslot') := by
  rw [hc.read_eq hr.toRingHistory]
  have hn := hr.block.pos
  cases hread : readSlot db.heap (db.objmeta i) .checked offset objslot with
  | mk res o =>
      cases res with
      | error e => exact ⟨e, o, rfl⟩
      | ok r =>
          exfalso
          obtain ⟨-, -, hslot, c, hk, hts⟩ := hc
          have hn0 : (0 : Int) < n := by omega
          obtain ⟨p, hp⟩ := Int.eq_ofNat_of_zero_le (Int.emod_nonneg (k + offset)
            (show (n : Int) ≠ 0 by omega))
          have hplt : p < n := by
            have := Int.emod_lt_of_pos (k + offset) hn0
            omega
          have hplace : slotPos (db.objmeta i).historySize objslot.historySlot offset = p := by
            rw [hr.block.historySize, hslot, slotPos_eq_emod hn (Int.natCast_nonneg _),
              Int.natCast_emod, Int.emod_add_emod, hp]
          obtain ⟨hvalid, -, -, hcheck⟩ := KogmoRtdb.readSlot_ok hplace hread
          obtain ⟨j, d, hj, hjret, hmod⟩ := (hr.slotTs_ne_iff hplt).mp hvalid
          have hstamp : slotTs db.heap (db.objmeta i) p = d.stamp := by
            rw [hmod]
            exact (hr.holds hj hjret).read64_stamp
          obtain ⟨-, hneg, hpos⟩ := checkSlots_eq_none_iff.mp (hcheck rfl)
          rw [hstamp, hts] at hneg hpos
          have hjlt := lookup_lt hj
          refine hno j ⟨⟨by omega, by omega, by omega⟩, ?_, fun hlt => ?_, fun hlt => ?_⟩
          · rw [hp, hmod]
            exact (Int.natCast_emod ..).symm
          · exact (hr.stamp_le_iff hk hj).mp (hpos hlt)
          · exact (hr.stamp_le_iff hj hk).mp (hneg hlt)

theorem jump_cases (hr : SettledRing db oid i n cs) (hc : CursorAt oid i n cs objslot k)
    (hret : cs.length ≤ k + n) (offset : Int) (data : Mem) (size : Int) :
    (∃ j, Reaches n cs k offset j ∧
        JumpsTo oid i n cs size (readdataslotRelative db objslot offset data size) j) ∨
      (∀ j, ¬ Reaches n cs k offset j) ∧
        ∃ e, (readdataslotRelative db objslot offset data size).1 = .error e := by
  by_cases hex : ∃ j, Reaches n cs k offset j
  · obtain ⟨j, hreach⟩ := hex
    refine Or.inl ⟨j, hreach, ?_⟩
    obtain ⟨m, d, hm, hj, hjret⟩ := SettledRing.exists_retained hreach.1
    obtain rfl := Int.ofNat_inj.mp hm
    have hread := hc.readSlot_ok hr hret hj hreach
    have hc' : CursorAt oid i n cs
        { objslot with historySlot := (j % n : Nat), committedTs := d.stamp } j :=
      ⟨hc.1, hc.2.1, rfl, d, hj, rfl⟩
    have hstay : Reaches n cs j 0 j :=
      ⟨hreach.1, by rw [Int.add_zero], fun h => Nat.le_refl j, fun h => Nat.le_refl j⟩
    have hread' := hc'.readSlot_ok hr hjret hj hstay
    have hheld := hr.holds hj hjret
    have hsize : ¬ (d.size : Int) < 0 := by omega
    refine ⟨d.size, d, hj, ?_, ⟨rfl, ?_, fun b hb => ?_⟩, ?_⟩ <;>
      simp only [readdataslotRelative, hread, hread', if_neg hsize]
    · have hmin : (if (d.size : Int) < size then (d.size : Int) else size) =
          min (d.size : Int) size := by
        rw [Int.min_def]
        split <;> split <;> omega
      rw [hmin, Mem.copy_inside (Nat.zero_le b) (by omega), Nat.sub_zero, Nat.zero_add]
      exact hheld b (by omega)
    · exact hc'
  · have hno : ∀ j, ¬ Reaches n cs k offset j := fun j hj => hex ⟨j, hj⟩
    refine Or.inr ⟨hno, ?_⟩
    obtain ⟨e, o, hread⟩ := hc.readSlot_error hr hno
    exact ⟨e, by simp only [readdataslotRelative, hread]⟩

/-! ## Where it should come to -/

/-- The only commit that a jump can come to is the one that the offset leads to with whole
turns left out. -/
theorem reaches_iff {j : Nat} (hn : 0 < n) (hk : Retained n cs k) :
    Reaches n cs k offset j ↔
      Retained n cs (k + offset.tmod n) ∧ (j : Int) = k + offset.tmod n := by
  have hlow : -(n : Int) < offset.tmod n := Int.lt_tmod_of_pos offset (by omega)
  have hhigh : offset.tmod n < n := Int.tmod_lt_of_pos offset (by omega)
  have hplace : (k + offset) % n = (k + offset.tmod n) % n := by
    rw [Int.tmod_def, show (k : Int) + (offset - n * offset.tdiv n) =
      k + offset - n * offset.tdiv n by omega, Int.sub_mul_emod_self_left]
  have hsign : (0 ≤ offset → 0 ≤ offset.tmod n) ∧ (offset ≤ 0 → offset.tmod n ≤ 0) :=
    ⟨Int.tmod_nonneg n, fun h => by
      have := Int.tmod_nonneg (n : Int) (show 0 ≤ -offset by omega)
      rw [Int.neg_tmod] at this
      omega⟩
  rw [Reaches, hplace]
  constructor
  · rintro ⟨hj, hmod, hpos, hneg⟩
    have hkj := hk.2
    have hjk := hj.2
    have heq : (j : Int) = k + offset.tmod n := by
      rcases Int.lt_trichotomy offset 0 with hlt | rfl | hlt
      · have := hneg hlt
        have := hsign.2 (Int.le_of_lt hlt)
        exact eq_of_emod_eq hmod (by omega) (by omega)
      · rw [Int.zero_tmod] at hmod ⊢
        exact eq_of_emod_eq hmod (by omega) (by omega)
      · have := hpos hlt
        have := hsign.1 (Int.le_of_lt hlt)
        exact eq_of_emod_eq hmod (by omega) (by omega)
    exact ⟨heq ▸ hj, heq⟩
  · rintro ⟨hret, heq⟩
    rw [← heq] at hret ⊢
    exact ⟨hret, rfl, fun h => by have := hsign.1 (Int.le_of_lt h); omega,
      fun h => by have := hsign.2 (Int.le_of_lt h); omega⟩

/-- The jump comes to commit number `k + offset` if that is retained, and fails if not. -/
def Jumps (oid : ObjId) (i n : Nat) (cs : List Commit) (k : Nat) (offset size : Int)
    (out : Result × ObjSlot × Mem) : Prop :=
  (Retained n cs (k + offset) → ∃ j : Nat, (j : Int) = k + offset ∧
      JumpsTo oid i n cs size out j) ∧
    (¬ Retained n cs (k + offset) → ∃ e, out.1 = .error e)

/-- `kogmo_rtdb_obj_readdataslot_relative` does as it should but for offsets of a turn or more
that lead, whole turns left out, to a commit that is in the ring. -/
theorem slotJump_iff [Rounding] (he : EmptyRing db₀ oid i n) (hn : 2 ≤ n)
    (hrun : WriterRun oid i db₀ cs false db) (hc : CursorAt oid i n cs objslot k)
    (hk : Retained n cs k) :
    Jumps oid i n cs k offset size (readdataslotRelative db objslot offset data size) ↔
      offset.natAbs < n ∨ ¬ Retained n cs (k + offset.tmod n) := by
  have hr := (hrun.inv he).2 rfl
  have hkret : cs.length ≤ k + n := by
    have := hk.2.2
    omega
  have hshort : offset.natAbs < n → offset.tmod n = offset := fun h => by
    rcases Int.le_total 0 offset with hle | hle
    · exact Int.tmod_eq_of_lt hle (by omega)
    · have := Int.tmod_eq_of_lt (show 0 ≤ -offset by omega) (show -offset < n by omega)
      rw [Int.neg_tmod] at this
      omega
  have hfar : ¬ offset.natAbs < n → ¬ Retained n cs (k + offset) := fun h hret => by
    have h1 := hk.2
    have h2 := hret.2
    omega
  rcases jump_cases hr hc hkret offset data size with ⟨j, hreach, hjumps⟩ | ⟨hno, e, herr⟩
  · obtain ⟨hret, heq⟩ := (reaches_iff (by omega) hk).mp hreach
    have hok : ∀ e, (readdataslotRelative db objslot offset data size).1 ≠ .error e := by
      obtain ⟨realsize, c, -, hok, -⟩ := hjumps
      intro e
      rw [hok]
      exact fun h => by cases h
    constructor
    · intro hspec
      by_contra hcond
      obtain ⟨e, herr⟩ := hspec.2 (hfar fun h => hcond (Or.inl h))
      exact hok e herr
    · rintro (hlt | hnot)
      · rw [hshort hlt] at hret heq
        exact ⟨fun _ => ⟨j, heq, hjumps⟩, fun h => absurd hret h⟩
      · exact absurd hret hnot
  · have hnot : ¬ Retained n cs (k + offset.tmod n) := fun hret => by
      obtain ⟨j, c, hj, -⟩ := SettledRing.exists_retained hret
      exact hno j ((reaches_iff (by omega) hk).mpr ⟨hret, hj.symm⟩)
    refine ⟨fun _ => Or.inr hnot, fun _ => ⟨fun hret => ?_, fun _ => ⟨e, herr⟩⟩⟩
    by_cases hlt : offset.natAbs < n
    · rw [hshort hlt] at hnot
      exact absurd hret hnot
    · exact absurd hret (hfar hlt)

theorem historyWrite_writerRun {cs : List Commit} {db : Db} (ts : Timestamp)
    (hrun : WriterRun 5 0 historyDb cs false db) (hok : (historyWrite db ts).ret.isOk = true)
    (hsize : 24 ≤ slotSize (historyWrite db ts).db.heap (db.objmeta 0) (db.objmeta 0).next)
    (hts : slotTs (historyWrite db ts).db.heap (db.objmeta 0) (db.objmeta 0).next = ts)
    (hvalid : ts ≠ invalidTs) (hlater : ∀ c ∈ cs, c.stamp.toInt < ts.toInt) :
    ∃ c, WriterRun 5 0 historyDb (cs ++ [c]) false (historyWrite db ts).db ∧ c.stamp = ts := by
  obtain ⟨c, hc⟩ : ∃ c, slotCommit (historyWrite db ts).db.heap (db.objmeta 0)
      (db.objmeta 0).next = some c := ⟨_, dif_pos hsize⟩
  have hstamp : c.stamp = ts := (slotCommit_some hc).1.trans hts
  have hop : (WriterOp.writedata historyRecord ts).run ⟨1, false⟩ 5 db =
      some ((historyWrite db ts).db, true) := by
    have hret : (writedata db ⟨1, false⟩ 5 historyRecord ts).ret.isOk = true := hok
    simp only [WriterOp.run, hret, historyWrite]
  have hcont : Continues cs c := by
    unfold Continues
    rw [hstamp]
    exact ⟨hvalid, hlater⟩
  exact ⟨c, .commit hrun hop hc hcont, hstamp⟩

theorem wrappedDb_writerRun :
    ∃ c₁ c₂ c₃, WriterRun 5 0 historyDb [c₁, c₂, c₃] false wrappedDb ∧ c₂.stamp = 0x100000007 := by
  obtain ⟨c₁, hrun₁, h₁⟩ := historyWrite_writerRun 0x100000005 .nil (by decide +kernel)
    (by decide +kernel) (by decide +kernel) (by decide) fun _ h => by cases h
  obtain ⟨c₂, hrun₂, h₂⟩ := historyWrite_writerRun 0x100000007 hrun₁ (by decide +kernel)
    (by decide +kernel) (by decide +kernel) (by decide) fun c hc => by
      rw [List.mem_singleton.mp hc, h₁]
      decide
  obtain ⟨c₃, hrun₃, h₃⟩ := historyWrite_writerRun 0x100000009 hrun₂ (by decide +kernel)
    (by decide +kernel) (by decide +kernel) (by decide) fun c hc => by
      rcases List.mem_cons.mp hc with rfl | hc
      · rw [h₁]
        decide
      · rw [List.mem_singleton.mp hc, h₂]
        decide
  exact ⟨c₁, c₂, c₃, hrun₃, h₂⟩

/-- From the older of the two commits left in the ring one step forward, to the newer one. -/
theorem slotJump_iff_wrapped :
    ∃ c₁ c₂ c₃, WriterRun 5 0 historyDb [c₁, c₂, c₃] false wrappedDb ∧
      JumpsTo 5 0 2 [c₁, c₂, c₃] 32
        (readdataslotRelative wrappedDb ⟨5, 0x100000007, 0, 1⟩ 1 .zero 32) 2 := by
  obtain ⟨c₁, c₂, c₃, hrun, hstamp⟩ := wrappedDb_writerRun
  have hretained : ∀ j : Int, 1 ≤ j ∧ j < 3 → Retained 2 [c₁, c₂, c₃] j := fun j hj => by
    unfold Retained
    simp only [List.length_cons, List.length_nil]
    omega
  have hcursor : CursorAt 5 0 2 [c₁, c₂, c₃] ⟨5, 0x100000007, 0, 1⟩ 1 :=
    ⟨rfl, rfl, rfl, c₂, rfl, hstamp.symm⟩
  have hlands : Jumps 5 0 2 [c₁, c₂, c₃] 1 1 32
      (readdataslotRelative wrappedDb ⟨5, 0x100000007, 0, 1⟩ 1 .zero 32) :=
    (slotJump_iff historyDb_emptyRing (Nat.le_refl 2) hrun hcursor
      (hretained 1 (by decide))).mpr (Or.inl (by decide))
  obtain ⟨j, hj, hjumps⟩ := hlands.1 (hretained _ (by decide))
  obtain rfl : j = 2 := by omega
  exact ⟨c₁, c₂, c₃, hrun, hjumps⟩

/-- The object of `historyDb` after its first commit. -/
def jumpDb : Db := (historyWrite historyDb 0x100000005).db

def jumpSlot : ObjSlot := ⟨5, 0x100000005, 0, 0⟩

/-- Two steps forward from the only commit of a ring of two come to that commit again. -/
theorem exists_not_jumps :
    ∃ c, WriterRun 5 0 historyDb [c] false jumpDb ∧ CursorAt 5 0 2 [c] jumpSlot 0 ∧
      Retained 2 [c] 0 ∧
      ¬ Jumps 5 0 2 [c] 0 2 32 (readdataslotRelative jumpDb jumpSlot 2 .zero 32) := by
  obtain ⟨c, hrun, hstamp⟩ := historyWrite_writerRun 0x100000005 .nil (by decide +kernel)
    (by decide +kernel) (by decide +kernel) (by decide) fun _ h => by cases h
  refine ⟨c, hrun, ⟨rfl, rfl, rfl, c, rfl, hstamp.symm⟩,
    ⟨Int.le_refl 0, Int.zero_lt_one, Int.le.intro 1 rfl⟩, fun hspec => ?_⟩
  have hout : ¬ Retained 2 [c] (((0 : Nat) : Int) + 2) := fun h => absurd h.2.1 (Int.not_lt.mpr
    (Int.le.intro 1 rfl))
  obtain ⟨e, herr⟩ := hspec.2 hout
  have hok : (readdataslotRelative jumpDb jumpSlot 2 .zero 32).1 = .ok 32 := by decide +kernel
  rw [hok] at herr
  cases herr

end KogmoRtdb
