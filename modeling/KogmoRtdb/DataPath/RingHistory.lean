import KogmoRtdb.Lib.Ring
import KogmoRtdb.DataPath.Writer

/-!
# The ring and the commits so far

One writer commits to one object with increasing stamps. `RingHistory` says what the slots
of the ring hold, commit number `m` (from the oldest on) being in slot `m % n`. The slot
that comes next may be in preparation.
-/

namespace KogmoRtdb

/-- Slot `i` holds an object with a block of `n` slots, in which no record has been
stored. -/
structure EmptyRing (db : Db) (oid : ObjId) (i n : Nat) : Prop where
  found : db.findmetaById oid = some i
  block : Block (db.objmeta i) n
  slot : (db.objmeta i).historySlot = -1
  empty : ∀ k < n, slotTs db.heap (db.objmeta i) k = invalidTs

/-- The slot has no stamp: it has not been written, or is the next one. -/
def Vacated (heap : Heap) (info : ObjInfo) (n : Nat) (cs : List Commit) (k : Nat) : Prop :=
  slotTs heap info k = invalidTs ∧ (cs.length ≤ k ∨ k = cs.length % n)

/-- The slot holds one of the last `n` commits. -/
def Occupied (heap : Heap) (info : ObjInfo) (n : Nat) (cs : List Commit) (k : Nat) : Prop :=
  ∃ m c, cs[m]? = some c ∧ cs.length ≤ m + n ∧ k = m % n ∧ HoldsRecord (slotWindow heap info k) c

/-- The ring after the commits `cs`, oldest first. -/
structure RingHistory (db : Db) (oid : ObjId) (i n : Nat) (cs : List Commit) : Prop where
  found : db.findmetaById oid = some i
  block : Block (db.objmeta i) n
  latest : (db.objmeta i).historySlot = lastSlot n cs
  slots : ∀ k < n, Vacated db.heap (db.objmeta i) n cs k ∨ Occupied db.heap (db.objmeta i) n cs k
  size : ∀ c ∈ cs, (c.size : Int) ≤ (db.objmeta i).sizeMax
  valid : ∀ c ∈ cs, c.stamp ≠ invalidTs
  sorted : cs.Pairwise fun c c' => c.stamp.toInt < c'.stamp.toInt

variable {db db' : Db} {h : Handle} {oid : ObjId} {i n k m j : Nat} {cs : List Commit}
  {c d : Commit} {info : ObjInfo} {heap heap' : Heap}

theorem EmptyRing.history (he : EmptyRing db oid i n) : RingHistory db oid i n [] where
  found := he.found
  block := he.block
  latest := he.slot
  slots k hk := Or.inl ⟨he.empty k hk, Or.inl (Nat.zero_le _)⟩
  size _ hc := absurd hc List.not_mem_nil
  valid _ hc := absurd hc List.not_mem_nil
  sorted := .nil

/-! ## Commits by number -/

theorem lookup_append (hm : cs[m]? = some c) : (cs ++ [d])[m]? = some c := by
  obtain ⟨hlt, -⟩ := List.getElem?_eq_some_iff.mp hm
  rwa [List.getElem?_append_left hlt]

theorem lookup_last : (cs ++ [d])[cs.length]? = some d := List.getElem?_concat_length

theorem lookup_lt (hm : cs[m]? = some c) : m < cs.length :=
  (List.getElem?_eq_some_iff.mp hm).1

namespace RingHistory

theorem stamp_lt (hr : RingHistory db oid i n cs) (hm : cs[m]? = some c) (hj : cs[j]? = some d)
    (hlt : m < j) : c.stamp.toInt < d.stamp.toInt := by
  obtain ⟨h1, rfl⟩ := List.getElem?_eq_some_iff.mp hm
  obtain ⟨h2, rfl⟩ := List.getElem?_eq_some_iff.mp hj
  exact List.pairwise_iff_getElem.mp hr.sorted m j h1 h2 hlt

theorem eq_of_stamp (hr : RingHistory db oid i n cs) (hm : cs[m]? = some c)
    (hj : cs[j]? = some d) (hstamp : c.stamp = d.stamp) : m = j := by
  rcases Nat.lt_trichotomy m j with hlt | heq | hlt
  · have := hr.stamp_lt hm hj hlt
    rw [hstamp] at this
    exact absurd this (Int.lt_irrefl _)
  · exact heq
  · have := hr.stamp_lt hj hm hlt
    rw [hstamp] at this
    exact absurd this (Int.lt_irrefl _)

theorem valid_of_lookup (hr : RingHistory db oid i n cs) (hm : cs[m]? = some c) :
    c.stamp ≠ invalidTs := hr.valid c (List.mem_of_getElem? hm)

theorem next_eq (hr : RingHistory db oid i n cs) :
    (db.objmeta i).next = (cs.length % n : Nat) := by
  rw [ObjInfo.next, hr.block.historySize, hr.latest, nextSlot_lastSlot]

/-- A slot with a stamp holds a commit with that stamp. -/
theorem occupied_of_ts (hr : RingHistory db oid i n cs) (hk : k < n)
    (hts : slotTs db.heap (db.objmeta i) k ≠ invalidTs) :
    Occupied db.heap (db.objmeta i) n cs k := by
  rcases hr.slots k hk with hv | ho
  · exact absurd hv.1 hts
  · exact ho

/-- While a slot carries a commit's stamp, the commit is among the last `n`, and the slot
holds its record. -/
theorem holds_of_ts (hr : RingHistory db oid i n cs) (hm : cs[m]? = some c)
    (hts : slotTs db.heap (db.objmeta i) (m % n : Nat) = c.stamp) :
    cs.length ≤ m + n ∧ HoldsRecord (slotWindow db.heap (db.objmeta i) (m % n : Nat)) c := by
  have hvalid : slotTs db.heap (db.objmeta i) (m % n : Nat) ≠ invalidTs := by
    rw [hts]
    exact hr.valid_of_lookup hm
  obtain ⟨j, d, hj, hlen, -, hheld⟩ := hr.occupied_of_ts (Nat.mod_lt m hr.block.pos) hvalid
  have hstamp : d.stamp = c.stamp := hheld.read64_stamp.symm.trans hts
  obtain rfl := hr.eq_of_stamp hj hm hstamp
  rw [hj] at hm
  cases hm
  exact ⟨hlen, hheld⟩

theorem latest_holds (hr : RingHistory db oid i n cs) (hn : 2 ≤ n) (hm : cs[m]? = some c)
    (hlast : m + 1 = cs.length) :
    (db.objmeta i).historySlot = (m % n : Nat) ∧
      HoldsRecord (slotWindow db.heap (db.objmeta i) (m % n : Nat)) c := by
  have hslot : (db.objmeta i).historySlot = (m % n : Nat) := by
    rw [hr.latest]
    cases cs with
    | nil => cases hm
    | cons c' cs' =>
        rw [List.length_cons] at hlast
        rw [lastSlot, Nat.succ.inj hlast]
  refine ⟨hslot, ?_⟩
  have hlt := Nat.mod_lt m hr.block.pos
  rcases hr.slots (m % n) hlt with ⟨-, hv⟩ | ⟨j, d, hj, hlen, heq, hheld⟩
  · exfalso
    rcases hv with hle | heq
    · have := Nat.mod_le m n
      omega
    · exact Ring.mod_ne_of_lt (show m < cs.length by omega) (by omega) heq
  · have hjlt := lookup_lt hj
    have hjm : j = m := by
      by_contra hne
      exact Ring.mod_ne_of_lt (a := j) (b := m) (n := n) (by omega) (by omega) heq.symm
    rw [hjm, hm] at hj
    cases hj
    exact hheld

end RingHistory

/-! ## The writer's steps -/

/-- A commit that goes on with the history: it has a stamp, and a later one than the
others. -/
def Continues (cs : List Commit) (c : Commit) : Prop :=
  c.stamp ≠ invalidTs ∧ ∀ d ∈ cs, d.stamp.toInt < c.stamp.toInt

instance : Decidable (Continues cs c) := by
  unfold Continues
  infer_instance

theorem HoldsRecord.congr {w w' : Mem} (hh : HoldsRecord w c)
    (hsame : ∀ b < c.size, w' b = w b) : HoldsRecord w' c :=
  fun b hb => (hsame b hb).trans (hh b hb)

theorem Vacated.congr (hv : Vacated heap info n cs k)
    (hts : slotTs heap' info k = slotTs heap info k) : Vacated heap' info n cs k :=
  ⟨hts.trans hv.1, hv.2⟩

theorem Occupied.congr (ho : Occupied heap info n cs k) (hsize : ∀ c ∈ cs, c.size ≤ info.sizeMax)
    (hsame : ∀ b : Nat, (b : Int) < info.sizeMax →
      slotWindow heap' info k b = slotWindow heap info k b) : Occupied heap' info n cs k := by
  obtain ⟨m, c, hm, hlen, hk, hheld⟩ := ho
  refine ⟨m, c, hm, hlen, hk, hheld.congr fun b hb => hsame b ?_⟩
  have := hsize c (List.mem_of_getElem? hm)
  omega

namespace RingHistory

/-- The slots of the ring that a writer's step leaves alone. -/
theorem window_eq (hr : RingHistory db oid i n cs) (hs : SameElsewhere db i db') (hk : k < n)
    (hne : k ≠ cs.length % n) {b : Nat} (hb : (b : Int) < (db.objmeta i).sizeMax) :
    slotWindow db'.heap (db.objmeta i) k b = slotWindow db.heap (db.objmeta i) k b := by
  refine hs.window_of_ne hr.block ⟨Int.natCast_nonneg k, ?_⟩ ?_ hb
  · rw [hr.block.historySize]
    exact Int.ofNat_lt.mpr hk
  · rw [hr.next_eq]
    exact fun h => hne (Int.ofNat_inj.mp h)

theorem ts_eq (hr : RingHistory db oid i n cs) (hs : SameElsewhere db i db') (hk : k < n)
    (hne : k ≠ cs.length % n) :
    slotTs db'.heap (db.objmeta i) k = slotTs db.heap (db.objmeta i) k :=
  slotTs_congr hr.block.sizeMin fun _ hb => hr.window_eq hs hk hne hb

theorem prepares (hr : RingHistory db oid i n cs) (hp : Prepares db i db') :
    RingHistory db' oid i n cs := by
  have hs := hp.elsewhere hr.block.sizeMin
  have hfound : db'.findmetaById oid = some i :=
    (Db.findmetaById_congr fun j => by rw [hp.objmeta]).trans hr.found
  refine ⟨hfound, ?_, ?_, ?_, ?_, hr.valid, hr.sorted⟩ <;> rw [hp.objmeta]
  · exact hr.block
  · exact hr.latest
  · intro k hk
    by_cases hkn : k = cs.length % n
    · refine Or.inl ⟨?_, Or.inr hkn⟩
      rw [hkn, ← hr.next_eq]
      exact hp.ts
    · rcases hr.slots k hk with hv | ho
      · exact Or.inl (hv.congr (hr.ts_eq hs hk hkn))
      · exact Or.inr (ho.congr hr.size fun b hb => hr.window_eq hs hk hkn hb)
  · exact hr.size

theorem stores {ts : Timestamp} (hr : RingHistory db oid i n cs) (hst : Stores db i ts db')
    (hc : slotCommit db'.heap (db.objmeta i) (db.objmeta i).next = some c)
    (hcont : Continues cs c) : RingHistory db' oid i n (cs ++ [c]) := by
  have hinfo : db'.objmeta i = { db.objmeta i with historySlot := (db.objmeta i).next } := by
    rw [hst.objmeta, Function.update_self]
  have hfound : db'.findmetaById oid = some i := by
    refine (Db.findmetaById_congr fun j => ?_).trans hr.found
    rw [hst.objmeta]
    by_cases hj : j = i
    · rw [hj, Function.update_self]
    · rw [Function.update_of_ne hj]
  obtain ⟨hstamp, hsize, hbytes⟩ := slotCommit_some hc
  have hlen : (cs ++ [c]).length = cs.length + 1 := by rw [List.length_append]; rfl
  have hn := hr.block.pos
  refine ⟨hfound, ?_, ?_, fun k hk => ?_, ?_, ?_, ?_⟩
  · rw [hinfo]
    exact ⟨hr.block.historySize, hn, hr.block.sizeMin, hr.block.idx, hr.block.bound⟩
  · rw [hinfo]
    show (db.objmeta i).next = _
    rw [hr.next_eq]
    cases cs with
    | nil => rfl
    | cons d ds =>
        rw [List.cons_append, lastSlot, List.length_append]
        rfl
  · rw [hinfo]
    show Vacated db'.heap (db.objmeta i) n (cs ++ [c]) k ∨
      Occupied db'.heap (db.objmeta i) n (cs ++ [c]) k
    by_cases hkn : k = cs.length % n
    · refine Or.inr ⟨cs.length, c, lookup_last, by omega, hkn, ?_⟩
      intro b hb
      rw [hkn, ← hr.next_eq, hbytes]
    · rcases hr.slots k hk with ⟨hts, hv⟩ | ho
      · refine Or.inl ⟨(hr.ts_eq hst.elsewhere hk hkn).trans hts, Or.inl ?_⟩
        rcases hv with hle | heq
        · have hne : cs.length ≠ k := by
            rintro rfl
            exact hkn (Nat.mod_eq_of_lt hk).symm
          omega
        · exact absurd heq hkn
      · obtain ⟨m, d, hm, hle, hkm, hheld⟩ :=
          ho.congr hr.size fun b hb => hr.window_eq hst.elsewhere hk hkn hb
        refine Or.inr ⟨m, d, lookup_append hm, ?_, hkm, hheld⟩
        -- a commit that was about to drop out has been in the slot just written
        have hne : cs.length ≠ m + n := fun heq => hkn (by rw [hkm, Ring.mod_eq_of_add heq])
        omega
  · rw [hinfo]
    intro d hd
    rcases List.mem_append.mp hd with hd | hd
    · exact hr.size d hd
    · rw [List.mem_singleton.mp hd, hsize]
      exact hst.sizeMax
  · intro d hd
    rcases List.mem_append.mp hd with hd | hd
    · exact hr.valid d hd
    · rw [List.mem_singleton.mp hd]
      exact hcont.1
  · refine List.pairwise_append.mpr ⟨hr.sorted, List.pairwise_singleton .., ?_⟩
    intro d hd e he
    rw [List.mem_singleton.mp he]
    exact hcont.2 d hd

/-- A slot that carries a commit's stamp after the step has carried it before. -/
theorem ts_of_prepares (hr : RingHistory db oid i n cs) (hp : Prepares db i db')
    (hm : cs[m]? = some c)
    (hts : slotTs db'.heap (db.objmeta i) (m % n : Nat) = c.stamp) :
    slotTs db.heap (db.objmeta i) (m % n : Nat) = c.stamp := by
  have hlt := Nat.mod_lt m hr.block.pos
  by_cases hkn : m % n = cs.length % n
  · rw [hkn, ← hr.next_eq, hp.ts] at hts
    exact absurd hts.symm (hr.valid_of_lookup hm)
  · rw [← hr.ts_eq (hp.elsewhere hr.block.sizeMin) hlt hkn]
    exact hts

theorem ts_of_stores {ts : Timestamp} (hr : RingHistory db oid i n cs) (hst : Stores db i ts db')
    (hd : slotCommit db'.heap (db.objmeta i) (db.objmeta i).next = some d)
    (hcont : Continues cs d) (hm : cs[m]? = some c)
    (hts : slotTs db'.heap (db.objmeta i) (m % n : Nat) = c.stamp) :
    slotTs db.heap (db.objmeta i) (m % n : Nat) = c.stamp := by
  have hlt := Nat.mod_lt m hr.block.pos
  by_cases hkn : m % n = cs.length % n
  · rw [hkn, ← hr.next_eq, ← (slotCommit_some hd).1] at hts
    have hlater := hcont.2 c (List.mem_of_getElem? hm)
    rw [hts] at hlater
    exact absurd hlater (Int.lt_irrefl _)
  · rw [← hr.ts_eq hst.elsewhere hlt hkn]
    exact hts

end RingHistory

end KogmoRtdb
