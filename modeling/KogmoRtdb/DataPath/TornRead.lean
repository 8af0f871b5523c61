import KogmoRtdb.DataPath.WordModel

/-!
# Torn reads

What a reader of the lock-free data path may hand to its caller. The design
compares the stamp read before the copy (`scan_ts`) with the stamp read
after it (`final_ts`); `tornFree_of_guarded` shows that this is enough in
every run in which no reader loads a zero word of a slot's stamp into
`scan_ts`. The reader never makes that test, and `exists_tornRead` runs into
the gap: a slot that is invalidated between `histscan`'s test and the copy of
the stamp gives `scan_ts == 0`, and the same zero is found again after the
copy.

The invariant follows one slot through the stamps it carries. `Tracks s k c`
says that slot `k` belonged to commit `c` at some time and has since only
moved on to later stamps; `Here s k c` that it still holds `c`, whose record is
then intact. What a reader knows about its buffer it knows under `Here`, and
the final comparison of both stamp words turns that into a fact.
-/

namespace KogmoRtdb.WordModel

variable {cfg : Cfg} {s s' : State} {k : Nat} {c : Commit} {t : Txn}

/-! ## What is claimed -/

/-- The buffer holds a prefix of one record of the log: its bytes up to the
caller's size, its stamp in `committed_ts`, and the copied length in `size`. -/
def Delivered (s : State) (size : Nat) (buf : Mem) : Prop :=
  ∃ c ∈ s.log, buf.read64 0 = c.stamp ∧
    buf.read32 20 = BitVec.ofNat 32 (min c.size size) ∧
    ∀ b < min c.size size, ¬ (20 ≤ b ∧ b < 24) → buf b = c.bytes b

/-- Every read that answered with a size delivered a single completed commit. -/
def TornFree (s : State) : Prop :=
  ∀ r n buf, (s.readers r).pc = .done (.ok n) buf → 0 ≤ n →
    Delivered s (s.readers r).size buf

/-! ## The state of a slot -/

/-- Low word of the stamp in slot `k`. -/
def State.lo (s : State) (k : Nat) : BitVec 32 := (s.ring k).read32 0

/-- High word of the stamp in slot `k`. -/
def State.hi (s : State) (k : Nat) : BitVec 32 := (s.ring k).read32 4

/-- The memory holds the record of `c`, its stamp aside. -/
def Intact (m : Mem) (c : Commit) : Prop := ∀ b, 8 ≤ b → b < c.size → m b = c.bytes b

/-- Slot `k` belonged to `c`, and has since only moved on to later commits. -/
def Tracks (s : State) (k : Nat) (c : Commit) : Prop :=
  ∃ c', s.cur k = some c' ∧ (c' = c ∨ c.stamp.toInt < c'.stamp.toInt ∧ c ∈ s.log)

/-- Slot `k` holds the record of `c`. -/
def Here (s : State) (k : Nat) (c : Commit) : Prop := s.cur k = some c ∧ s.lo k ≠ 0

/-- A nonzero stamp word is a word of the slot's current commit; with the low
word in place, so is the record. -/
structure SlotInv (s : State) (k : Nat) : Prop where
  hi : s.hi k ≠ 0 → ∃ c ∈ s.log, s.cur k = some c ∧ s.hi k = hiWord c.stamp
  lo : s.lo k ≠ 0 → ∃ c, s.cur k = some c ∧ s.lo k = loWord c.stamp ∧ Intact (s.ring k) c

/-- Slot `t.slot` is invalid and its first `n` bytes are those of `m`. -/
structure Filling (s : State) (t : Txn) (m : Mem) (n : Nat) : Prop where
  hi : s.hi t.slot = 0
  lo : s.lo t.slot = 0
  bytes : ∀ b, 8 ≤ b → b < n → b < t.size → s.ring t.slot b = m b

/-- What has been stored when the writer is about to take a phase. -/
def PhaseInv (s : State) (t : Txn) : Phase → Prop
  | .invHigh | .publish => True
  | .invLow => s.hi t.slot = 0
  | .copy i => Filling s t t.src (4 * i)
  | .dataTest => Filling s t t.src t.size
  | .dataLow => Filling s t t.src t.size ∧ t.src.read64 12 = invalidTs
  | .dataHigh =>
      Filling s t (t.src.write32 12 (loWord t.stamp)) t.size ∧ t.src.read64 12 = invalidTs
  | .valLow => Filling s t (defaultDataTs t.src t.stamp) t.size
  | .valHigh => s.cur t.slot = some t.commit ∧ s.lo t.slot = loWord t.stamp

theorem Filling.congr (hring : s'.ring = s.ring) {m : Mem} {n : Nat}
    (h : Filling s t m n) : Filling s' t m n :=
  ⟨by rw [State.hi, hring]; exact h.hi, by rw [State.lo, hring]; exact h.lo,
    by rw [hring]; exact h.bytes⟩

theorem PhaseInv.congr (hring : s'.ring = s.ring) (hcur : s'.cur = s.cur) {ph : Phase}
    (h : PhaseInv s t ph) : PhaseInv s' t ph := by
  cases ph with
  | invHigh => trivial
  | publish => trivial
  | invLow => simpa only [PhaseInv, State.hi, hring] using h
  | copy i => exact Filling.congr hring h
  | dataTest => exact Filling.congr hring h
  | dataLow => exact ⟨h.1.congr hring, h.2⟩
  | dataHigh => exact ⟨h.1.congr hring, h.2⟩
  | valLow => exact Filling.congr hring h
  | valHigh => simpa only [PhaseInv, State.lo, hring, hcur] using h

structure SharedInv (s : State) : Prop where
  slot : ∀ k, SlotInv s k
  cur : ∀ k c, s.cur k = some c → c ∈ s.log ∨
    ∃ t, s.writer = some (t, .valHigh) ∧ t.slot = k ∧ t.commit = c
  phase : ∀ t ph, s.writer = some (t, ph) → PhaseInv s t ph
  later : ∀ t ph, s.writer = some (t, ph) → ph ≠ .publish →
    ∀ c ∈ s.log, c.stamp.toInt < t.stamp.toInt

/-! ## How the shared state may move under a reader -/

/-- The log grows, slots move on to later commits, and a slot that has moved on
does not come back. -/
structure Evolves (s s' : State) : Prop where
  log : ∀ c ∈ s.log, c ∈ s'.log
  tracks : ∀ k c, Tracks s k c → Tracks s' k c
  here : ∀ k c, Tracks s k c → Here s' k c → Here s k c

/-- A step that neither commits nor makes a cleared low word nonzero. -/
theorem Evolves.of_cur_eq (hlog : ∀ c ∈ s.log, c ∈ s'.log) (hcur : s'.cur = s.cur)
    (hlo : ∀ k, s'.lo k ≠ 0 → s.lo k ≠ 0) : Evolves s s' where
  log := hlog
  tracks := by
    rintro k c ⟨c', hc', h⟩
    refine ⟨c', by rw [hcur, hc'], ?_⟩
    rcases h with rfl | ⟨hlt, hmem⟩
    · exact Or.inl rfl
    · exact Or.inr ⟨hlt, hlog _ hmem⟩
  here := fun k c _ ⟨hc, hl⟩ => ⟨by rw [← hcur, hc], hlo k hl⟩

theorem SlotInv.congr (hring : s'.ring k = s.ring k) (hcur : s'.cur k = s.cur k)
    (hlog : ∀ c ∈ s.log, c ∈ s'.log) (h : SlotInv s k) : SlotInv s' k where
  hi hne := by
    simp only [State.hi, hring] at hne ⊢
    obtain ⟨c, hmem, hc, hw⟩ := h.hi hne
    exact ⟨c, hlog c hmem, by rw [hcur, hc], hw⟩
  lo hne := by
    simp only [State.lo, hring] at hne ⊢
    obtain ⟨c, hc, hw, hb⟩ := h.lo hne
    exact ⟨c, by rw [hcur, hc], hw, hb⟩

theorem SlotInv.of_invalid (hhi : s.hi k = 0) (hlo : s.lo k = 0) : SlotInv s k where
  hi hne := absurd hhi hne
  lo hne := absurd hlo hne

/-! ## Projections of the state updates -/

@[simp] theorem setSlot_ring_self (s : State) (k : Nat) (m : Mem) :
    (s.setSlot k m).ring k = m := Function.update_self ..

theorem setSlot_ring_ne (s : State) (m : Mem) {k j : Nat} (h : j ≠ k) :
    (s.setSlot k m).ring j = s.ring j := Function.update_of_ne h ..

@[simp] theorem setSlot_cur (s : State) (k : Nat) (m : Mem) :
    (s.setSlot k m).cur = s.cur := rfl

@[simp] theorem setSlot_log (s : State) (k : Nat) (m : Mem) :
    (s.setSlot k m).log = s.log := rfl

@[simp] theorem setPhase_ring (s : State) (t : Txn) (p : Phase) :
    (s.setPhase t p).ring = s.ring := rfl

@[simp] theorem setPhase_cur (s : State) (t : Txn) (p : Phase) :
    (s.setPhase t p).cur = s.cur := rfl

@[simp] theorem setPhase_log (s : State) (t : Txn) (p : Phase) :
    (s.setPhase t p).log = s.log := rfl

@[simp] theorem setPhase_writer (s : State) (t : Txn) (p : Phase) :
    (s.setPhase t p).writer = some (t, p) := rfl

/-! ## Stores of the writer

Each phase stores one word of its slot; the lemmas below say what the store
leaves of the slot, and the phase lemmas assemble the invariant from them. -/

theorem Txn.src_words (t : Txn) : t.src.read32 0 = 0 ∧ t.src.read32 4 = 0 := by
  have h := t.src_invalid
  rw [Mem.read64] at h
  exact ⟨by rw [← loWord_ofWords (t.src.read32 4) (t.src.read32 0), h]; rfl,
    by rw [← hiWord_ofWords (t.src.read32 4) (t.src.read32 0), h]; rfl⟩

theorem copyWord_outside {dst src : Mem} {n i b : Nat} (h : b < 4 * i ∨ 4 * i + 4 ≤ b) :
    copyWord dst src n i b = dst b :=
  Mem.copy_outside (by omega)

theorem copyWord_inside {dst src : Mem} {n i b : Nat} (h1 : 4 * i ≤ b) (h2 : b < 4 * i + 4)
    (h3 : b < n) : copyWord dst src n i b = src b := by
  rw [copyWord, Mem.copy_inside h1 (by omega)]
  congr 1
  omega

theorem copyWord_progress {dst src : Mem} {n i : Nat} {P : Nat → Prop}
    (h : ∀ b, P b → b < 4 * i → b < n → dst b = src b) :
    ∀ b, P b → b < 4 * (i + 1) → b < n → copyWord dst src n i b = src b := by
  intro b hP hb hn
  by_cases hlt : b < 4 * i
  · rw [copyWord_outside (Or.inl hlt)]
    exact h b hP hlt hn
  · exact copyWord_inside (by omega) (by omega) hn

/-- Copying the source over an invalid slot keeps it invalid: the source's own
stamp is zero. -/
theorem copyWord_stamp {m : Mem} (t : Txn) {i : Nat} (hlo : m.read32 0 = 0)
    (hhi : m.read32 4 = 0) :
    (copyWord m t.src t.size i).read32 0 = 0 ∧ (copyWord m t.src t.size i).read32 4 = 0 := by
  have h24 := t.size_min
  obtain ⟨hs0, hs4⟩ := t.src_words
  match i with
  | 0 =>
      refine ⟨?_, ?_⟩
      · rw [copyWord, Mem.read32_copy_inside (by omega) (by omega)]
        exact hs0
      · rw [copyWord, Mem.read32_copy_outside (by omega), hhi]
  | 1 =>
      refine ⟨?_, ?_⟩
      · rw [copyWord, Mem.read32_copy_outside (by omega), hlo]
      · rw [copyWord, Mem.read32_copy_inside (by omega) (by omega)]
        exact hs4
  | j + 2 =>
      refine ⟨?_, ?_⟩
      · rw [copyWord, Mem.read32_copy_outside (by omega), hlo]
      · rw [copyWord, Mem.read32_copy_outside (by omega), hhi]

@[simp] theorem Txn.commit_stamp (t : Txn) : t.commit.stamp = t.stamp := rfl

/-- The record of a transaction, stamp aside, is its source with `data_ts`
defaulted. -/
theorem Txn.commit_bytes (t : Txn) {b : Nat} (h : 8 ≤ b) :
    t.commit.bytes b = defaultDataTs t.src t.stamp b :=
  Mem.write64_outside (by omega)

theorem SharedInv.cur_mem (h : SharedInv s) {ph : Phase} (hw : s.writer = some (t, ph))
    (hph : ph ≠ .valHigh) (hc : s.cur k = some c) : c ∈ s.log := by
  rcases h.cur k c hc with hmem | ⟨t', ht', _⟩
  · exact hmem
  · rw [hw] at ht'
    cases ht'
    exact absurd rfl hph

/-- A store to the writer's slot that leaves `cur` and `log` alone: what has to
be shown about the slot and the next phase. -/
theorem SharedInv.store (h : SharedInv s) {ph ph' : Phase} {m : Mem}
    (hw : s.writer = some (t, ph)) (hph : ph ≠ .valHigh) (hpub : ph ≠ .publish)
    (hslot : SlotInv ((s.setSlot t.slot m).setPhase t ph') t.slot)
    (hphase : PhaseInv ((s.setSlot t.slot m).setPhase t ph') t ph') :
    SharedInv ((s.setSlot t.slot m).setPhase t ph') where
  slot k := by
    by_cases hk : k = t.slot
    · rw [hk]
      exact hslot
    · exact (h.slot k).congr (setSlot_ring_ne s m hk) rfl fun _ => id
  cur k c hc := Or.inl (h.cur_mem hw hph hc)
  phase t' ph'' hw' := by
    cases hw'
    exact hphase
  later t' ph'' hw' _ := by
    cases hw'
    exact h.later t ph hw hpub

/-- The low words after a store that clears or keeps the low word. -/
theorem Evolves.store {m : Mem} {ph' : Phase} (hlo : m.read32 0 ≠ 0 → s.lo t.slot ≠ 0) :
    Evolves s ((s.setSlot t.slot m).setPhase t ph') := by
  refine .of_cur_eq (fun _ => id) rfl fun k hne => ?_
  by_cases hk : k = t.slot
  · subst hk
    exact hlo (by simpa [State.lo] using hne)
  · simpa [State.lo, setSlot_ring_ne s m hk] using hne

/-! ## The phases -/

theorem writeStep_invHigh (h : SharedInv s) (hw : s.writer = some (t, .invHigh)) :
    SharedInv (writeStep s t .invHigh) ∧ Evolves s (writeStep s t .invHigh) := by
  have hlo : ((s.ring t.slot).write32 4 0).read32 0 = s.lo t.slot :=
    Mem.read32_write32_outside (by omega)
  refine ⟨h.store hw (by decide) (by decide) ⟨fun hne => ?_, fun hne => ?_⟩ ?_, .store ?_⟩
  · exact absurd (by simp [State.hi]) hne
  · simp only [State.lo, setPhase_ring, setSlot_ring_self, setPhase_cur, setSlot_cur] at hne ⊢
    rw [hlo] at hne ⊢
    obtain ⟨c, hc, hcl, hb⟩ := (h.slot t.slot).lo hne
    refine ⟨c, hc, hcl, fun b h8 hb' => ?_⟩
    rw [Mem.write32_outside (by omega)]
    exact hb b h8 hb'
  · simp [PhaseInv, State.hi]
  · rw [hlo]
    exact id

theorem writeStep_invLow (h : SharedInv s) (hw : s.writer = some (t, .invLow)) :
    SharedInv (writeStep s t .invLow) ∧ Evolves s (writeStep s t .invLow) := by
  have hlo : ((s.ring t.slot).write32 0 0).read32 0 = 0 := Mem.read32_write32 ..
  have hhi : ((s.ring t.slot).write32 0 0).read32 4 = 0 := by
    rw [Mem.read32_write32_outside (by omega)]
    exact h.phase t _ hw
  refine ⟨h.store hw (by decide) (by decide) (.of_invalid ?_ ?_) ⟨?_, ?_, ?_⟩, .store ?_⟩
  · simpa [State.hi] using hhi
  · simp [State.lo]
  · simpa [State.hi] using hhi
  · simp [State.lo]
  · intro b h8 hb
    omega
  · rw [hlo]
    exact fun hne => absurd rfl hne

theorem SharedInv.skip (h : SharedInv s) {ph ph' : Phase} (hw : s.writer = some (t, ph))
    (hph : ph ≠ .valHigh) (hpub : ph ≠ .publish) (hphase : PhaseInv s t ph') :
    SharedInv (s.setPhase t ph') ∧ Evolves s (s.setPhase t ph') := by
  refine ⟨⟨fun k => SlotInv.congr (s := s) rfl rfl (fun _ => id) (h.slot k),
    fun k c hc => Or.inl (h.cur_mem hw hph hc), ?_, ?_⟩,
    .of_cur_eq (fun _ => id) rfl fun _ => id⟩
  · intro t' ph'' hw'
    cases hw'
    exact PhaseInv.congr (setPhase_ring ..) (setPhase_cur ..) hphase
  · intro t' ph'' hw' _
    cases hw'
    exact h.later t _ hw hpub

/-- Step 5: one word of the `memcpy`. -/
theorem writeStep_copy {i : Nat} (h : SharedInv s) (hw : s.writer = some (t, .copy i)) :
    SharedInv (writeStep s t (.copy i)) ∧ Evolves s (writeStep s t (.copy i)) := by
  have hfill : Filling s t t.src (4 * i) := h.phase t _ hw
  rw [writeStep]
  split
  · obtain ⟨hlo, hhi⟩ := copyWord_stamp t (i := i) hfill.lo hfill.hi
    refine ⟨h.store hw (by simp) (by simp) (.of_invalid ?_ ?_) ⟨?_, ?_, ?_⟩, .store ?_⟩
    · simp [State.hi, hhi]
    · simp [State.lo, hlo]
    · simp [State.hi, hhi]
    · simp [State.lo, hlo]
    · simpa using copyWord_progress (P := fun b => 8 ≤ b) hfill.bytes
    · rw [hlo]
      exact fun hne => absurd rfl hne
  · -- the whole record is copied
    rename_i hdone
    exact h.skip hw (by simp) (by simp)
      ⟨hfill.hi, hfill.lo, fun b h8 hb hb' => hfill.bytes b h8 (by omega) hb'⟩

/-- Step 5b: is `data_ts` to be defaulted? -/
theorem writeStep_dataTest (h : SharedInv s) (hw : s.writer = some (t, .dataTest)) :
    SharedInv (writeStep s t .dataTest) ∧ Evolves s (writeStep s t .dataTest) := by
  have hfill : Filling s t t.src t.size := h.phase t _ hw
  have hdata : (s.ring t.slot).read64 12 = t.src.read64 12 :=
    Mem.read64_congr fun b h1 h2 =>
      hfill.bytes b (by omega) (by have := t.size_min; omega) (by have := t.size_min; omega)
  rw [writeStep]
  split
  · rename_i h0
    exact h.skip hw (by decide) (by decide) ⟨hfill, by rw [← hdata, h0]⟩
  · rename_i h0
    refine h.skip hw (by decide) (by decide) ?_
    have : defaultDataTs t.src t.stamp = t.src := by
      rw [defaultDataTs, if_neg (by rw [← hdata]; exact h0)]
    simpa only [PhaseInv, this] using hfill

/-- The stores of step 5b leave the stamp words alone. -/
theorem Filling.write_dataTs {m : Mem} {a : Nat} (ph' : Phase) (v : BitVec 32)
    (hfill : Filling s t m t.size) (h1 : 8 ≤ a) :
    Filling ((s.setSlot t.slot ((s.ring t.slot).write32 a v)).setPhase t ph') t
      (m.write32 a v) t.size where
  hi := by
    simpa [State.hi, Mem.read32_write32_outside (show 4 + 4 ≤ a ∨ a + 4 ≤ 4 by omega)]
      using hfill.hi
  lo := by
    simpa [State.lo, Mem.read32_write32_outside (show 0 + 4 ≤ a ∨ a + 4 ≤ 0 by omega)]
      using hfill.lo
  bytes b h8 hb hb' := by
    simp only [setPhase_ring, setSlot_ring_self, Mem.write32, Mem.copy]
    rw [hfill.bytes b h8 hb hb']

theorem writeStep_dataLow (h : SharedInv s) (hw : s.writer = some (t, .dataLow)) :
    SharedInv (writeStep s t .dataLow) ∧ Evolves s (writeStep s t .dataLow) := by
  obtain ⟨hfill, h0⟩ := h.phase t _ hw
  have hfill' := hfill.write_dataTs .dataHigh (loWord t.stamp)
    (show 8 ≤ 12 by omega)
  refine ⟨h.store hw (by decide) (by decide) (.of_invalid hfill'.hi hfill'.lo) ⟨hfill', h0⟩,
    .store fun hne => ?_⟩
  rwa [Mem.read32_write32_outside (by omega)] at hne

theorem writeStep_dataHigh (h : SharedInv s) (hw : s.writer = some (t, .dataHigh)) :
    SharedInv (writeStep s t .dataHigh) ∧ Evolves s (writeStep s t .dataHigh) := by
  obtain ⟨hfill, h0⟩ := h.phase t _ hw
  have hfill' := hfill.write_dataTs .valLow (hiWord t.stamp)
    (show 8 ≤ 16 by omega)
  have hdata : defaultDataTs t.src t.stamp =
      (t.src.write32 12 (loWord t.stamp)).write32 16 (hiWord t.stamp) := by
    rw [defaultDataTs, if_pos h0, Mem.write64]
  refine ⟨h.store hw (by decide) (by decide) (.of_invalid hfill'.hi hfill'.lo) ?_,
    .store fun hne => ?_⟩
  · rw [PhaseInv, hdata]
    exact hfill'
  · rwa [Mem.read32_write32_outside (by omega)] at hne

/-- Step 6, low word first: from here on the slot belongs to the new commit. -/
theorem writeStep_valLow (h : SharedInv s) (hw : s.writer = some (t, .valLow)) :
    SharedInv (writeStep s t .valLow) ∧ Evolves s (writeStep s t .valLow) := by
  have hfill : Filling s t (defaultDataTs t.src t.stamp) t.size := h.phase t _ hw
  have hlater := h.later t _ hw (by decide)
  have hlo : ((s.ring t.slot).write32 0 (loWord t.stamp)).read32 0 = loWord t.stamp :=
    Mem.read32_write32 ..
  have hhi : ((s.ring t.slot).write32 0 (loWord t.stamp)).read32 4 = 0 := by
    rw [Mem.read32_write32_outside (by omega)]
    exact hfill.hi
  have hcur : (writeStep s t .valLow).cur t.slot = some t.commit := by
    simp [writeStep]
  have hcurNe : ∀ k, k ≠ t.slot → (writeStep s t .valLow).cur k = s.cur k := fun k hk => by
    simp [writeStep, hk]
  refine ⟨⟨fun k => ?_, fun k c hc => ?_, ?_, ?_⟩, fun c => id, ?_, ?_⟩
  · by_cases hk : k = t.slot
    · subst hk
      refine ⟨fun hne => ?_, fun hne => ⟨t.commit, hcur, ?_, fun b h8 hb => ?_⟩⟩
      · simp [State.hi, writeStep, hhi] at hne
      · simp [State.lo, writeStep, hlo]
      · simp only [writeStep, setPhase_ring, setSlot_ring_self]
        rw [Mem.write32_outside (by omega), t.commit_bytes h8]
        exact hfill.bytes b h8 hb hb
    · exact (h.slot k).congr (by simp [writeStep, setSlot_ring_ne s _ hk]) (hcurNe k hk)
        fun _ => id
  · by_cases hk : k = t.slot
    · subst hk
      rw [hcur] at hc
      exact Or.inr ⟨t, rfl, rfl, Option.some.inj hc⟩
    · rw [hcurNe k hk] at hc
      exact Or.inl (h.cur_mem hw (by decide) hc)
  · intro t' ph hw'
    cases hw'
    exact ⟨hcur, by simp [State.lo, writeStep, hlo]⟩
  · intro t' ph hw' _
    cases hw'
    exact hlater
  · -- slots only move on to later commits
    rintro k c ⟨c', hc', hcc⟩
    by_cases hk : k = t.slot
    · subst hk
      have hmem' : c' ∈ s.log := h.cur_mem hw (by decide) hc'
      refine ⟨t.commit, hcur, Or.inr ?_⟩
      rcases hcc with rfl | ⟨hlt, hmem⟩
      · exact ⟨hlater _ hmem', hmem'⟩
      · exact ⟨hlater _ hmem, hmem⟩
    · exact ⟨c', by rw [hcurNe k hk, hc'], hcc⟩
  · rintro k c ⟨c', hc', hcc⟩ ⟨hc, hne⟩
    by_cases hk : k = t.slot
    · -- the new commit was not in the slot before
      subst hk
      rw [hcur] at hc
      cases hc
      have hmem : t.commit ∈ s.log := by
        rcases hcc with rfl | ⟨_, hmem⟩
        · exact h.cur_mem hw (by decide) hc'
        · exact hmem
      exact absurd (hlater _ hmem) (Int.lt_irrefl _)
    · refine ⟨by rw [← hcurNe k hk, hc], ?_⟩
      simpa [State.lo, writeStep, setSlot_ring_ne s _ hk] using hne

theorem writeStep_valHigh (h : SharedInv s) (hw : s.writer = some (t, .valHigh)) :
    SharedInv (writeStep s t .valHigh) ∧ Evolves s (writeStep s t .valHigh) := by
  obtain ⟨hcur, hlow⟩ := h.phase t _ hw
  have hlo : ((s.ring t.slot).write32 4 (hiWord t.stamp)).read32 0 = s.lo t.slot :=
    Mem.read32_write32_outside (by omega)
  have hhi : ((s.ring t.slot).write32 4 (hiWord t.stamp)).read32 4 = hiWord t.stamp :=
    Mem.read32_write32 ..
  have hlog : ∀ c ∈ s.log, c ∈ (writeStep s t .valHigh).log := fun c hc => by
    simp [writeStep, hc]
  have hmem : t.commit ∈ (writeStep s t .valHigh).log := by simp [writeStep]
  refine ⟨⟨fun k => ?_, fun k c hc => ?_, ?_, ?_⟩, .of_cur_eq hlog rfl fun k => ?_⟩
  · by_cases hk : k = t.slot
    · subst hk
      refine ⟨fun _ => ⟨t.commit, hmem, hcur, ?_⟩, fun hne => ?_⟩
      · simp [State.hi, writeStep, hhi]
      · simp only [State.lo, writeStep, setPhase_ring, setSlot_ring_self] at hne ⊢
        rw [hlo] at hne ⊢
        obtain ⟨c, hc, hcl, hb⟩ := (h.slot t.slot).lo hne
        refine ⟨c, hc, hcl, fun b h8 hb' => ?_⟩
        rw [Mem.write32_outside (by omega)]
        exact hb b h8 hb'
    · refine SlotInv.congr ?_ ?_ hlog (h.slot k)
      · simp [writeStep, setSlot_ring_ne s _ hk]
      · rfl
  · rcases h.cur k c hc with hc' | ⟨t', ht', _, rfl⟩
    · exact Or.inl (hlog c hc')
    · rw [hw] at ht'
      cases ht'
      exact Or.inl hmem
  · intro t' ph hw'
    cases hw'
    trivial
  · intro t' ph hw' hne
    cases hw'
    exact absurd rfl hne
  · by_cases hk : k = t.slot
    · subst hk
      simp [State.lo, writeStep, hlo]
    · simp [State.lo, writeStep, setSlot_ring_ne s _ hk]

theorem writeStep_publish (h : SharedInv s) (hw : s.writer = some (t, .publish)) :
    SharedInv (writeStep s t .publish) ∧ Evolves s (writeStep s t .publish) := by
  refine ⟨⟨fun k => SlotInv.congr (s := s) rfl rfl (fun _ => id) (h.slot k),
    fun k c hc => Or.inl (h.cur_mem hw (by decide) hc), ?_, ?_⟩,
    .of_cur_eq (fun _ => id) rfl fun _ => id⟩
  · intro t' ph hw'
    cases hw'
  · intro t' ph hw'
    cases hw'

/-- Every store of the writer keeps the invariant, and the readers' view only
moves forward. -/
theorem writeStep_inv (h : SharedInv s) {ph : Phase} (hw : s.writer = some (t, ph)) :
    SharedInv (writeStep s t ph) ∧ Evolves s (writeStep s t ph) := by
  cases ph with
  | invHigh => exact writeStep_invHigh h hw
  | invLow => exact writeStep_invLow h hw
  | copy i => exact writeStep_copy h hw
  | dataTest => exact writeStep_dataTest h hw
  | dataLow => exact writeStep_dataLow h hw
  | dataHigh => exact writeStep_dataHigh h hw
  | valLow => exact writeStep_valLow h hw
  | valHigh => exact writeStep_valHigh h hw
  | publish => exact writeStep_publish h hw

/-! ## What a reader knows -/

/-- The stamp `ts` was loaded from slot `k`, which carried the low word of `c`
then and had not seen a high word beyond `c`'s before. -/
structure Seen (s : State) (k : Nat) (ts : Timestamp) (c : Commit) : Prop where
  hi_ne : hiWord ts ≠ 0
  lo_ne : loWord ts ≠ 0
  tracks : Tracks s k c
  lo_eq : loWord c.stamp = loWord ts
  hi_le : (hiWord ts).toInt ≤ (hiWord c.stamp).toInt

/-- The candidate of a `YOUNGER` scan has been seen. -/
def KeptSeen (s : State) (c : Cursor) : Prop :=
  ∀ q, c.kept = some q → ∃ cm, Seen s q.slot.toNat q.ts cm

/-- Up to byte `n`, the buffer agrees with the record of `c`, stamp aside. -/
def Copied (c : Commit) (size : Nat) (avail : Int) (n : Nat) (buf : Mem) : Prop :=
  avail = (min c.size size : Nat) ∧
    ∀ b, 8 ≤ b → b < n → b < min c.size size → buf b = c.bytes b

/-- The copy is complete and `base.size` is updated. -/
def Whole (c : Commit) (size : Nat) (buf : Mem) : Prop :=
  buf.read32 20 = BitVec.ofNat 32 (min c.size size) ∧
    ∀ b, 8 ≤ b → b < min c.size size → ¬ (20 ≤ b ∧ b < 24) → buf b = c.bytes b

/-- What a reader with a buffer of `size` bytes knows at its program counter. -/
def ReaderInv (s : State) (size : Nat) : Pc → Prop
  | .idle | .histSlot => True
  | .test c _ | .deletedTs c | .scanHi c => KeptSeen s c
  | .scanLo c hi => KeptSeen s c ∧ hi ≠ 0 ∧
      ∃ cm, Tracks s c.sl.toNat cm ∧ hi.toInt ≤ (hiWord cm.stamp).toInt
  | .dataHi c ts | .dataLo c ts _ => KeptSeen s c ∧ ∃ cm, Seen s c.sl.toNat ts cm
  | .size1 p => ∃ c, Seen s p.slot.toNat p.ts c
  | .size2 p => ∃ c, Seen s p.slot.toNat p.ts c ∧ (Here s p.slot.toNat c → c.size ≤ size)
  | .copy p avail i buf => ∃ c, Seen s p.slot.toNat p.ts c ∧
      (Here s p.slot.toNat c → Copied c size avail (4 * i) buf)
  | .finLo p _ buf => ∃ c, Seen s p.slot.toNat p.ts c ∧ (Here s p.slot.toNat c → Whole c size buf)
  | .finHi p _ buf lo => ∃ c, Seen s p.slot.toNat p.ts c ∧
      (Whole c size buf ∨ lo ≠ loWord p.ts ∨
        ∃ c', Tracks s p.slot.toNat c' ∧ c.stamp.toInt < c'.stamp.toInt ∧ loWord c'.stamp = lo)
  | .stale _ buf | .retSize _ buf | .done (.ok _) buf => Delivered s size buf
  | .done (.error _) _ => True

/-! ## A reader's knowledge outlives the steps of the others -/

theorem Seen.mono {ts : Timestamp} (hE : Evolves s s') (h : Seen s k ts c) : Seen s' k ts c :=
  { h with tracks := hE.tracks k c h.tracks }

theorem KeptSeen.mono {c : Cursor} (hE : Evolves s s') (h : KeptSeen s c) : KeptSeen s' c :=
  fun q hq => (h q hq).imp fun _ => Seen.mono hE

/-- A fact known under `Here` stays known: a slot that holds `c` now held it
before. -/
theorem Seen.mono_here {ts : Timestamp} {P : Commit → Prop} (hE : Evolves s s')
    (h : ∃ c, Seen s k ts c ∧ (Here s k c → P c)) :
    ∃ c, Seen s' k ts c ∧ (Here s' k c → P c) := by
  obtain ⟨c, hseen, hP⟩ := h
  exact ⟨c, hseen.mono hE, fun hh => hP (hE.here k c hseen.tracks hh)⟩

theorem Delivered.mono {size : Nat} {buf : Mem} (hE : Evolves s s')
    (h : Delivered s size buf) : Delivered s' size buf := by
  obtain ⟨c, hmem, hrest⟩ := h
  exact ⟨c, hE.log c hmem, hrest⟩

theorem ReaderInv.mono {size : Nat} {pc : Pc} (hE : Evolves s s')
    (h : ReaderInv s size pc) : ReaderInv s' size pc := by
  match pc with
  | .idle | .histSlot | .done (.error _) _ => trivial
  | .test c _ | .deletedTs c | .scanHi c => exact KeptSeen.mono hE h
  | .scanLo c hi =>
      obtain ⟨hk, h0, cm, ht, hle⟩ := h
      exact ⟨hk.mono hE, h0, cm, hE.tracks _ _ ht, hle⟩
  | .dataHi c ts | .dataLo c ts _ =>
      exact ⟨h.1.mono hE, h.2.imp fun _ => Seen.mono hE⟩
  | .size1 p => exact Exists.imp (fun _ => Seen.mono hE) h
  | .size2 p | .copy p _ _ _ | .finLo p _ _ => exact Seen.mono_here hE h
  | .finHi p _ buf lo =>
      obtain ⟨c, hseen, hc⟩ := h
      refine ⟨c, hseen.mono hE, ?_⟩
      rcases hc with hw | hne | ⟨c', ht, hlt, hlo⟩
      · exact Or.inl hw
      · exact Or.inr (Or.inl hne)
      · exact Or.inr (Or.inr ⟨c', hE.tracks _ _ ht, hlt, hlo⟩)
  | .stale _ buf | .retSize _ buf | .done (.ok _) buf => exact Delivered.mono hE h

/-! ## Loads of a reader -/

/-- A slot that tracks `c` carries nothing older than `c`. -/
theorem Tracks.le {c' : Commit} (h : Tracks s k c) (hc' : s.cur k = some c') :
    c.stamp.toInt ≤ c'.stamp.toInt := by
  obtain ⟨d, hd, hdc⟩ := h
  obtain rfl : c' = d := Option.some.inj (hc'.symm.trans hd)
  rcases hdc with rfl | ⟨hlt, _⟩
  · exact Int.le_refl _
  · exact Int.le_of_lt hlt

theorem Tracks.of_cur (hc : s.cur k = some c) : Tracks s k c := ⟨c, hc, Or.inl rfl⟩

theorem size_of_here (h : SharedInv s) (hh : Here s k c) :
    ((s.ring k).read32 20).toInt = c.size := by
  obtain ⟨d, hd, _, hb⟩ := (h.slot k).lo hh.2
  obtain rfl : c = d := Option.some.inj (hh.1.symm.trans hd)
  rw [← c.size_eq]
  congr 1
  exact Mem.read32_congr fun b h1 h2 => hb b (by omega) (by have := c.size_min; omega)

theorem intact_of_here (h : SharedInv s) (hh : Here s k c) : Intact (s.ring k) c := by
  obtain ⟨d, hd, _, hb⟩ := (h.slot k).lo hh.2
  obtain rfl : c = d := Option.some.inj (hh.1.symm.trans hd)
  exact hb

theorem readerInv_atEnd {size : Nat} {kept : Option Probe}
    (h : ∀ q, kept = some q → ∃ cm, Seen s q.slot.toNat q.ts cm) :
    ReaderInv s size (match Mode.atEnd kept with
      | .take p => .size1 p
      | _ => .done (.error .notFound) .zero) := by
  cases kept with
  | none => trivial
  | some q => exact h q rfl

/-- The loaded record is seen, so whatever the loop takes or keeps is. -/
theorem readerInv_onVerdict {size : Nat} {c : Cursor} {mode : Mode} {ts : Timestamp}
    {p : Probe} (hkept : KeptSeen s c) (hp : ∃ cm, Seen s p.slot.toNat p.ts cm) :
    ReaderInv s size (onVerdict cfg c (mode.verdict ts c.kept p)) := by
  cases hv : mode.verdict ts c.kept p with
  | take q =>
      rcases Mode.verdict_take hv with rfl | hq
      · exact hp
      · exact hkept q hq
  | notFound => trivial
  | back kept' =>
      have hkept' : ∀ q, kept' = some q → ∃ cm, Seen s q.slot.toNat q.ts cm := by
        intro q hq
        rw [Mode.verdict_back hv q hq]
        exact hp
      simp only [onVerdict]
      split
      · exact readerInv_atEnd hkept'
      · exact hkept'

/-- The final comparison: both words of the stamp read after the copy equal those
read before it, so no later commit came in between. -/
theorem delivered_of_final (h : SharedInv s) {p : Probe} {size : Nat} {buf : Mem}
    {lo : BitVec 32} {avail : Int} (hr : ReaderInv s size (.finHi p avail buf lo))
    (hfin : ofWords (s.hi p.slot.toNat) lo = p.ts) :
    Delivered s size (buf.write64 0 p.ts) := by
  obtain ⟨c, hseen, hcase⟩ := hr
  have hhi : s.hi p.slot.toNat = hiWord p.ts := by rw [← hfin, hiWord_ofWords]
  have hlo : lo = loWord p.ts := by rw [← hfin, loWord_ofWords]
  obtain ⟨d, hdmem, hd, hdhi⟩ := (h.slot p.slot.toNat).hi (by rw [hhi]; exact hseen.hi_ne)
  have hhd : hiWord d.stamp = hiWord p.ts := by rw [← hdhi, hhi]
  -- a tracked commit between the two loads has the high word of both
  have hsqueeze : ∀ e, Tracks s p.slot.toNat e → c.stamp.toInt ≤ e.stamp.toInt →
      hiWord e.stamp = hiWord p.ts := by
    intro e he hle
    have h1 := hiWord_toInt_mono hle
    have h2 := hiWord_toInt_mono (he.le hd)
    rw [hhd] at h2
    exact BitVec.eq_of_toInt_eq (by have := hseen.hi_le; omega)
  have hstamp : c.stamp = p.ts :=
    eq_of_words (hsqueeze c hseen.tracks (Int.le_refl _)) hseen.lo_eq
  have hmem : c ∈ s.log := by
    obtain ⟨e, he, hce⟩ := hseen.tracks
    rcases hce with rfl | ⟨_, hmem⟩
    · rwa [Option.some.inj (he.symm.trans hd)]
    · exact hmem
  rcases hcase with ⟨hsize, hbytes⟩ | hne | ⟨c', ht', hlt, hlo'⟩
  · refine ⟨c, hmem, by rw [Mem.read64_write64, hstamp], ?_, fun b hb hns => ?_⟩
    · rw [← hsize]
      exact Mem.read32_congr fun b h1 h2 => Mem.write64_outside (by omega)
    · by_cases h8 : 8 ≤ b
      · rw [Mem.write64_outside (by omega)]
        exact hbytes b h8 hb hns
      · -- the stamp bytes themselves
        have h64 : (buf.write64 0 p.ts).read64 0 = c.bytes.read64 0 := by
          rw [Mem.read64_write64, c.stamp_eq, hstamp]
        exact Mem.byte_eq_of_read64_eq h64 (by omega) (by omega)
  · exact absurd hlo hne
  · -- a later commit with the same stamp words would have the same stamp
    have heq : c'.stamp = c.stamp :=
      eq_of_words (by rw [hsqueeze c' ht' (Int.le_of_lt hlt), hstamp])
        (by rw [hlo', hlo, hseen.lo_eq])
    rw [heq] at hlt
    exact absurd hlt (Int.lt_irrefl _)

/-! ## Guarded runs -/

/-- The stamp word a reader is about to load into `scan_ts` is not zero. -/
def StampWordSet (s : State) : Pc → Prop
  | .scanHi c => s.hi c.sl.toNat ≠ 0
  | .scanLo c _ => s.lo c.sl.toNat ≠ 0
  | _ => True

/-- The condition on a run: no reader loads a zero word of a slot's stamp into
`scan_ts`, i.e. a word that the writer has cleared and not stored again, or a
zero word of a stamp. -/
def LoadsValidStamp (s : State) : Label → Prop
  | .read r _ => StampWordSet s (s.readers r).pc
  | _ => True

instance (s : State) (pc : Pc) : Decidable (StampWordSet s pc) := by
  cases pc <;> dsimp only [StampWordSet] <;> infer_instance

instance (s : State) (l : Label) : Decidable (LoadsValidStamp s l) := by
  cases l <;> dsimp only [LoadsValidStamp] <;> infer_instance

theorem readStep_inv (h : SharedInv s) {r : Nat} {tooOld : Bool}
    (hg : LoadsValidStamp s (.read r tooOld))
    (hr : ReaderInv s (s.readers r).size (s.readers r).pc) :
    ReaderInv s (s.readers r).size (readStep cfg s (s.readers r) tooOld) := by
  simp only [LoadsValidStamp, StampWordSet] at hg
  unfold readStep
  split <;> rename_i hpc <;> rw [hpc] at hr <;> simp only [hpc] at hg
  · trivial
  · intro q hq
    cases hq
  · -- test
    rename_i c first
    split
    · exact readerInv_atEnd hr
    · split <;> exact hr
  · -- deletedTs
    split
    · trivial
    · exact hr
  · -- scanHi
    obtain ⟨cm, _, hcm, hw⟩ := (h.slot _).hi hg
    exact ⟨hr, hg, cm, .of_cur hcm, by rw [← hw]; exact Int.le_refl _⟩
  · -- scanLo
    rename_i c hi
    obtain ⟨hkept, h0, cm, ht, hle⟩ := hr
    obtain ⟨cl, hcl, hw, _⟩ := (h.slot _).lo hg
    have hseen : Seen s c.sl.toNat (ofWords hi (s.lo c.sl.toNat)) cl :=
      { hi_ne := by rw [hiWord_ofWords]; exact h0
        lo_ne := by rw [loWord_ofWords]; exact hg
        tracks := .of_cur hcl
        lo_eq := by rw [loWord_ofWords, hw]
        hi_le := by
          rw [hiWord_ofWords]
          exact Int.le_trans hle (hiWord_toInt_mono (ht.le hcl)) }
    split
    · exact ⟨hkept, cl, hseen⟩
    · exact readerInv_onVerdict hkept ⟨cl, hseen⟩
  · exact hr
  · exact readerInv_onVerdict hr.1 hr.2
  · -- size1
    rename_i p
    obtain ⟨c, hseen⟩ := hr
    split <;> rename_i hle
    · refine ⟨c, hseen, fun hh => ?_⟩
      rw [size_of_here h hh] at hle
      omega
    · refine ⟨c, hseen, fun hh => ⟨?_, fun b h8 hb => by omega⟩⟩
      rw [size_of_here h hh] at hle
      omega
  · -- size2
    rename_i p
    obtain ⟨c, hseen, hle⟩ := hr
    refine ⟨c, hseen, fun hh => ⟨?_, fun b h8 hb => by omega⟩⟩
    have := hle hh
    rw [size_of_here h hh]
    omega
  · -- copy
    rename_i p avail i buf
    obtain ⟨c, hseen, hcop⟩ := hr
    split <;> rename_i hlt
    · refine ⟨c, hseen, fun hh => ?_⟩
      obtain ⟨hav, hbytes⟩ := hcop hh
      have hint := intact_of_here h hh
      refine ⟨hav, fun b h8 hb hmin => ?_⟩
      by_cases hb' : b < 4 * i
      · rw [copyWord_outside (Or.inl hb')]
        exact hbytes b h8 hb' hmin
      · rw [copyWord_inside (by omega) (by omega) (by omega)]
        exact hint b h8 (by omega)
    · refine ⟨c, hseen, fun hh => ?_⟩
      obtain ⟨hav, hbytes⟩ := hcop hh
      refine ⟨?_, fun b h8 hmin hns => ?_⟩
      · rw [Mem.read32_write32, hav]
        rfl
      · rw [Mem.write32_outside (by omega)]
        exact hbytes b h8 (by omega) hmin
  · -- finLo
    rename_i p avail buf
    obtain ⟨c, hseen, hwhole⟩ := hr
    refine ⟨c, hseen, ?_⟩
    by_cases hlo : s.lo p.slot.toNat = loWord p.ts
    · obtain ⟨d, hd, hdlo, _⟩ := (h.slot p.slot.toNat).lo (by rw [hlo]; exact hseen.lo_ne)
      obtain ⟨e, he, hce⟩ := hseen.tracks
      obtain rfl : d = e := Option.some.inj (hd.symm.trans he)
      rcases hce with rfl | ⟨hlt, _⟩
      · exact Or.inl (hwhole ⟨hd, by rw [hlo]; exact hseen.lo_ne⟩)
      · exact Or.inr (Or.inr ⟨d, .of_cur hd, hlt, hdlo.symm⟩)
    · exact Or.inr (Or.inl hlo)
  · -- finHi
    rename_i p avail buf lo
    by_cases hne : ofWords ((s.ring p.slot.toNat).read32 4) lo ≠ p.ts
    · simp only [if_pos hne]
      trivial
    · simp only [if_neg hne]
      have hfin : ofWords (s.hi p.slot.toNat) lo = p.ts := not_not.mp hne
      have hd := delivered_of_final h hr hfin
      rw [show ofWords ((s.ring p.slot.toNat).read32 4) lo = p.ts from hfin]
      split <;> exact hd
  · split
    · trivial
    · exact hr
  · exact hr
  · exact hr

structure Inv (s : State) : Prop where
  shared : SharedInv s
  readers : ∀ r, ReaderInv s (s.readers r).size (s.readers r).pc

theorem inv_init : Inv State.init where
  shared :=
    { slot := fun _ => .of_invalid (Mem.read32_zero 4) (Mem.read32_zero 0)
      cur := fun _ _ hc => by cases hc
      phase := fun _ _ hw => by cases hw
      later := fun _ _ hw => by cases hw }
  readers _ := trivial

/-- A step that leaves the ring, its log and its writer alone. -/
theorem SharedInv.frame (s' : State) (h : SharedInv s) (hring : s'.ring = s.ring)
    (hcur : s'.cur = s.cur)
    (hlog : s'.log = s.log) (hw : s'.writer = s.writer) :
    SharedInv s' ∧ Evolves s s' := by
  have hmem : ∀ c ∈ s.log, c ∈ s'.log := fun c hc => by rw [hlog]; exact hc
  refine ⟨⟨fun k => ?_, ?_, ?_, ?_⟩, .of_cur_eq hmem hcur fun k => ?_⟩
  · exact SlotInv.congr (by rw [hring]) (by rw [hcur]) hmem (h.slot k)
  · rw [hcur, hlog, hw]
    exact h.cur
  · intro t ph
    rw [hw]
    exact fun ht => PhaseInv.congr hring hcur (h.phase t ph ht)
  · rw [hw, hlog]
    exact h.later
  · simp only [State.lo, hring, imp_self]

/-- A new `writedata` call. -/
theorem SharedInv.begin (h : SharedInv s) (hw : s.writer = none)
    (hlater : ∀ c ∈ s.log, c.stamp.toInt < t.stamp.toInt) :
    SharedInv (s.setPhase t .invHigh) ∧ Evolves s (s.setPhase t .invHigh) := by
  refine ⟨⟨?_, ?_, ?_, ?_⟩, .of_cur_eq (fun _ => id) rfl fun _ => id⟩
  · exact fun k => SlotInv.congr (s := s) rfl rfl (fun _ => id) (h.slot k)
  · intro k c hc
    rcases h.cur k c hc with hmem | ⟨t', ht', _⟩
    · exact Or.inl hmem
    · rw [hw] at ht'
      cases ht'
  · intro t' ph hw'
    cases hw'
    trivial
  · intro t' ph hw' _
    cases hw'
    exact hlater

theorem step_inv {l : Label} (h : Inv s) (hg : LoadsValidStamp s l)
    (hs : step cfg s l = some s') : Inv s' := by
  cases l with
  | begin data committedTs =>
      simp only [step] at hs
      split at hs
      · rename_i t hw ht
        split at hs
        · rename_i hlater
          cases hs
          obtain ⟨hsh, hE⟩ := h.shared.begin hw hlater
          exact ⟨hsh, fun r => (h.readers r).mono hE⟩
        · cases hs
      · cases hs
  | write =>
      obtain ⟨⟨t, ph⟩, hw, rfl⟩ := Option.map_eq_some_iff.mp hs
      obtain ⟨hsh, hE⟩ := writeStep_inv h.shared hw
      have hrd : (writeStep s t ph).readers = s.readers := by
        cases ph <;> simp only [writeStep] <;> (try split) <;> rfl
      refine ⟨hsh, fun r => ?_⟩
      rw [hrd]
      exact (h.readers r).mono hE
  | start r mode ts size =>
      cases hs
      obtain ⟨hsh, hE⟩ := h.shared.frame (s.setReader r ⟨mode, ts, size, .histSlot⟩)
        rfl rfl rfl rfl
      refine ⟨hsh, fun q => ?_⟩
      by_cases hq : q = r
      · subst hq
        simp [State.setReader, ReaderInv]
      · rw [show (s.setReader r ⟨mode, ts, size, .histSlot⟩).readers q = s.readers q from
          Function.update_of_ne hq ..]
        exact (h.readers q).mono hE
  | read r tooOld =>
      cases hs
      have hstep : ReaderInv s (s.readers r).size (readStep cfg s (s.readers r) tooOld) :=
        readStep_inv h.shared hg (h.readers r)
      obtain ⟨hsh, hE⟩ := h.shared.frame
        (s.setReader r { s.readers r with pc := readStep cfg s (s.readers r) tooOld })
        rfl rfl rfl rfl
      refine ⟨hsh, fun q => ?_⟩
      by_cases hq : q = r
      · subst hq
        simpa [State.setReader] using hstep.mono hE
      · rw [show (s.setReader r _).readers q = s.readers q from Function.update_of_ne hq ..]
        exact (h.readers q).mono hE
  | delete =>
      cases hs
      obtain ⟨hsh, hE⟩ := h.shared.frame { s with deleted := true } rfl rfl rfl rfl
      exact ⟨hsh, fun r => (h.readers r).mono hE⟩

/-- Torn-read freedom: in every run in which no reader loads a zero word of a
slot's stamp into `scan_ts`, whatever the interleaving and however often the
writer laps a reader, a read that answers with a size has copied a prefix of
one completed commit, and stored that commit's stamp. -/
theorem tornFree_of_guarded (h : (lts cfg).Guarded LoadsValidStamp s) : TornFree s := by
  have hinv : Inv s :=
    h.invariant (fun s h0 => by cases h0; exact inv_init)
      fun _ _ _ hi hg hs => step_inv hi hg hs
  intro r n buf hpc _
  have hr := hinv.readers r
  rw [hpc] at hr
  exact hr

/-! ## Schedules -/

def exampleCfg : Cfg where
  historySize := 1
  sizeMax := 32
  committedProc := 7
  simmode := false
  withholdStale := false
  historySize_pos := Int.one_pos

def exampleRecord (v : Byte) : Mem := Mem.write32 (fun _ => v) 20 32

/-- One `writedata` call without a pause. -/
def writeCall (v : Byte) (committedTs : Timestamp) : List Label :=
  .begin (exampleRecord v) committedTs :: List.replicate 15 .write

/-- `n` steps of reader 0. -/
def reads (n : Nat) : List Label := List.replicate n (.read 0 false)

def startLast : Label := .start 0 .last 0 64

/-- The reader passes `histscan`'s test; the writer invalidates the slot and
copies seven of its eight words; the reader copies stamp, record and stamp. -/
def tornSchedule : List Label :=
  writeCall 1 0x100000005 ++ startLast :: reads 3 ++
    .begin (exampleRecord 2) 0x200000005 :: List.replicate 9 .write ++ reads 16

instance (s : State) (size : Nat) (buf : Mem) : Decidable (Delivered s size buf) :=
  inferInstanceAs (Decidable (∃ c ∈ s.log, _ ∧ _ ∧ ∀ b < _, ¬ (_ ∧ _) → _))

def answered (s : State) (P : Mem → Bool) : Bool :=
  match (s.readers 0).pc with
  | .done (.ok n) buf => decide (0 ≤ n) && P buf
  | _ => false

/-- A ring of two slots. -/
def twoSlotsCfg : Cfg :=
  { exampleCfg with historySize := 2, historySize_pos := by decide }

/-- The reader is in the middle of the record in slot 0 while the writer fills slot 1. -/
def overlapSchedule : List Label :=
  writeCall 1 0x100000005 ++ startLast :: reads 8 ++
    .begin (exampleRecord 2) 0x200000005 :: List.replicate 9 .write ++ reads 11

/-- A read that overlaps the next commit answers with the record it began with. -/
theorem tornFree_of_guarded_overlap :
    ∃ s, (lts twoSlotsCfg).Guarded LoadsValidStamp s ∧ TornFree s ∧
      answered s (fun buf => decide (buf 31 = 1)) = true := by
  obtain ⟨s, hr, hp⟩ := (lts twoSlotsCfg).exists_of_execGuarded (G := LoadsValidStamp)
    (g := fun s l => decide (LoadsValidStamp s l)) (fun _ _ => of_decide_eq_true) overlapSchedule
    (fun s => answered s fun buf => decide (buf 31 = 1))
    (s := State.init) rfl (by decide +kernel)
  exact ⟨s, hr, tornFree_of_guarded hr, hp⟩

/-- A reader that meets a writer in the middle of a commit accepts half of the
new record over the old one: `scan_ts` and `final_ts` are both zero. -/
theorem exists_tornRead :
    ∃ s, (lts exampleCfg).Reachable s ∧ ¬ TornFree s := by
  obtain ⟨s, hr, hp⟩ := (lts exampleCfg).exists_of_exec tornSchedule
    (fun s => answered s fun buf => decide (¬ Delivered s (s.readers 0).size buf))
    (s := State.init) rfl (by decide +kernel)
  refine ⟨s, hr, fun h => ?_⟩
  simp only [answered] at hp
  split at hp
  · rename_i n buf hpc
    simp only [Bool.and_eq_true, decide_eq_true_eq] at hp
    exact hp.2 (h 0 n buf hpc hp.1)
  · cases hp

end KogmoRtdb.WordModel
