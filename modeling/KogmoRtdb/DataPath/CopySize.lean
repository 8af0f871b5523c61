import KogmoRtdb.DataPath.TornRead

/-!
# The size of a copy

`kogmo_rtdb_obj_readdata__mode` loads `base.size` of the slot three times: to compare it with the
caller's size, as the length of the `memcpy`, and as its answer. The writer may store another size
between any two of the loads.

The writer and one reader of `WordModel`, with both calls of `memcpy` in arbitrary pieces: each
piece is a step, in any order, and may repeat bytes. `sizeRight_of_guarded` shows what is enough
for the caller's buffer and for the answer; `exists_not_sizeRight` runs past the buffer.
-/

namespace KogmoRtdb.WordModel

/-! ## The system -/

/-- `stored` are the bytes of the record the writer's `memcpy` has stored, `written` those of the
caller's buffer that the call has. The reader is number 0 of `base`. -/
structure PieceState where
  base : State
  stored : Nat → Bool
  written : Nat → Bool

inductive PieceLabel where
  | begin (data : Mem) (committedTs : Timestamp)
  /-- the writer's next step, outside its `memcpy` or at its end -/
  | write
  /-- a piece of the writer's `memcpy` -/
  | store (off len : Nat)
  | start (mode : Mode) (ts : Timestamp) (size : Nat)
  /-- the reader's next step, outside its `memcpy` or at its end -/
  | read (tooOld : Bool)
  /-- a piece of the reader's `memcpy` -/
  | load (off len : Nat)
  | delete

/-- The length of a `memcpy`: the conversion of a `kogmo_rtdb_objsize_t` to `size_t`. -/
def memcpyLength (size : Int) : Nat := (size % 2 ^ 64).toNat

/-- The bytes from `off` on are done. -/
def markDone (done : Nat → Bool) (off len : Nat) : Nat → Bool := fun b =>
  done b || decide (off ≤ b ∧ b < off + len)

namespace PieceState

def reader (s : PieceState) : Reader := s.base.readers 0

def setPc (s : PieceState) (pc : Pc) : PieceState :=
  { s with base := s.base.setReader 0 { s.reader with pc := pc } }

/-- The bytes of the caller's buffer that a step stores outside the `memcpy`: `size` after it, and
`committed_ts` with the second load of the stamp. -/
def writtenBy (s : PieceState) : Nat → Bool :=
  match s.reader.pc with
  | .copy .. => markDone s.written 20 4
  | .finHi .. => markDone s.written 0 8
  | _ => s.written

end PieceState

def pieceStep (cfg : Cfg) (s : PieceState) : PieceLabel → Option PieceState
  | .begin data committedTs =>
      (step cfg s.base (.begin data committedTs)).map fun base =>
        { s with base := base, stored := fun _ => false }
  | .write =>
      match s.base.writer with
      | some (t, .copy _) =>
          if ∀ b < t.size, s.stored b = true then
            some { s with base := s.base.setPhase t .dataTest }
          else none
      | some (t, ph) => some { s with base := writeStep s.base t ph }
      | none => none
  | .store off len =>
      match s.base.writer with
      | some (t, .copy i) =>
          if off + len ≤ t.size then
            some { s with
              base := (s.base.setSlot t.slot
                ((s.base.ring t.slot).copy off t.src off len)).setPhase t (.copy i)
              stored := markDone s.stored off len }
          else none
      | _ => none
  | .start mode ts size =>
      some { s with
        base := s.base.setReader 0 { mode := mode, ts := ts, size := size, pc := .histSlot }
        written := fun _ => false }
  | .read tooOld =>
      match s.reader.pc with
      | .copy p avail _ buf =>
          if ∀ b < memcpyLength avail, s.written b = true then
            some { s.setPc (.finLo p avail (buf.write32 20 (BitVec.ofInt 32 avail))) with
              written := s.writtenBy }
          else none
      | _ => some { s.setPc (readStep cfg s.base s.reader tooOld) with written := s.writtenBy }
  | .load off len =>
      match s.reader.pc with
      | .copy p avail i buf =>
          if off + len ≤ memcpyLength avail then
            some { s.setPc (.copy p avail i
                (buf.copy off (s.base.ring p.slot.toNat) off len)) with
              written := markDone s.written off len }
          else none
      | _ => none
  | .delete => some { s with base := { s.base with deleted := true } }

def pieceLts (cfg : Cfg) : Lts PieceState PieceLabel where
  init s := s = ⟨State.init, fun _ => false, fun _ => false⟩
  step := pieceStep cfg

/-! ## What is claimed -/

/-- Nothing is stored past the caller's buffer, and an answered size is that of a record with the
answered stamp. -/
structure SizeRight (s : PieceState) : Prop where
  inBuffer : 24 ≤ s.reader.size → ∀ b, s.written b = true → b < s.reader.size
  answer : ∀ n buf, s.reader.pc = .done (.ok n) buf → 0 ≤ n →
    ∃ c ∈ s.base.log, buf.read64 0 = c.stamp ∧ n = c.size

/-! ## The condition -/

/-- `base.size` of a slot. -/
def State.sizeWord (s : State) (k : Nat) : Int := ((s.ring k).read32 20).toInt

/-- A store that makes `n` the size in slot `k` does not come between two loads of it: not with a
size beyond the buffer after the comparison, and not with another size after the last comparison
of the stamp. -/
def StoreFits (s : State) (size : Nat) (k : Nat) (n : Int) : Pc → Prop
  | .size2 p => p.slot.toNat = k → n ≤ size
  | .stale p _ | .retSize p _ => p.slot.toNat = k → n = s.sizeWord k
  | _ => True

/-- A stamp that is accepted has no cleared word, and its low word is still the one that was
loaded. -/
def StampHeld (s : State) : Pc → Prop
  | .finHi p _ _ lo =>
      ofWords (s.hi p.slot.toNat) lo = p.ts →
        s.hi p.slot.toNat ≠ 0 ∧ lo ≠ 0 ∧ s.lo p.slot.toNat = lo
  | _ => True

def SizeGuard (s : PieceState) : PieceLabel → Prop
  | .store off len =>
      ∀ t ∈ s.base.writer.map Prod.fst,
        StoreFits s.base s.reader.size t.slot
          (((s.base.ring t.slot).copy off t.src off len).read32 20).toInt s.reader.pc
  | .read _ => StampHeld s.base s.reader.pc
  | _ => True

/-! ## Sizes in the slots -/

variable {cfg : Cfg} {s s' : State} {ps ps' : PieceState} {k : Nat} {t : Txn} {m : Mem}

/-- The size in the slot is not negative, whatever pieces it is made of. -/
def SizeSign (m : Mem) : Prop := (m 23).msb = false

theorem SizeSign.nonneg (h : SizeSign m) : 0 ≤ (m.read32 20).toInt := by
  rw [BitVec.toInt_eq_toNat_of_msb ((Mem.msb_read32 m 20).trans h)]
  omega

theorem Txn.sizeSign (t : Txn) : SizeSign t.src := by
  have hmsb : (t.src.read32 20).msb = false := by
    rw [BitVec.msb_eq_toInt, t.size_eq]
    exact decide_eq_false (by omega)
  rwa [Mem.msb_read32] at hmsb

theorem memcpyLength_eq {n : Int} (h0 : 0 ≤ n) (hlt : n < 2 ^ 64) : memcpyLength n = n.toNat := by
  rw [memcpyLength, Int.emod_eq_of_lt h0 hlt]

theorem memcpyLength_le (n : Nat) : memcpyLength n ≤ n := by
  unfold memcpyLength
  omega

theorem markDone_iff {done : Nat → Bool} {off len b : Nat} :
    markDone done off len b = true ↔ done b = true ∨ off ≤ b ∧ b < off + len := by
  simp [markDone]

/-- Outside its `memcpy` the writer leaves the size alone. -/
theorem writeStep_sizeByte {ph : Phase} (hph : ∀ i, ph ≠ .copy i) {b : Nat} (hb : 20 ≤ b) :
    (writeStep s t ph).ring k b = s.ring k b := by
  have hset {a : Nat} (v : BitVec 32) (ha : a + 4 ≤ 20) :
      (s.setSlot t.slot ((s.ring t.slot).write32 a v)).ring k b = s.ring k b := by
    by_cases hk : k = t.slot
    · subst hk
      rw [setSlot_ring_self, Mem.write32_outside (by omega)]
    · rw [setSlot_ring_ne s _ hk]
  cases ph with
  | copy i => exact absurd rfl (hph i)
  | dataTest =>
      rw [writeStep]
      split <;> rfl
  | publish => rfl
  | invHigh | invLow | dataLow | dataHigh | valLow | valHigh => exact hset _ (by omega)

theorem writeStep_sizeWord {ph : Phase} (hph : ∀ i, ph ≠ .copy i) :
    (writeStep s t ph).sizeWord k = s.sizeWord k := by
  unfold State.sizeWord
  rw [Mem.read32_congr fun b h1 _ => writeStep_sizeByte hph h1]

/-! ## The invariant -/

def SizeKnown (s : State) (size : Nat) : Pc → Prop
  | .size2 p => s.sizeWord p.slot.toNat ≤ size
  | .copy _ avail _ _ => memcpyLength avail ≤ size
  | .stale p buf | .retSize p buf =>
      ∃ c ∈ s.log, buf.read64 0 = c.stamp ∧ s.sizeWord p.slot.toNat = c.size
  | .done (.ok n) buf => ∃ c ∈ s.log, buf.read64 0 = c.stamp ∧ n = c.size
  | _ => True

/-- What the writer's `memcpy` has stored. -/
def StoredInv (s : PieceState) (t : Txn) : Phase → Prop
  | .invHigh | .invLow => ∀ b, s.stored b = false
  | .copy i => i = 0 ∧ ∀ b, b < t.size → s.stored b = true → s.base.ring t.slot b = t.src b
  | _ => True

structure PieceInv (s : PieceState) : Prop where
  shared : SharedInv s.base
  sign : ∀ k, SizeSign (s.base.ring k)
  copying : ∀ t ph, s.base.writer = some (t, ph) → StoredInv s t ph
  inBuffer : 24 ≤ s.reader.size → ∀ b, s.written b = true → b < s.reader.size
  known : SizeKnown s.base s.reader.size s.reader.pc

/-- A step of the writer that changes no size under the reader. -/
theorem SizeKnown.mono {size : Nat} {pc : Pc} (h : SizeKnown s size pc)
    (hlog : ∀ c ∈ s.log, c ∈ s'.log)
    (hsize : ∀ k, s'.sizeWord k = s.sizeWord k ∨ StoreFits s size k (s'.sizeWord k) pc) :
    SizeKnown s' size pc := by
  cases pc with
  | size2 p =>
      rcases hsize p.slot.toNat with heq | hfits
      · exact Int.le_trans (Int.le_of_eq heq) h
      · exact hfits rfl
  | stale p buf | retSize p buf =>
      obtain ⟨c, hc, hstamp, hword⟩ := h
      refine ⟨c, hlog c hc, hstamp, ?_⟩
      rcases hsize p.slot.toNat with heq | hfits
      · rw [heq, hword]
      · rw [hfits rfl, hword]
  | done ret buf =>
      cases ret with
      | ok n => exact h.imp fun c hc => ⟨hlog c hc.1, hc.2⟩
      | error e => trivial
  | copy p avail i buf => exact h
  | idle | histSlot | test | deletedTs | scanHi | scanLo | dataHi | dataLo | size1 | finLo
  | finHi => trivial

theorem sizeKnown_atEnd {size : Nat} {kept : Option Probe} :
    SizeKnown s size (match Mode.atEnd kept with
      | .take p => .size1 p
      | _ => .done (.error .notFound) .zero) := by
  split <;> trivial

theorem sizeKnown_onVerdict {size : Nat} {c : Cursor} {v : Verdict} :
    SizeKnown s size (onVerdict cfg c v) := by
  unfold onVerdict
  split
  · trivial
  · trivial
  · dsimp only
    split
    · exact sizeKnown_atEnd
    · trivial

/-- An accepted stamp is that of the record in the slot. -/
theorem sizeKnown_final {lo : BitVec 32} (h : SharedInv s)
    (hheld : s.hi k ≠ 0 ∧ lo ≠ 0 ∧ s.lo k = lo) (buf : Mem) :
    ∃ c ∈ s.log, (buf.write64 0 (ofWords (s.hi k) lo)).read64 0 = c.stamp ∧
      s.sizeWord k = c.size := by
  obtain ⟨hhi, hlo, heq⟩ := hheld
  obtain ⟨c, hmem, hcur, hhic⟩ := (h.slot k).hi hhi
  obtain ⟨d, hd, hlod, -⟩ := (h.slot k).lo (heq ▸ hlo)
  obtain rfl : c = d := Option.some.inj (hcur.symm.trans hd)
  refine ⟨c, hmem, ?_, size_of_here h ⟨hcur, heq ▸ hlo⟩⟩
  rw [Mem.read64_write64, ← heq, hhic, hlod, ofWords_hiWord_loWord]

/-- The loads of the reader outside its `memcpy`. -/
theorem readStep_sizeKnown {r : Reader} {tooOld : Bool} (h : SharedInv s)
    (hsign : ∀ k, SizeSign (s.ring k)) (hg : StampHeld s r.pc)
    (hpc : ∀ p avail i buf, r.pc ≠ .copy p avail i buf) (hk : SizeKnown s r.size r.pc) :
    SizeKnown s r.size (readStep cfg s r tooOld) := by
  unfold readStep
  split <;> rename_i heq <;> rw [heq] at hg hk
  · trivial
  · trivial
  · -- test
    split
    · exact sizeKnown_atEnd
    · split <;> trivial
  · split <;> trivial
  · trivial
  · -- scanLo
    split
    · trivial
    · exact sizeKnown_onVerdict
  · trivial
  · exact sizeKnown_onVerdict
  · -- size1
    rename_i p
    split
    · assumption
    · exact memcpyLength_le r.size
  · -- size2
    rename_i p
    have h0 : 0 ≤ s.sizeWord p.slot.toNat := (hsign p.slot.toNat).nonneg
    have hlt : s.sizeWord p.slot.toNat < 2 ^ 31 := BitVec.toInt_lt
    have hlen : memcpyLength (s.sizeWord p.slot.toNat) = (s.sizeWord p.slot.toNat).toNat :=
      memcpyLength_eq h0 (by omega)
    have hle : s.sizeWord p.slot.toNat ≤ r.size := hk
    show memcpyLength (s.sizeWord p.slot.toNat) ≤ r.size
    omega
  · exact absurd heq (hpc _ _ _ _)
  · trivial
  · -- finHi
    rename_i p avail buf lo
    dsimp only
    by_cases hts : ofWords ((s.ring p.slot.toNat).read32 4) lo = p.ts
    · have hheld := sizeKnown_final h (hg hts) buf
      rw [if_neg (not_not.mpr hts)]
      split <;> exact hheld
    · rw [if_pos hts]
      trivial
  · split
    · trivial
    · exact hk
  · exact hk
  · exact hk

/-! ## One step -/

theorem reader_setPc (ps : PieceState) (pc : Pc) :
    (ps.setPc pc).reader = { ps.reader with pc := pc } := by
  simp [PieceState.setPc, PieceState.reader, State.setReader]

/-- A piece of the writer's `memcpy` leaves the slot invalid. -/
theorem storePiece_stamp {off len : Nat} (hhi : m.read32 4 = 0) (hlo : m.read32 0 = 0) :
    (m.copy off t.src off len).read32 4 = 0 ∧ (m.copy off t.src off len).read32 0 = 0 := by
  obtain ⟨hs0, hs4⟩ := t.src_words
  have hword {a : Nat} (hm : m.read32 a = 0) (hsrc : t.src.read32 a = 0) :
      (m.copy off t.src off len).read32 a = 0 := by
    rw [← hm]
    refine Mem.read32_congr fun b h1 h2 => ?_
    obtain ⟨i, rfl⟩ := Nat.exists_eq_add_of_le h1
    have hi : i < 4 := by omega
    by_cases hin : off ≤ a + i ∧ a + i < off + len
    · rw [Mem.copy_inside hin.1 hin.2, Nat.add_sub_cancel' hin.1,
        Mem.byte_of_read32 t.src a hi, Mem.byte_of_read32 m a hi, hm, hsrc]
    · exact Mem.copy_outside (by omega)
  exact ⟨hword hhi hs4, hword hlo hs0⟩

/-- A piece of the writer's `memcpy`. -/
theorem pieceInv_store {off len i : Nat} (h : PieceInv ps)
    (hw : ps.base.writer = some (t, .copy i))
    (hg : StoreFits ps.base ps.reader.size t.slot
      (((ps.base.ring t.slot).copy off t.src off len).read32 20).toInt ps.reader.pc) :
    PieceInv { ps with
      base := (ps.base.setSlot t.slot
        ((ps.base.ring t.slot).copy off t.src off len)).setPhase t (.copy i)
      stored := markDone ps.stored off len } := by
  obtain ⟨rfl, hcopied⟩ := h.copying t _ hw
  have hfill : Filling ps.base t t.src (4 * 0) := h.shared.phase t _ hw
  obtain ⟨hhi, hlo⟩ : ((ps.base.ring t.slot).copy off t.src off len).read32 4 = 0 ∧
      ((ps.base.ring t.slot).copy off t.src off len).read32 0 = 0 :=
    storePiece_stamp hfill.hi hfill.lo
  refine ⟨h.shared.store hw (by simp) (by simp) (.of_invalid ?_ ?_) ⟨?_, ?_, ?_⟩, fun k => ?_,
    fun t' ph hw' => ?_, h.inBuffer, h.known.mono (fun _ => id) fun k => ?_⟩
  · simpa [State.hi] using hhi
  · simpa [State.lo] using hlo
  · simpa [State.hi] using hhi
  · simpa [State.lo] using hlo
  · intro b _ hb
    omega
  · -- the sign of the size is that of one of the two records
    by_cases hk : k = t.slot
    · subst hk
      simp only [setPhase_ring, setSlot_ring_self, SizeSign, Mem.copy]
      split
      · rw [Nat.add_sub_cancel' (by omega)]
        exact t.sizeSign
      · exact h.sign t.slot
    · simp only [setPhase_ring, setSlot_ring_ne _ _ hk]
      exact h.sign k
  · cases hw'
    refine ⟨rfl, fun b hb hdone => ?_⟩
    simp only [setPhase_ring, setSlot_ring_self]
    by_cases hin : off ≤ b ∧ b < off + len
    · rw [Mem.copy_inside hin.1 hin.2, Nat.add_sub_cancel' hin.1]
    · rw [Mem.copy_outside (by omega)]
      exact hcopied b hb ((markDone_iff.mp hdone).resolve_right hin)
  · by_cases hk : k = t.slot
    · subst hk
      right
      simpa [State.sizeWord] using hg
    · left
      simp [State.sizeWord, setSlot_ring_ne _ _ hk]

/-- The end of the writer's `memcpy`. -/
theorem pieceInv_stored {i : Nat} (h : PieceInv ps) (hw : ps.base.writer = some (t, .copy i))
    (hall : ∀ b < t.size, ps.stored b = true) :
    PieceInv { ps with base := ps.base.setPhase t .dataTest } := by
  obtain ⟨rfl, hcopied⟩ := h.copying t _ hw
  have hfill : Filling ps.base t t.src (4 * 0) := h.shared.phase t _ hw
  have hfull : PhaseInv ps.base t .dataTest :=
    ⟨hfill.hi, hfill.lo, fun b _ hb _ => hcopied b hb (hall b hb)⟩
  refine ⟨(h.shared.skip hw (by simp) (by simp) hfull).1, h.sign, fun t' ph hw' => ?_, h.inBuffer,
    h.known.mono (fun _ => id) fun k => Or.inl rfl⟩
  cases hw'
  trivial

theorem pieceInv_write {ph : Phase} (h : PieceInv ps) (hw : ps.base.writer = some (t, ph))
    (hph : ∀ i, ph ≠ .copy i) : PieceInv { ps with base := writeStep ps.base t ph } := by
  have hrd : (writeStep ps.base t ph).readers = ps.base.readers := by
    cases ph <;> simp only [writeStep] <;> (try split) <;> rfl
  have hreader : ({ ps with base := writeStep ps.base t ph } : PieceState).reader = ps.reader :=
    congrFun hrd 0
  obtain ⟨hshared, hevolves⟩ := writeStep_inv h.shared hw
  refine ⟨hshared, fun k => ?_, fun t' ph' hw' => ?_, ?_, ?_⟩
  · rw [SizeSign, writeStep_sizeByte hph (by omega)]
    exact h.sign k
  · have hstored := h.copying t ph hw
    cases ph with
    | copy i => exact absurd rfl (hph i)
    | invHigh => cases hw'; exact hstored
    | invLow =>
        cases hw'
        exact ⟨rfl, fun b _ hdone => absurd ((hstored b).symm.trans hdone) (by decide)⟩
    | dataTest =>
        simp only [writeStep] at hw'
        split at hw' <;> cases hw' <;> trivial
    | dataLow | dataHigh | valLow | valHigh => cases hw'; trivial
    | publish => cases hw'
  · rw [hreader]
    exact h.inBuffer
  · rw [hreader]
    exact h.known.mono hevolves.log fun k => Or.inl (writeStep_sizeWord hph)

/-- A step of the reader: what it stores and what it knows then. -/
theorem PieceInv.setPc {pc : Pc} {written : Nat → Bool} (h : PieceInv ps)
    (hbuf : 24 ≤ ps.reader.size → ∀ b, written b = true → b < ps.reader.size)
    (hknown : SizeKnown ps.base ps.reader.size pc) :
    PieceInv { ps.setPc pc with written := written } := by
  have hshared := (h.shared.frame (ps.base.setReader 0 { ps.reader with pc := pc })
    rfl rfl rfl rfl).1
  have hreader : ({ ps.setPc pc with written := written } : PieceState).reader =
      { ps.reader with pc := pc } := reader_setPc ps pc
  refine ⟨hshared, h.sign, fun t ph hw => ?_, ?_, ?_⟩
  · have hstored := h.copying t ph hw
    cases ph <;> exact hstored
  · rw [hreader]
    exact hbuf
  · rw [hreader]
    have hmono : SizeKnown (ps.base.setReader 0 { ps.reader with pc := pc }) ps.reader.size pc :=
      hknown.mono (fun _ => id) fun k => Or.inl rfl
    exact hmono

theorem writtenBy_inBuffer (h : PieceInv ps) (h24 : 24 ≤ ps.reader.size) {b : Nat}
    (hb : ps.writtenBy b = true) : b < ps.reader.size := by
  have hheader {off len : Nat} (hlen : off + len ≤ 24)
      (hb : markDone ps.written off len b = true) : b < ps.reader.size := by
    rcases markDone_iff.mp hb with hb | hb
    · exact h.inBuffer h24 b hb
    · omega
  unfold PieceState.writtenBy at hb
  cases hpc : ps.reader.pc <;> rw [hpc] at hb
  case copy => exact hheader (by omega) hb
  case finHi => exact hheader (by omega) hb
  all_goals exact h.inBuffer h24 b hb

theorem pieceInv_init : PieceInv ⟨State.init, fun _ => false, fun _ => false⟩ where
  shared := inv_init.shared
  sign _ := show (Mem.zero 23).msb = false by decide
  copying _ _ hw := by cases hw
  inBuffer _ _ hb := by cases hb
  known := trivial

theorem pieceInv_step {l : PieceLabel} (h : PieceInv ps) (hg : SizeGuard ps l)
    (hs : pieceStep cfg ps l = some ps') : PieceInv ps' := by
  cases l with
  | begin data committedTs =>
      obtain ⟨base, hbase, rfl⟩ := Option.map_eq_some_iff.mp hs
      simp only [step] at hbase
      split at hbase
      · rename_i t hw _
        split at hbase
        · rename_i hlater
          cases hbase
          refine ⟨(h.shared.begin hw hlater).1, h.sign, fun t' ph hw' => ?_, h.inBuffer,
            h.known.mono (fun _ => id) fun k => Or.inl rfl⟩
          cases hw'
          exact fun _ => rfl
        · cases hbase
      · cases hbase
  | write =>
      simp only [pieceStep] at hs
      split at hs
      · rename_i t i hw
        split at hs
        · rename_i hall
          cases hs
          exact pieceInv_stored h hw hall
        · cases hs
      · rename_i t ph hcopy hw
        cases hs
        exact pieceInv_write h hw fun i hi => hcopy i (by rw [hi])
      · cases hs
  | store off len =>
      simp only [pieceStep] at hs
      split at hs
      · rename_i t i hw
        split at hs
        · cases hs
          exact pieceInv_store h hw (hg t (by simp [hw]))
        · cases hs
      · cases hs
  | start mode ts size =>
      cases hs
      have hshared := (h.shared.frame (ps.base.setReader 0 ⟨mode, ts, size, .histSlot⟩)
        rfl rfl rfl rfl).1
      refine ⟨hshared, h.sign, fun t ph hw => ?_, fun _ b hb => (by cases hb), ?_⟩
      · have hstored := h.copying t ph hw
        cases ph <;> exact hstored
      · simp [PieceState.reader, State.setReader, SizeKnown]
  | read tooOld =>
      simp only [pieceStep] at hs
      split at hs
      · split at hs
        · cases hs
          exact h.setPc (fun h24 b hb => writtenBy_inBuffer h h24 hb) trivial
        · cases hs
      · rename_i hcopy
        cases hs
        exact h.setPc (fun h24 b hb => writtenBy_inBuffer h h24 hb)
          (readStep_sizeKnown h.shared h.sign hg hcopy h.known)
  | load off len =>
      simp only [pieceStep] at hs
      split at hs
      · rename_i p avail i buf hpc
        have hlen : memcpyLength avail ≤ ps.reader.size := by
          have hknown := h.known
          rwa [hpc] at hknown
        split at hs
        · cases hs
          refine h.setPc (fun h24 b hb => ?_) hlen
          rcases markDone_iff.mp hb with hb | hb
          · exact h.inBuffer h24 b hb
          · omega
        · cases hs
      · cases hs
  | delete =>
      cases hs
      refine ⟨(h.shared.frame { ps.base with deleted := true } rfl rfl rfl rfl).1, h.sign,
        fun t ph hw => ?_, h.inBuffer, h.known.mono (fun _ => id) fun k => Or.inl rfl⟩
      have hstored := h.copying t ph hw
      cases ph <;> exact hstored

/-- In every run in which no store changes the size under the reader between two of its loads,
and no stamp is accepted that is cleared or put together from two records, the buffer is kept and
the size answered is right. -/
theorem sizeRight_of_guarded (h : (pieceLts cfg).Guarded SizeGuard ps) : SizeRight ps := by
  have hinv : PieceInv ps :=
    h.invariant (fun _ h0 => by cases h0; exact pieceInv_init)
      fun _ _ _ hi hg hs => pieceInv_step hi hg hs
  refine ⟨hinv.inBuffer, fun n buf hpc _ => ?_⟩
  have hknown := hinv.known
  rwa [hpc] at hknown

/-! ## Schedules -/

instance decidableStoreFits (s : State) (size k : Nat) (n : Int) :
    (pc : Pc) → Decidable (StoreFits s size k n pc)
  | .size2 p => inferInstanceAs (Decidable (p.slot.toNat = k → n ≤ size))
  | .stale p _ => inferInstanceAs (Decidable (p.slot.toNat = k → n = s.sizeWord k))
  | .retSize p _ => inferInstanceAs (Decidable (p.slot.toNat = k → n = s.sizeWord k))
  | .idle | .histSlot | .test .. | .deletedTs .. | .scanHi .. | .scanLo .. | .dataHi ..
  | .dataLo .. | .size1 .. | .copy .. | .finLo .. | .finHi .. | .done .. => isTrue trivial

instance decidableStampHeld (s : State) : (pc : Pc) → Decidable (StampHeld s pc)
  | .finHi p _ _ lo =>
      inferInstanceAs (Decidable (ofWords (s.hi p.slot.toNat) lo = p.ts →
        s.hi p.slot.toNat ≠ 0 ∧ lo ≠ 0 ∧ s.lo p.slot.toNat = lo))
  | .idle | .histSlot | .test .. | .deletedTs .. | .scanHi .. | .scanLo .. | .dataHi ..
  | .dataLo .. | .size1 .. | .size2 .. | .copy .. | .finLo .. | .stale .. | .retSize ..
  | .done .. => isTrue trivial

instance decidableSizeGuard (s : PieceState) : (l : PieceLabel) → Decidable (SizeGuard s l)
  | .store off len =>
      inferInstanceAs (Decidable (∀ t ∈ s.base.writer.map Prod.fst,
        StoreFits s.base s.reader.size t.slot
          (((s.base.ring t.slot).copy off t.src off len).read32 20).toInt s.reader.pc))
  | .read _ => inferInstanceAs (Decidable (StampHeld s.base s.reader.pc))
  | .begin .. | .write | .start .. | .load .. | .delete => isTrue trivial

/-- An object with a single history slot and records of up to 64 bytes. -/
def sizesCfg : Cfg := { exampleCfg with sizeMax := 64 }

/-- A record of `n` bytes. -/
def sizedRecord (n : BitVec 32) : Mem := Mem.write32 (fun _ => 1) 20 n

/-- `writedata` up to the end of its `memcpy`, which copies the size before the rest. -/
def storeCall (n : BitVec 32) (committedTs : Timestamp) : List PieceLabel :=
  [.begin (sizedRecord n) committedTs, .write, .write, .store 20 4, .store 0 n.toNat, .write]

def commitCall : List PieceLabel := List.replicate 4 .write

def pieceReads (n : Nat) : List PieceLabel := List.replicate n (.read false)

/-- The guard admits reads that answer: one undisturbed commit and read. -/
theorem sizeRight_of_guarded_read :
    ∃ s, (pieceLts sizesCfg).Guarded SizeGuard s ∧ SizeRight s ∧
      answered s.base (fun buf => decide (buf.read64 0 = 0x100000005)) = true := by
  obtain ⟨s, hr, hp⟩ := (pieceLts sizesCfg).exists_of_execGuarded (G := SizeGuard)
    (g := fun s l => decide (SizeGuard s l)) (fun _ _ => of_decide_eq_true)
    (storeCall 32 0x100000005 ++ commitCall ++ .start .last 0 40 :: pieceReads 7 ++
      .load 16 16 :: .load 0 20 :: pieceReads 4)
    (fun s => answered s.base fun buf => decide (buf.read64 0 = 0x100000005))
    (s := ⟨State.init, fun _ => false, fun _ => false⟩) rfl (by decide +kernel)
  exact ⟨s, hr, sizeRight_of_guarded hr, hp⟩

/-- The writer stores a larger size between the comparison and the load of the length: 64 bytes
come into a buffer of 40. -/
theorem exists_not_sizeRight : ∃ s, (pieceLts sizesCfg).Reachable s ∧ ¬ SizeRight s := by
  obtain ⟨s, hr, hp⟩ := (pieceLts sizesCfg).exists_of_exec
    (storeCall 32 0x100000005 ++ commitCall ++ .start .last 0 40 :: pieceReads 6 ++
      storeCall 64 0x200000005 ++ pieceReads 1 ++ [.load 0 64])
    (fun s => decide (s.reader.size = 40 ∧ s.written 63 = true))
    (s := ⟨State.init, fun _ => false, fun _ => false⟩) rfl (by decide +kernel)
  obtain ⟨hsize, hwritten⟩ := of_decide_eq_true hp
  refine ⟨s, hr, fun h => ?_⟩
  have hlt := h.inBuffer (by omega) 63 hwritten
  omega

end KogmoRtdb.WordModel
