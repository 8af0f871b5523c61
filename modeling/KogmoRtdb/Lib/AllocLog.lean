import Mathlib.Data.List.Pairwise

/-!
# Histories of an allocator

The calls made to an allocator, newest first, and what they say about the
blocks: which are outstanding, and whether every block given back was one of
them. An allocator is a function of the history; what it promises
(`AllocSound`) presupposes that no block was given back that was not
outstanding.
-/

universe u

structure HeapBlock where
  idx : Int
  size : Int
  deriving DecidableEq

inductive HeapEvent where
  | alloc (b : HeapBlock)
  | free (b : HeapBlock)
  deriving DecidableEq

namespace HeapBlock

def Apart (a b : HeapBlock) : Prop := a.idx + a.size ≤ b.idx ∨ b.idx + b.size ≤ a.idx

instance : Std.Symm Apart := ⟨fun _ _ => Or.symm⟩

/-- Blocks with an address are not apart from themselves. -/
theorem Apart.idx_ne {a b : HeapBlock} (h : a.Apart b) (ha : 0 < a.size) (hb : 0 < b.size) :
    a.idx ≠ b.idx := by
  unfold Apart at h
  omega

end HeapBlock

def liveBlocks : List HeapEvent → List HeapBlock
  | [] => []
  | .alloc b :: es => b :: liveBlocks es
  | .free b :: es => (liveBlocks es).erase b

def LegitFrees : List HeapEvent → Prop
  | [] => True
  | .alloc _ :: es => LegitFrees es
  | .free b :: es => b ∈ liveBlocks es ∧ LegitFrees es

instance decidableLegitFrees : DecidablePred LegitFrees
  | [] => inferInstanceAs (Decidable True)
  | .alloc _ :: es => decidableLegitFrees es
  | .free b :: es =>
      have := decidableLegitFrees es
      inferInstanceAs (Decidable (b ∈ liveBlocks es ∧ LegitFrees es))

/-- The promise of an allocator: a block it hands out lies between 0 and `limit`, apart
from all outstanding ones. -/
def AllocSound (limit : Int) (alloc : List HeapEvent → Int → Option Int) : Prop :=
  ∀ es size idx, LegitFrees es → 0 < size → alloc es size = some idx →
    0 ≤ idx ∧ idx + size ≤ limit ∧ ∀ b ∈ liveBlocks es, b.Apart ⟨idx, size⟩

/-- What holds of the outstanding blocks of a sound allocator. -/
structure LiveInv (limit : Int) (es : List HeapEvent) : Prop where
  legit : LegitFrees es
  pos : ∀ b ∈ liveBlocks es, 0 < b.size
  inside : ∀ b ∈ liveBlocks es, 0 ≤ b.idx ∧ b.idx + b.size ≤ limit
  apart : (liveBlocks es).Pairwise HeapBlock.Apart

namespace LiveInv

variable {limit : Int} {es : List HeapEvent} {b : HeapBlock}

theorem nil : LiveInv limit [] where
  legit := trivial
  pos := by simp [liveBlocks]
  inside := by simp [liveBlocks]
  apart := by simp [liveBlocks]

theorem alloc {f : List HeapEvent → Int → Option Int} {size idx : Int} (h : LiveInv limit es)
    (hf : AllocSound limit f) (hpos : 0 < size) (hsome : f es size = some idx) :
    LiveInv limit (.alloc ⟨idx, size⟩ :: es) := by
  obtain ⟨h0, hend, hapart⟩ := hf es size idx h.legit hpos hsome
  refine ⟨h.legit, ?_, ?_, ?_⟩
  · intro b hb
    rcases List.mem_cons.mp hb with rfl | hb
    · exact hpos
    · exact h.pos b hb
  · intro b hb
    rcases List.mem_cons.mp hb with rfl | hb
    · exact ⟨h0, hend⟩
    · exact h.inside b hb
  · exact List.pairwise_cons.mpr ⟨fun b hb => symm (hapart b hb), h.apart⟩

theorem free (h : LiveInv limit es) (hb : b ∈ liveBlocks es) :
    LiveInv limit (.free b :: es) where
  legit := ⟨hb, h.legit⟩
  pos c hc := h.pos c (List.mem_of_mem_erase hc)
  inside c hc := h.inside c (List.mem_of_mem_erase hc)
  apart := h.apart.sublist List.erase_sublist

theorem apart_of_idx_ne {c : HeapBlock} (h : LiveInv limit es) (hb : b ∈ liveBlocks es)
    (hc : c ∈ liveBlocks es) (hne : b.idx ≠ c.idx) : b.Apart c :=
  h.apart.forall hb hc fun heq => hne (congrArg HeapBlock.idx heq)

end LiveInv

/-- A block stays outstanding while others are given back. -/
theorem mem_liveBlocks_free {es : List HeapEvent} {b c : HeapBlock} (hb : b ∈ liveBlocks es)
    (hne : b ≠ c) : b ∈ liveBlocks (.free c :: es) := (List.mem_erase_of_ne hne).mpr hb

/-! ## Blocks and their holders -/

/-- Every holder's block is outstanding, and no two holders have the same one. -/
structure Held {ω : Type u} (limit : Int) (es : List HeapEvent) (block : ω → Option HeapBlock) :
    Prop where
  live : LiveInv limit es
  mem : ∀ o b, block o = some b → b ∈ liveBlocks es
  excl : ∀ o o' b b', block o = some b → block o' = some b' → b.idx = b'.idx → o = o'

namespace Held

variable {ω : Type u} {limit : Int} {es : List HeapEvent} {block block' : ω → Option HeapBlock}
  {o o' : ω} {b b' : HeapBlock}

theorem pos (h : Held limit es block) (hb : block o = some b) : 0 < b.size :=
  h.live.pos b (h.mem o b hb)

/-- The blocks of two holders have no address in common. -/
theorem apart (h : Held limit es block) (hb : block o = some b) (hb' : block o' = some b')
    (hne : o ≠ o') : b.Apart b' :=
  h.live.apart_of_idx_ne (h.mem o b hb) (h.mem o' b' hb') fun heq =>
    hne (h.excl o o' b b' hb hb' heq)

theorem pass {σ : ω → ω} (h : Held limit es block) (hσ : Function.Injective σ)
    (hle : ∀ o b, block' o = some b → block (σ o) = some b) : Held limit es block' where
  live := h.live
  mem o b hb := h.mem (σ o) b (hle o b hb)
  excl o o' b b' hb hb' heq := hσ (h.excl _ _ b b' (hle o b hb) (hle o' b' hb') heq)

/-- A new block comes into the hands of `p`. -/
theorem alloc {f : List HeapEvent → Int → Option Int} {size idx : Int} {p : ω}
    (h : Held limit es block) (hf : AllocSound limit f) (hpos : 0 < size)
    (hsome : f es size = some idx)
    (hle : ∀ o b, block' o = some b → o ≠ p ∧ block o = some b ∨ o = p ∧ b = ⟨idx, size⟩) :
    Held limit (.alloc ⟨idx, size⟩ :: es) block' := by
  have hnew : ∀ o b, block o = some b → b.idx ≠ idx := fun o b hb =>
    ((hf es size idx h.live.legit hpos hsome).2.2 b (h.mem o b hb)).idx_ne (h.pos hb) hpos
  refine ⟨h.live.alloc hf hpos hsome, fun o b hb => ?_, fun o o' b b' hb hb' heq => ?_⟩
  · rcases hle o b hb with ⟨-, hb⟩ | ⟨-, rfl⟩
    · exact List.mem_cons_of_mem _ (h.mem o b hb)
    · exact List.mem_cons_self
  · rcases hle o b hb with ⟨-, hb⟩ | ⟨rfl, rfl⟩ <;> rcases hle o' b' hb' with ⟨-, hb'⟩ | ⟨rfl, rfl⟩
    · exact h.excl o o' b b' hb hb' heq
    · exact absurd heq (hnew o b hb)
    · exact absurd heq.symm (hnew o' b' hb')
    · rfl

/-- `p` gives its block back. -/
theorem free {p : ω} (h : Held limit es block) (hb : block p = some b)
    (hle : ∀ o c, block' o = some c → o ≠ p ∧ block o = some c) :
    Held limit (.free b :: es) block' where
  live := h.live.free (h.mem p b hb)
  mem o c hc := by
    obtain ⟨hne, hc⟩ := hle o c hc
    refine mem_liveBlocks_free (h.mem o c hc) fun heq => hne ?_
    exact h.excl o p c b hc hb (congrArg HeapBlock.idx heq)
  excl o o' c c' hc hc' heq := h.excl o o' c c' (hle o c hc).2 (hle o' c' hc').2 heq

end Held

/-! ## Room for a block -/

/-- Between the blocks there is a free range of `size` addresses below `limit`. -/
def HasRoom (limit : Int) (blocks : List HeapBlock) (size : Int) : Prop :=
  ∃ idx, 0 ≤ idx ∧ idx + size ≤ limit ∧ ∀ b ∈ blocks, b.Apart ⟨idx, size⟩

/-- An allocator that succeeds whenever a large enough free range exists, and only then. -/
def FindsRoom (limit : Int) (alloc : List HeapEvent → Int → Option Int) : Prop :=
  ∀ es size, 0 < size →
    ((∃ idx, alloc es size = some idx ∧ 0 ≤ idx) ↔ HasRoom limit (liveBlocks es) size)

/-- The first of the places next to a block where the new one fits. -/
def firstFit (limit : Int) (blocks : List HeapBlock) (size : Int) : Option Int :=
  (0 :: blocks.map fun b => b.idx + b.size).find? fun idx =>
    0 ≤ idx ∧ idx + size ≤ limit ∧ ∀ b ∈ blocks, b.idx + b.size ≤ idx ∨ idx + size ≤ b.idx

/-- Among the ends of blocks up to a place, and 0, there is a last one. -/
theorem exists_last_end {idx : Int} (hidx : 0 ≤ idx) (ends : List Int) :
    ∃ c ∈ 0 :: ends, 0 ≤ c ∧ c ≤ idx ∧ ∀ e ∈ ends, e ≤ idx → e ≤ c := by
  induction ends with
  | nil => exact ⟨0, List.mem_cons_self, Int.le_refl 0, hidx, by simp⟩
  | cons e ends ih =>
      obtain ⟨c, hc, h0, hle, hlast⟩ := ih
      have hc' : c ∈ 0 :: e :: ends := by
        rcases List.mem_cons.mp hc with rfl | hc
        · exact List.mem_cons_self
        · exact List.mem_cons_of_mem _ (List.mem_cons_of_mem _ hc)
      by_cases he : e ≤ idx ∧ c ≤ e
      · refine ⟨e, by simp, by omega, he.1, fun x hx hxle => ?_⟩
        rcases List.mem_cons.mp hx with rfl | hx
        · exact Int.le_refl _
        · exact Int.le_trans (hlast x hx hxle) he.2
      · refine ⟨c, hc', h0, hle, fun x hx hxle => ?_⟩
        rcases List.mem_cons.mp hx with rfl | hx
        · omega
        · exact hlast x hx hxle

theorem firstFit_isSome_iff {limit size : Int} {blocks : List HeapBlock} :
    (∃ idx, firstFit limit blocks size = some idx ∧ 0 ≤ idx) ↔ HasRoom limit blocks size := by
  constructor
  · rintro ⟨idx, hfit, h0⟩
    have hplace := List.find?_some hfit
    simp only [decide_eq_true_eq] at hplace
    exact ⟨idx, hplace⟩
  · rintro ⟨idx, h0, hend, hapart⟩
    -- The block moves down to the last end below it.
    obtain ⟨c, hc, hc0, hle, hlast⟩ := exists_last_end h0 (blocks.map fun b => b.idx + b.size)
    have hplace : (firstFit limit blocks size).isSome = true := by
      refine List.find?_isSome.mpr ⟨c, hc, ?_⟩
      simp only [decide_eq_true_eq]
      refine ⟨hc0, by omega, fun b hb => ?_⟩
      rcases hapart b hb with hbefore | hafter
      · exact Or.inl (hlast _ (List.mem_map_of_mem hb) hbefore)
      · exact Or.inr (by dsimp only at hafter; omega)
    obtain ⟨idx', hfit⟩ := Option.isSome_iff_exists.mp hplace
    have hplace' := List.find?_some hfit
    simp only [decide_eq_true_eq] at hplace'
    exact ⟨idx', hfit, hplace'.1⟩

theorem findsRoom_firstFit (limit : Int) :
    FindsRoom limit fun es size => firstFit limit (liveBlocks es) size :=
  fun _ _ _ => firstFit_isSome_iff

instance (limit : Int) (blocks : List HeapBlock) (size : Int) :
    Decidable (HasRoom limit blocks size) :=
  decidable_of_iff ((firstFit limit blocks size).isSome = true) <| by
    rw [← firstFit_isSome_iff, Option.isSome_iff_exists]
    refine ⟨fun ⟨idx, hfit⟩ => ⟨idx, hfit, ?_⟩, fun ⟨idx, hfit, _⟩ => ⟨idx, hfit⟩⟩
    have hplace := List.find?_some hfit
    simp only [decide_eq_true_eq] at hplace
    exact hplace.1

theorem liveBlocks_frees (blocks : List HeapBlock) (es : List HeapEvent) :
    liveBlocks ((blocks.map HeapEvent.free).reverse ++ es) = (liveBlocks es).diff blocks := by
  induction blocks generalizing es with
  | nil => rw [List.map_nil, List.reverse_nil, List.nil_append, List.diff_nil]
  | cons b blocks ih =>
      rw [List.map_cons, List.reverse_cons, List.append_assoc, List.singleton_append, ih,
        List.diff_cons]
      rfl

/-! ## Blocks that are refused -/

/-- A block given back that lies before the first address. -/
def HeapEvent.refused : HeapEvent → Bool
  | .alloc _ => false
  | .free b => b.idx < 0

def acceptedCalls (es : List HeapEvent) : List HeapEvent := es.filter fun e => !e.refused

/-- An allocator that refuses a block before the first address: it goes on as if the block had
not been given back. -/
def RefusesNegative (alloc : List HeapEvent → Int → Option Int) : Prop :=
  ∀ es size, alloc es size = alloc (acceptedCalls es) size

theorem acceptedCalls_alloc (b : HeapBlock) (es : List HeapEvent) :
    acceptedCalls (.alloc b :: es) = .alloc b :: acceptedCalls es := rfl

theorem acceptedCalls_free {b : HeapBlock} (hb : 0 ≤ b.idx) (es : List HeapEvent) :
    acceptedCalls (.free b :: es) = .free b :: acceptedCalls es := by
  have hnot : ¬ b.idx < 0 := by omega
  simp [acceptedCalls, HeapEvent.refused, hnot]

theorem acceptedCalls_refused {b : HeapBlock} (hb : b.idx < 0) (es : List HeapEvent) :
    acceptedCalls (.free b :: es) = acceptedCalls es := by
  simp [acceptedCalls, HeapEvent.refused, hb]
