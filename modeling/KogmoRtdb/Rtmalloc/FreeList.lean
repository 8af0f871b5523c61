import KogmoRtdb.Lib.Circular
import KogmoRtdb.Lib.Gaps
import KogmoRtdb.Rtmalloc.Suba

/-!
# The free list

Between its header and the end of the heap the allocator keeps outstanding cells, in the order of
their addresses, and gaps. `FreeList` says what is in memory: every cell and every gap has its size
in front, and the gaps are linked to a circular list that ends at `tail`.

What `suba_alloc` and `suba_free` store goes to the link of one gap and to the cells that they make
from others (`Edit`); all other cells are as they were.
-/

namespace KogmoRtdb

variable {s s' : Allocator} {cs cs' pre post : List Cell} {c g new : Cell}
  {n p lo hi size rounds c1 : Nat}

def Allocator.gaps (s : Allocator) (cs : List Cell) : List Cell := Gaps.gaps poff hdrsiz cs s.size

/-- What is in memory when `cs` are outstanding. -/
structure FreeList (s : Allocator) (cs : List Cell) : Prop where
  laid : Gaps.Laid poff hdrsiz cs s.size
  header : ∀ c ∈ cs ++ s.gaps cs, s.cellSize c.ref = c.size
  large : ∀ c ∈ cs ++ s.gaps cs, s.mincell ≤ c.size
  links : Circular s.next ((s.gaps cs).map Cell.ref)
  tail : ((s.gaps cs).map Cell.ref).getLast? = some s.tail
  mincell : 8 ≤ s.mincell
  maxFree : s.maxFree = s.size

/-- Stores to the link of the cell at `p` and between two addresses; nothing else in memory
changes. -/
structure Edit (s s' : Allocator) (p lo hi : Nat) : Prop where
  word : ∀ a, s'.word a = s.word a ∨ a = p + poff ∨ lo ≤ a ∧ a < hi
  mincell : s'.mincell = s.mincell
  size : s'.size = s.size
  maxFree : s'.maxFree = s.maxFree
  allocTotal : s'.allocTotal = s.allocTotal
  freeTotal : s'.freeTotal = s.freeTotal

namespace FreeList

theorem large' (h : FreeList s cs) (hc : c ∈ cs ++ s.gaps cs) : 8 ≤ c.size :=
  Nat.le_trans h.mincell (h.large c hc)

/-- A cell that is apart from the stores is as it was, up to its link. -/
theorem edit_word (h : FreeList s cs) (he : Edit s s' p lo hi)
    (hp : ∃ g ∈ s.gaps cs, g.ref = p) (hc : c ∈ cs ++ s.gaps cs)
    (hapart : Gaps.stop poff c ≤ lo ∨ hi ≤ c.ref) {a : Nat} (hlo : c.ref ≤ a)
    (hhi : a < Gaps.stop poff c) (hlink : c.ref = p → a ≠ p + poff) : s'.word a = s.word a := by
  rcases he.word a with heq | rfl | ⟨hle, hlt⟩
  · exact heq
  · obtain ⟨g, hg, rfl⟩ := hp
    have hg : g ∈ cs ++ s.gaps cs := List.mem_append_right _ hg
    have hne : c ≠ g := fun heq => hlink (heq ▸ rfl) rfl
    have hlarge := h.large' hg
    rcases h.laid.apart hc hg hne with hle | hle <;> unfold Gaps.stop at hle hhi <;> omega
  · omega

theorem edit_cellSize (h : FreeList s cs) (he : Edit s s' p lo hi)
    (hp : ∃ g ∈ s.gaps cs, g.ref = p) (hc : c ∈ cs ++ s.gaps cs)
    (hapart : Gaps.stop poff c ≤ lo ∨ hi ≤ c.ref) : s'.cellSize c.ref = s.cellSize c.ref := by
  refine h.edit_word he hp hc hapart (Nat.le_refl _) ?_ fun heq => ?_
  · unfold Gaps.stop poff
    omega
  · unfold poff
    omega

theorem edit_next (h : FreeList s cs) (he : Edit s s' p lo hi)
    (hp : ∃ g ∈ s.gaps cs, g.ref = p) (hc : c ∈ s.gaps cs)
    (hapart : Gaps.stop poff c ≤ lo ∨ hi ≤ c.ref) (hne : c.ref ≠ p) :
    s'.next c.ref = s.next c.ref := by
  have hc : c ∈ cs ++ s.gaps cs := List.mem_append_right _ hc
  have hlarge := h.large' hc
  refine h.edit_word he hp hc hapart (Nat.le_add_right _ _) ?_ fun heq => absurd heq hne
  unfold Gaps.stop
  omega

/-! ## The list in memory -/

theorem gaps_pairwise (h : FreeList s cs) :
    (s.gaps cs).Pairwise fun g g' => Gaps.stop poff g + poff ≤ g'.ref :=
  h.laid.gaps_pairwise

theorem nodup (h : FreeList s cs) : ((s.gaps cs).map Cell.ref).Nodup := by
  refine List.pairwise_map.mpr (h.gaps_pairwise.imp fun {g g'} hle => ?_)
  unfold Gaps.stop poff at hle
  omega

theorem addr (h : FreeList s cs) (hc : c ∈ s.gaps cs) : subaAddr s c.ref = true := by
  obtain ⟨hlo, hhi⟩ := h.laid.gap_bounds hc
  unfold Gaps.stop poff hdrsiz at *
  simp only [subaAddr, Bool.and_eq_true, decide_eq_true_eq]
  omega

/-- The last gap is at `tail`, and no other. -/
theorem tail_iff (h : FreeList s cs) (hg : s.gaps cs = pre ++ g :: post) :
    g.ref = s.tail ↔ post = [] := by
  have htail := h.tail
  have hnodup := h.nodup
  rw [hg] at htail hnodup
  constructor
  · intro heq
    rcases List.eq_nil_or_concat post with rfl | ⟨post, t, rfl⟩
    · rfl
    · simp only [List.map_append, List.map_cons, List.concat_eq_append, List.map_nil]
        at htail hnodup
      have ht : t.ref = s.tail := by
        have hlast := htail
        rw [← List.cons_append, ← List.append_assoc, List.getLast?_concat] at hlast
        exact Option.some.inj hlast
      rw [heq, ← ht] at hnodup
      have hcons := (List.nodup_append.mp hnodup).2.1
      exact absurd (List.mem_append_right _ (List.mem_singleton_self _))
        (List.nodup_cons.mp hcons).1
  · rintro rfl
    rw [List.map_append, List.map_cons, List.map_nil, List.getLast?_concat] at htail
    exact Option.some.inj htail

/-- From `tail` the links lead through the gaps before a gap to it. -/
theorem leads (h : FreeList s cs) (hg : s.gaps cs = pre ++ g :: post) :
    Leads s.next s.tail (pre.map Cell.ref) g.ref := by
  have hlinks := h.links
  have htail := h.tail_iff hg
  rw [hg, List.map_append, List.map_cons] at hlinks
  rcases List.eq_nil_or_concat post with rfl | ⟨post, t, rfl⟩
  · rw [htail.mpr rfl] at hlinks ⊢
    exact Circular.cons_iff.mp ((Circular.rotate _ [s.tail]).mp hlinks)
  · have ht : t.ref = s.tail := by
      have hlast : s.gaps cs = (pre ++ g :: post) ++ t :: [] := by
        rw [hg, List.concat_eq_append, List.append_assoc, List.cons_append]
      exact (h.tail_iff hlast).mpr rfl
    rw [List.concat_eq_append, List.map_append, List.map_cons, List.map_nil, ht,
      ← List.cons_append, ← List.append_assoc] at hlinks
    have hleads := Circular.cons_iff.mp ((Circular.rotate _ [s.tail]).mp hlinks)
    exact (Leads.append_iff.mp hleads).1

end FreeList

/-! ## Stores -/

@[simp] theorem store_word (s : Allocator) (r value : Nat) : (s.store r value).word r = value :=
  Function.update_self _ _ _

section Stores

variable {a r value : Nat}

theorem store_word_of_ne (h : a ≠ r) : (s.store r value).word a = s.word a :=
  Function.update_of_ne h _ _

@[simp] theorem setSize_cellSize (s : Allocator) (r value : Nat) :
    (s.setSize r value).cellSize r = value := store_word s r value

@[simp] theorem setSize_cellSize_of_ne (h : a ≠ r) :
    (s.setSize r value).cellSize a = s.cellSize a := store_word_of_ne h

@[simp] theorem setNext_cellSize_of_ne (h : a ≠ r + poff) :
    (s.setNext r value).cellSize a = s.cellSize a := store_word_of_ne h

@[simp] theorem setNext_next (s : Allocator) (r value : Nat) : (s.setNext r value).next r = value :=
  store_word s (r + poff) value

@[simp] theorem setNext_next_of_ne (h : a ≠ r) : (s.setNext r value).next a = s.next a :=
  store_word_of_ne fun heq => h (Nat.add_right_cancel heq)

@[simp] theorem setSize_next_of_ne (h : a + poff ≠ r) : (s.setSize r value).next a = s.next a :=
  store_word_of_ne h

@[simp] theorem setSize_tail (s : Allocator) (r value : Nat) : (s.setSize r value).tail = s.tail :=
  rfl

@[simp] theorem setNext_tail (s : Allocator) (r value : Nat) : (s.setNext r value).tail = s.tail :=
  rfl

@[simp] theorem retail_cellSize (s : Allocator) (t : Nat) :
    { s with tail := t }.cellSize a = s.cellSize a := rfl

@[simp] theorem retail_next (s : Allocator) (t : Nat) :
    { s with tail := t }.next a = s.next a := rfl

end Stores

namespace Edit

theorem refl (s : Allocator) (p lo hi : Nat) : Edit s s p lo hi :=
  ⟨fun _ => Or.inl rfl, rfl, rfl, rfl, rfl, rfl⟩

theorem store {a value : Nat} (h : Edit s s' p lo hi) (ha : a = p + poff ∨ lo ≤ a ∧ a < hi) :
    Edit s (s'.store a value) p lo hi := by
  refine ⟨fun b => ?_, h.mincell, h.size, h.maxFree, h.allocTotal, h.freeTotal⟩
  by_cases hb : b = a
  · exact Or.inr (hb ▸ ha)
  · have heq : (s'.store a value).word b = s'.word b := Function.update_of_ne hb _ _
    rw [heq]
    exact h.word b

/-- `tail` is not in memory. -/
theorem retail {t : Nat} (h : Edit s s' p lo hi) : Edit s { s' with tail := t } p lo hi :=
  ⟨h.word, h.mincell, h.size, h.maxFree, h.allocTotal, h.freeTotal⟩

end Edit

namespace FreeList

/-! ## One gap among the others -/

theorem getLast_gap (h : FreeList s cs) (hg : s.gaps cs = pre ++ g :: post) :
    (g.ref :: post.map Cell.ref).getLast? = some s.tail := by
  have htail := h.tail
  rwa [hg, List.map_append, List.map_cons, List.getLast?_append_cons] at htail

theorem getLast_exchange (h : FreeList s cs) (hg : s.gaps cs = pre ++ g :: post) (r : Nat) :
    (r :: post.map Cell.ref).getLast? = some (if g.ref = s.tail then r else s.tail) := by
  have hlast := h.getLast_gap hg
  cases post with
  | nil =>
      rw [if_pos ((h.tail_iff hg).mpr rfl)]
      rfl
  | cons x post =>
      rw [if_neg fun heq => List.cons_ne_nil _ _ ((h.tail_iff hg).mp heq)]
      rw [List.map_cons, List.getLast?_cons_cons] at hlast ⊢
      exact hlast

theorem circular_gap (h : FreeList s cs) (hg : s.gaps cs = pre ++ g :: post) :
    Circular s.next (g.ref :: (post ++ pre).map Cell.ref) := by
  have hlinks := h.links
  rw [hg, List.map_append] at hlinks
  have hrotated := (Circular.rotate _ _).mp hlinks
  rwa [List.map_cons, List.cons_append, ← List.map_append] at hrotated

theorem nodup_gap (h : FreeList s cs) (hg : s.gaps cs = pre ++ g :: post) :
    (g.ref :: (post ++ pre).map Cell.ref).Nodup := by
  have hnodup := h.nodup
  rw [hg, List.map_append] at hnodup
  have hswapped := List.nodup_append_comm.mp hnodup
  rwa [List.map_cons, List.cons_append, ← List.map_append] at hswapped

/-- The gap before it, which is the last one if it is the first. -/
theorem before_gap (h : FreeList s cs) (hg : s.gaps cs = pre ++ g :: post) :
    (pre.map Cell.ref).getLastD s.tail = ((post ++ pre).map Cell.ref).getLastD g.ref := by
  have hlast := h.getLast_gap hg
  rw [List.getLast?_cons] at hlast
  rw [List.map_append]
  rcases List.eq_nil_or_concat pre with rfl | ⟨pre, x, rfl⟩
  · rw [List.map_nil, List.append_nil, List.getLastD_eq_getLast?, List.getLastD_eq_getLast?,
      Option.some.inj hlast]
    rfl
  · simp

theorem exists_before (h : FreeList s cs) (hg : s.gaps cs = pre ++ g :: post) :
    ∃ x ∈ s.gaps cs, x.ref = (pre.map Cell.ref).getLastD s.tail := by
  have hmem : (pre.map Cell.ref).getLastD s.tail ∈ g.ref :: (post ++ pre).map Cell.ref := by
    rw [h.before_gap hg]
    exact List.getLastD_mem_cons
  have hmem : (pre.map Cell.ref).getLastD s.tail ∈ (s.gaps cs).map Cell.ref := by
    rw [hg, List.map_append, List.map_cons]
    simp only [List.map_append, List.mem_cons, List.mem_append] at hmem ⊢
    rcases hmem with hmem | hmem | hmem
    · exact Or.inr (Or.inl hmem)
    · exact Or.inr (Or.inr hmem)
    · exact Or.inl hmem
  exact List.mem_map.mp hmem

/-- The gap before it is apart from it, unless it is the gap itself. -/
theorem before_apart (h : FreeList s cs) (hg : s.gaps cs = pre ++ g :: post)
    (hp : (pre.map Cell.ref).getLastD s.tail = p) (hne : p ≠ g.ref) :
    p + poff < g.ref ∨ g.ref + poff + g.size ≤ p := by
  obtain ⟨x, hx, href⟩ := h.exists_before hg
  obtain rfl : x.ref = p := href.trans hp
  have hlarge := h.large' (List.mem_append_right _ hx)
  have hmem : g ∈ s.gaps cs := hg ▸ List.mem_append_right _ List.mem_cons_self
  have hapart := h.laid.apart (List.mem_append_right _ hx) (List.mem_append_right _ hmem)
    fun heq => hne (congrArg Cell.ref heq)
  unfold Gaps.Apart Gaps.stop at hapart
  omega

theorem other_mem (hg : s.gaps cs = pre ++ g :: post) (hc : c ∈ post ++ pre) : c ∈ s.gaps cs := by
  rw [hg]
  rcases List.mem_append.mp hc with hc | hc
  · exact List.mem_append_right _ (List.mem_cons_of_mem _ hc)
  · exact List.mem_append_left _ hc

/-- The other gaps lead where they did, but for the one before. -/
theorem other_next (h : FreeList s cs) (hg : s.gaps cs = pre ++ g :: post)
    (he : Edit s s' p g.ref (Gaps.stop poff g)) (hp : (pre.map Cell.ref).getLastD s.tail = p)
    {x : Nat} (hx : x ∈ (post ++ pre).map Cell.ref) (hne : x ≠ p) : s'.next x = s.next x := by
  obtain ⟨c, hc, rfl⟩ := List.mem_map.mp hx
  exact h.edit_next he (hp ▸ h.exists_before hg) (other_mem hg hc)
    (h.laid.apart_gap hg (Or.inr hc)) hne

theorem before_small (h : FreeList s cs) (hg : s.gaps cs = pre ++ g :: post)
    (hpre : ∀ x ∈ pre, x.size < n) :
    ∀ x ∈ pre, subaAddr s x.ref = true ∧ s.cellSize x.ref < n ∧ x.ref ≠ s.tail := by
  intro x hx
  have hmem : x ∈ s.gaps cs := hg ▸ List.mem_append_left _ hx
  refine ⟨h.addr hmem, ?_, fun heq => ?_⟩
  · rw [h.header x (List.mem_append_right _ hmem)]
    exact hpre x hx
  · obtain ⟨before, after, rfl⟩ := List.append_of_mem hx
    rw [List.append_assoc, List.cons_append] at hg
    have hnil := (h.tail_iff hg).mp heq
    exact List.append_ne_nil_of_right_ne_nil _ (List.cons_ne_nil _ _) hnil

theorem of_edit (h : FreeList s cs) (he : Edit s s' p lo hi) (hp : ∃ g ∈ s.gaps cs, g.ref = p)
    (hlaid : Gaps.Laid poff hdrsiz cs' s.size)
    (hcells : ∀ c ∈ cs' ++ s'.gaps cs',
      (c ∈ cs ++ s.gaps cs ∧ (Gaps.stop poff c ≤ lo ∨ hi ≤ c.ref)) ∨
        s'.cellSize c.ref = c.size ∧ s.mincell ≤ c.size)
    (hlinks : Circular s'.next ((s'.gaps cs').map Cell.ref))
    (htail : ((s'.gaps cs').map Cell.ref).getLast? = some s'.tail) : FreeList s' cs' where
  laid := by
    rw [he.size]
    exact hlaid
  header c hc := by
    rcases hcells c hc with ⟨hc, hapart⟩ | ⟨hsize, -⟩
    · exact (h.edit_cellSize he hp hc hapart).trans (h.header c hc)
    · exact hsize
  large c hc := by
    rw [he.mincell]
    rcases hcells c hc with ⟨hc, -⟩ | ⟨-, hlarge⟩
    · exact h.large c hc
    · exact hlarge
  links := hlinks
  tail := htail
  mincell := by
    rw [he.mincell]
    exact h.mincell
  maxFree := by
    rw [he.maxFree, he.size]
    exact h.maxFree

theorem totals (h : FreeList s cs) (allocTotal freeTotal sizeTotal : Nat) :
    FreeList { s with allocTotal, freeTotal, sizeTotal } cs :=
  ⟨h.laid, h.header, h.large, h.links, h.tail, h.mincell, h.maxFree⟩

end FreeList

end KogmoRtdb
