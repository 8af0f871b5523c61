import KogmoRtdb.Rtmalloc.FirstFit
import KogmoRtdb.Rtmalloc.Joining

/-!
# Blocks and their cells

Every outstanding block begins behind the header of a cell of its own (`Serves`). With the free
list, the alignment of the cells and the two totals this is what the allocator keeps
(`HeapInOrder`), whatever blocks are asked for and whichever of them are given back.
-/

namespace KogmoRtdb

variable {s s' : Allocator} {cs cs' pre post : List Cell} {c g new : Cell}
  {blocks : List HeapBlock} {b : HeapBlock} {n size heapSize rounds c1 : Nat}

/-! ## The blocks and their cells -/

/-- Every block begins behind the header of a cell of its own that is large enough for it and
not much larger. -/
structure Serves (mincell : Nat) (cs : List Cell) (blocks : List HeapBlock) : Prop where
  cell : ∀ b ∈ blocks, 0 < b.size ∧ ∃ c ∈ cs, b.idx = (c.ref + poff : Nat) ∧ b.size ≤ c.size ∧
    c.size ≤ b.size + (poff + 2 * mincell)
  block : ∀ c ∈ cs, ∃ b ∈ blocks, b.idx = (c.ref + poff : Nat)
  nodup : (blocks.map HeapBlock.idx).Nodup

theorem Allocator.le_rounded (s : Allocator) (size : Nat) : size ≤ s.rounded size := by
  unfold Allocator.rounded align
  split <;> omega

theorem Allocator.rounded_le (s : Allocator) (hmin : 8 ≤ s.mincell) (size : Nat) :
    s.rounded size ≤ size + s.mincell := by
  unfold Allocator.rounded align
  split <;> omega

namespace Serves

variable {mincell : Nat}

theorem nil (mincell : Nat) : Serves mincell [] [] :=
  ⟨fun _ hb => (by cases hb), fun _ hc => (by cases hc), List.nodup_nil⟩

theorem eq_of_idx {b' : HeapBlock} (h : Serves mincell cs blocks) (hb : b ∈ blocks)
    (hb' : b' ∈ blocks) (heq : b.idx = b'.idx) : b = b' :=
  List.inj_on_of_nodup_map h.nodup hb hb' heq

theorem alloc (h : Serves mincell cs blocks) (hperm : cs'.Perm (new :: cs))
    (hrefs : (cs'.map Cell.ref).Nodup) (hpos : 0 < size) (hle : size ≤ new.size)
    (hsnug : new.size ≤ size + (poff + 2 * mincell)) :
    Serves mincell cs' (⟨(new.ref + poff : Nat), size⟩ :: blocks) := by
  have hmem : ∀ c, c ∈ cs' ↔ c = new ∨ c ∈ cs := fun c => by
    rw [hperm.mem_iff, List.mem_cons]
  have hnew : new.ref ∉ cs.map Cell.ref :=
    (List.nodup_cons.mp ((hperm.map Cell.ref).nodup_iff.mp hrefs)).1
  refine ⟨fun b hb => ?_, fun c hc => ?_, ?_⟩
  · rcases List.mem_cons.mp hb with rfl | hb
    · exact ⟨by dsimp only; omega, new, (hmem new).mpr (Or.inl rfl), rfl, by dsimp only; omega,
        by dsimp only; omega⟩
    · obtain ⟨hpos, c, hc, hrest⟩ := h.cell b hb
      exact ⟨hpos, c, (hmem c).mpr (Or.inr hc), hrest⟩
  · rcases (hmem c).mp hc with rfl | hc
    · exact ⟨_, List.mem_cons_self, rfl⟩
    · obtain ⟨b, hb, hidx⟩ := h.block c hc
      exact ⟨b, List.mem_cons_of_mem _ hb, hidx⟩
  · refine List.nodup_cons.mpr ⟨fun hidx => ?_, h.nodup⟩
    obtain ⟨b, hb, heq⟩ := List.mem_map.mp hidx
    obtain ⟨-, c, hc, hidx, -⟩ := h.cell b hb
    refine hnew (List.mem_map.mpr ⟨c, hc, ?_⟩)
    dsimp only at heq
    omega

theorem free {before after : List Cell} (h : Serves mincell (before ++ c :: after) blocks)
    (hrefs : ((before ++ c :: after).map Cell.ref).Nodup) (hb : b ∈ blocks)
    (hidx : b.idx = (c.ref + poff : Nat)) : Serves mincell (before ++ after) (blocks.erase b) := by
  have hperm : (before ++ c :: after).Perm (c :: (before ++ after)) := List.perm_middle
  have hnot : c.ref ∉ (before ++ after).map Cell.ref :=
    (List.nodup_cons.mp ((hperm.map Cell.ref).nodup_iff.mp hrefs)).1
  have hblocks : blocks.Nodup := List.Nodup.of_map _ h.nodup
  refine ⟨fun b' hb' => ?_, fun c' hc' => ?_, h.nodup.sublist (List.erase_sublist.map _)⟩
  · obtain ⟨hne, hb'⟩ := hblocks.mem_erase_iff.mp hb'
    obtain ⟨hpos, c', hc', hidx', hrest⟩ := h.cell b' hb'
    refine ⟨hpos, c', ?_, hidx', hrest⟩
    rcases List.mem_cons.mp (hperm.mem_iff.mp hc') with rfl | hc'
    · exact absurd (h.eq_of_idx hb' hb (hidx'.trans hidx.symm)) hne
    · exact hc'
  · obtain ⟨b', hb', hidx'⟩ := h.block c' (hperm.mem_iff.mpr (List.mem_cons_of_mem c hc'))
    refine ⟨b', hblocks.mem_erase_iff.mpr ⟨?_, hb'⟩, hidx'⟩
    rintro rfl
    exact hnot (List.mem_map.mpr ⟨c', hc', by omega⟩)

end Serves

/-- The blocks are apart, with room for a header. -/
theorem Serves.apart {mincell : Nat} (hs : Serves mincell cs blocks) (h : FreeList s cs) :
    blocks.Pairwise fun (b b' : HeapBlock) =>
      b.idx + b.size + poff ≤ b'.idx ∨ b'.idx + b'.size + poff ≤ b.idx := by
  have hne : blocks.Pairwise fun b b' => b.idx ≠ b'.idx := List.pairwise_map.mp hs.nodup
  refine hne.imp_of_mem fun {b b'} hb hb' hne => ?_
  obtain ⟨-, c, hc, hidx, hle, -⟩ := hs.cell b hb
  obtain ⟨-, c', hc', hidx', hle', -⟩ := hs.cell b' hb'
  have hapart := h.laid.apart (List.mem_append_left _ hc) (List.mem_append_left _ hc')
    fun heq => hne (by rw [hidx, hidx', heq])
  unfold Gaps.Apart Gaps.stop at hapart
  omega

/-- They are behind the allocator's header and end in the heap. -/
theorem Serves.inside {mincell : Nat} (hs : Serves mincell cs blocks) (h : FreeList s cs)
    (hb : b ∈ blocks) : hdrsiz + poff ≤ b.idx ∧ b.idx + b.size + poff ≤ s.size := by
  obtain ⟨-, c, hc, hidx, hle, -⟩ := hs.cell b hb
  obtain ⟨hlo, hhi⟩ := h.laid.bounds hc
  unfold Gaps.stop at hhi
  omega

/-- The free cells are apart from them, with room for a header. -/
theorem Serves.gap_apart {mincell : Nat} (hs : Serves mincell cs blocks) (h : FreeList s cs)
    (hb : b ∈ blocks) (hg : g ∈ s.gaps cs) :
    b.idx + b.size ≤ g.ref ∨ (Gaps.stop poff g : Int) + poff ≤ b.idx := by
  obtain ⟨-, c, hc, hidx, hle, -⟩ := hs.cell b hb
  have hapart := h.laid.gap_apart hg hc
  unfold Gaps.stop at hapart ⊢
  omega

namespace FreeList

theorem refs_nodup (h : FreeList s cs) : (cs.map Cell.ref).Nodup := by
  refine List.pairwise_map.mpr (h.laid.pairwise.imp fun {c d} hle => ?_)
  unfold Gaps.stop poff at hle
  omega

theorem Handed.serves (hh : Handed s s' cs new cs') (h : FreeList s cs)
    (hs : Serves s.mincell cs blocks) (hpos : 0 < size)
    (hplace : Gaps.place poff s.mincell (s.rounded size) hdrsiz cs s.size = some (new, cs')) :
    Serves s'.mincell cs' (⟨(new.ref + poff : Nat), size⟩ :: blocks) := by
  obtain ⟨-, hperm, hle, hsnug⟩ := h.laid.place hplace
  have hrounded := s.rounded_le h.mincell size
  rw [hh.mincell]
  exact hs.alloc hperm hh.list.refs_nodup hpos (Nat.le_trans (s.le_rounded size) hle) (by omega)

theorem Returned.serves {before after : List Cell} {r : Allocator}
    (hr : Returned r s' (before ++ after)) (h : FreeList s (before ++ c :: after))
    (hs : Serves r.mincell (before ++ c :: after) blocks) (hb : b ∈ blocks)
    (hidx : b.idx = (c.ref + poff : Nat)) :
    Serves s'.mincell (before ++ after) (blocks.erase b) := by
  rw [hr.mincell]
  exact hs.free h.refs_nodup hb hidx

end FreeList

/-! ## What the allocator keeps -/

/-- What is stored in a block does not touch the list. -/
theorem FreeList.overwrite (h : FreeList s cs) (hc : c ∈ cs) {word : Nat → Nat}
    (hword : ∀ x, x < c.ref + poff ∨ Gaps.stop poff c ≤ x → word x = s.word x) :
    FreeList { s with word } cs := by
  have hc' : c ∈ cs ++ s.gaps cs := List.mem_append_left _ hc
  refine ⟨h.laid, fun d hd => ?_, h.large, h.links.congr fun x hx => ?_, h.tail, h.mincell,
    h.maxFree⟩
  · refine Eq.trans ?_ (h.header d hd)
    refine hword _ ?_
    by_cases hne : d = c
    · rw [hne]
      unfold poff
      omega
    · have hapart := h.laid.apart hd hc' hne
      unfold Gaps.Apart Gaps.stop poff at hapart
      unfold Gaps.stop poff
      omega
  · obtain ⟨g, hg, rfl⟩ := List.mem_map.mp hx
    have hg' : g ∈ cs ++ s.gaps cs := List.mem_append_right _ hg
    have hne : g ≠ c := fun heq => (h.gap_ne hg hc).1 (congrArg Cell.ref heq).symm
    have hlarge := h.large' hg'
    have hapart := h.laid.apart hg' hc' hne
    refine hword _ ?_
    unfold Gaps.Apart Gaps.stop at hapart
    unfold Gaps.stop
    omega

/-- The free list, and the outstanding blocks in their cells. -/
structure HeapInOrder (heapSize : Nat) (s : Allocator) (cs : List Cell) (blocks : List HeapBlock) :
    Prop where
  list : FreeList s cs
  serves : Serves s.mincell cs blocks
  aligned : ∀ c ∈ cs, 8 ∣ c.ref ∧ 8 ∣ c.size
  mincell : s.mincell = 1024
  size : s.size = heapSize
  total : s.allocTotal = s.freeTotal + (cs.map fun c => poff + c.size).sum

/-- Where among `cs` a request of `size` bytes is met: the new cell, and all of them. -/
def cellFor (heapSize : Nat) (cs : List Cell) (size : Nat) : Option (Cell × List Cell) :=
  Gaps.place poff 1024 (if size < 1024 then 1024 else align size) hdrsiz cs heapSize

theorem subaInit_fields {word : Nat → Nat} (h : subaInit word size 1024 = some s) :
    s.mincell = 1024 ∧ s.size = size ∧ s.allocTotal = 0 ∧ s.freeTotal = 0 := by
  unfold subaInit at h
  split at h
  · cases h
  · cases h
    exact ⟨rfl, rfl, rfl, rfl⟩

theorem freeList_init {word : Nat → Nat} {mincell : Nat} (h : subaInit word size mincell = some s)
    (hsize : hdrsiz + poff + s.mincell ≤ size) : FreeList s [] := by
  unfold subaInit at h
  split at h
  · cases h
  · rename_i hlt
    cases h
    have hgaps : Gaps.gaps poff hdrsiz [] size = [⟨hdrsiz, size - (hdrsiz + poff)⟩] :=
      Gaps.gap_of_lt (by unfold hdrsiz at *; omega)
    have hmin : 8 ≤ if 8 < mincell then align mincell else 8 := by
      unfold align
      split <;> omega
    refine ⟨Nat.le_of_not_ge hlt, ?_, ?_, ?_, ?_, hmin, rfl⟩
    · show ∀ c ∈ [] ++ Gaps.gaps poff hdrsiz [] size, _
      rw [hgaps]
      intro c hc
      obtain rfl := List.mem_singleton.mp hc
      have hne : hdrsiz ≠ hdrsiz + poff := by decide
      exact (setNext_cellSize_of_ne hne).trans (setSize_cellSize _ _ _)
    · show ∀ c ∈ [] ++ Gaps.gaps poff hdrsiz [] size, _
      rw [hgaps]
      intro c hc
      obtain rfl := List.mem_singleton.mp hc
      exact Nat.le_sub_of_add_le (by omega)
    · show Circular _ ((Gaps.gaps poff hdrsiz [] size).map Cell.ref)
      rw [hgaps]
      exact Circular.cons_iff.mpr (Leads.nil_iff.mpr (setNext_next _ hdrsiz hdrsiz))
    · show ((Gaps.gaps poff hdrsiz [] size).map Cell.ref).getLast? = _
      rw [hgaps]
      rfl

namespace HeapInOrder

/-- The heap as `kogmo_rtdb_obj_mem_init` leaves it, where it has room for a cell. -/
theorem initial {word : Nat → Nat} (hsize : 1160 ≤ heapSize)
    (hinit : subaInit word heapSize 1024 = some s) : HeapInOrder heapSize s [] [] := by
  obtain ⟨hmin, hsz, halloc, hfree⟩ := subaInit_fields hinit
  have hlist : FreeList s [] := freeList_init hinit (by rw [hmin]; unfold hdrsiz poff; omega)
  exact ⟨hlist, .nil _, fun c hc => (by cases hc), hmin, hsz, by rw [halloc, hfree]; rfl⟩

theorem place_eq (h : HeapInOrder heapSize s cs blocks) (size : Nat) :
    Gaps.place poff s.mincell (s.rounded size) hdrsiz cs s.size = cellFor heapSize cs size := by
  rw [Allocator.rounded, h.mincell, h.size]
  rfl

theorem alloc (h : HeapInOrder heapSize s cs blocks) (hpos : 0 < size) :
    cellFor heapSize cs size = none ∧ subaAlloc s size = some (none, s) ∨
      ∃ new cs' s', cellFor heapSize cs size = some (new, cs') ∧
        subaAlloc s size = some (some (new.ref + poff), s') ∧
        HeapInOrder heapSize s' cs' (⟨(new.ref + poff : Nat), size⟩ :: blocks) ∧
        FreeList.Handed s s' cs new cs' := by
  rw [← h.place_eq size]
  rcases h.list.alloc size with hnone | ⟨new, cs', s', hplace, hsome, hh⟩
  · exact Or.inl hnone
  · obtain ⟨-, hperm, -⟩ := h.list.laid.place hplace
    have hdvd : 8 ∣ s.rounded size := by
      unfold Allocator.rounded align
      rw [h.mincell]
      split <;> omega
    have hnew := Gaps.place_dvd (by decide) hdvd (by decide) h.aligned hplace
    refine Or.inr ⟨new, cs', s', hplace, hsome, ⟨hh.list, hh.serves h.list h.serves hpos hplace,
      fun c hc => ?_, hh.mincell.trans h.mincell, hh.size.trans h.size, ?_⟩, hh⟩
    · rcases List.mem_cons.mp (hperm.mem_iff.mp hc) with rfl | hc
      · exact hnew
      · exact h.aligned c hc
    · rw [hh.allocTotal, hh.freeTotal, h.total, (hperm.map fun c => poff + c.size).sum_eq,
        List.map_cons, List.sum_cons]
      omega

theorem free (h : HeapInOrder heapSize s cs blocks) (hb : b ∈ blocks) (hc : c ∈ cs)
    (hidx : b.idx = (c.ref + poff : Nat)) :
    ∃ s', subaFree s b.idx = some (0, s') ∧
      HeapInOrder heapSize s' (cs.erase c) (blocks.erase b) ∧
      ∀ d ∈ cs.erase c, ∀ a, d.ref ≤ a → a < Gaps.stop poff d → s'.word a = s.word a := by
  obtain ⟨before, after, s', rfl, hfree, hr⟩ := h.list.free hc
  have hperm : (before ++ c :: after).Perm (c :: (before ++ after)) := List.perm_middle
  have hnot : c ∉ before := fun hmem => by
    have hnodup := (hperm.map Cell.ref).nodup_iff.mp h.list.refs_nodup
    exact (List.nodup_cons.mp hnodup).1
      (List.mem_map.mpr ⟨c, List.mem_append_left _ hmem, rfl⟩)
  rw [List.erase_append_right _ hnot, List.erase_cons_head]
  have htotal := h.total
  rw [(hperm.map fun c => poff + c.size).sum_eq, List.map_cons, List.sum_cons] at htotal
  refine ⟨s', hidx ▸ hfree, ⟨hr.list, hr.serves h.list h.serves hb hidx,
    fun d hd => h.aligned d (hperm.mem_iff.mpr (List.mem_cons_of_mem c hd)),
    hr.mincell.trans h.mincell, hr.size.trans h.size, ?_⟩, hr.keeps⟩
  rw [hr.allocTotal, hr.freeTotal]
  dsimp only
  omega

/-- What is stored in a block does not touch the list. -/
theorem overwrite (h : HeapInOrder heapSize s cs blocks) (hc : c ∈ cs) {word : Nat → Nat}
    (hword : ∀ x, x < c.ref + poff ∨ Gaps.stop poff c ≤ x → word x = s.word x) :
    HeapInOrder heapSize { s with word } cs blocks :=
  ⟨h.list.overwrite hc hword, h.serves, h.aligned, h.mincell, h.size, h.total⟩

/-- The header, the blocks' cells and the gaps are all there is. -/
theorem accounts (h : HeapInOrder heapSize s cs blocks) :
    s.freeTotal ≤ s.allocTotal ∧ hdrsiz + ((s.allocTotal - s.freeTotal) +
      ((s.gaps cs).map fun g => poff + g.size).sum) = heapSize := by
  have hsum := h.list.laid.sum
  have htotal := h.total
  have hsz := h.size
  unfold Allocator.gaps
  omega

end HeapInOrder

/-! ## The free list as it is printed -/

theorem subaListFrom_of_leads (hleads : Leads s.next c1 (pre.map Cell.ref) g.ref)
    (hpre : ∀ x ∈ pre, poff ≤ x.ref ∧ x.ref < s.tail ∧ s.cellSize x.ref = x.size)
    (hg : g.ref = s.tail ∧ s.cellSize g.ref = g.size) (hrounds : pre.length < rounds) :
    subaListFrom s rounds c1 = some (pre ++ [g]) := by
  induction pre generalizing c1 rounds with
  | nil =>
      obtain ⟨rounds, rfl⟩ := Nat.exists_eq_succ_of_ne_zero (Nat.ne_zero_of_lt hrounds)
      have hnext : s.next c1 = g.ref := Leads.nil_iff.mp hleads
      simp only [subaListFrom, hnext]
      rw [if_neg (by omega), hg.2]
      rfl
  | cons x pre ih =>
      obtain ⟨rounds, rfl⟩ := Nat.exists_eq_succ_of_ne_zero (Nat.ne_zero_of_lt hrounds)
      obtain ⟨hnext, hrest⟩ := Leads.cons_iff.mp hleads
      obtain ⟨hge, hlt, hsize⟩ := hpre x List.mem_cons_self
      rw [List.length_cons] at hrounds
      have hrec := ih hrest (fun y hy => hpre y (List.mem_cons_of_mem x hy))
        (Nat.lt_of_succ_lt_succ hrounds)
      simp only [subaListFrom, hnext]
      rw [if_pos hlt, if_neg (Nat.not_lt.mpr hge), hrec, hsize]
      rfl

theorem FreeList.freeList_eq (h : FreeList s cs) : subaFreeList s = some (s.gaps cs) := by
  rcases List.eq_nil_or_concat (s.gaps cs) with hnil | ⟨pre, g, hg⟩
  · exact absurd hnil (h.laid.gaps_ne_nil (by decide))
  rw [List.concat_eq_append] at hg
  have hmem : g ∈ s.gaps cs := hg ▸ List.mem_append_right _ List.mem_cons_self
  have htail := (h.tail_iff hg).mpr rfl
  have hlen := h.laid.length_gaps (by decide)
  have heq := congrArg List.length hg
  rw [List.length_append] at heq
  unfold Allocator.gaps at heq
  have hgaps := h.gaps_pairwise
  rw [hg] at hgaps ⊢
  refine subaListFrom_of_leads (h.leads hg) (fun x hx => ?_)
    ⟨htail, h.header g (List.mem_append_right _ hmem)⟩ (by omega)
  have hx' : x ∈ s.gaps cs := hg ▸ List.mem_append_left _ hx
  have hlo := (h.laid.gap_bounds hx').1
  have hlt := (List.pairwise_append.mp hgaps).2.2 x hx g List.mem_cons_self
  unfold Gaps.stop poff at hlt
  unfold hdrsiz at hlo
  exact ⟨by unfold poff; omega, by omega, h.header x (List.mem_append_right _ hx')⟩

end KogmoRtdb
