import KogmoRtdb.Lib.Lts
import KogmoRtdb.Rtmalloc.Serving

/-!
# Runs of the heap

The heap with those who use it: they ask for blocks, give back blocks that they have, and store
words in them. `SubaHeap.stored` remembers what was stored last in the outstanding blocks; the
allocator does not see it.
-/

namespace KogmoRtdb

/-- The allocator, the outstanding blocks with the sizes they were asked for, and what was stored
in them. -/
structure SubaHeap where
  allocator : Allocator
  blocks : List HeapBlock
  stored : Nat → Option Nat

inductive HeapCall where
  /-- `kogmo_rtdb_obj_mem_alloc` of a size that it accepts. -/
  | alloc (size : Nat)
  /-- `kogmo_rtdb_obj_mem_free` of an outstanding block. -/
  | free (b : HeapBlock)
  /-- A word is stored in an outstanding block. -/
  | store (addr value : Nat)

def InBlock (b : HeapBlock) (addr : Nat) : Prop := b.idx ≤ addr ∧ (addr : Int) < b.idx + b.size

instance (b : HeapBlock) (addr : Nat) : Decidable (InBlock b addr) :=
  inferInstanceAs (Decidable (_ ∧ _))

namespace SubaHeap

/-- After `suba_alloc`. -/
def handOut (s : SubaHeap) (size : Nat) : Option Nat × Allocator → SubaHeap
  | (none, a) => { s with allocator := a }
  | (some idx, a) =>
      { allocator := a
        blocks := ⟨idx, size⟩ :: s.blocks
        stored := fun addr => if InBlock ⟨idx, size⟩ addr then none else s.stored addr }

def step (s : SubaHeap) : HeapCall → Option SubaHeap
  | .alloc size => if size = 0 then none else (subaAlloc s.allocator size).map (s.handOut size)
  | .free b =>
      if b ∈ s.blocks then
        (subaFree s.allocator b.idx).map fun (_, a) =>
          { s with allocator := a, blocks := s.blocks.erase b }
      else none
  | .store addr value =>
      if ∃ b ∈ s.blocks, InBlock b addr then
        some { s with
          allocator := s.allocator.store addr value
          stored := Function.update s.stored addr (some value) }
      else none

end SubaHeap

/-- The heap from `kogmo_rtdb_obj_mem_init` on, in memory with any contents. -/
def heapLts (size : Nat) : Lts SubaHeap HeapCall where
  init s := ∃ word, subaInit word size 1024 = some s.allocator ∧ s.blocks = [] ∧
    s.stored = fun _ => none
  step := SubaHeap.step

variable {t t' : SubaHeap} {cs : List Cell} {b : HeapBlock} {n size heapSize : Nat}

/-! ## What holds throughout -/

/-- The allocator keeps the blocks, and what was stored in them. -/
structure HeapInv (heapSize : Nat) (t : SubaHeap) (cs : List Cell) : Prop where
  inOrder : HeapInOrder heapSize t.allocator cs t.blocks
  kept : ∀ b ∈ t.blocks, ∀ addr value, InBlock b addr → t.stored addr = some value →
    t.allocator.word addr = value

namespace HeapInv

theorem inBlock_cell {blocks : List HeapBlock} (h : Serves n cs blocks) (hb : b ∈ blocks)
    {addr : Nat} (hin : InBlock b addr) :
    ∃ c ∈ cs, c.ref + poff ≤ addr ∧ addr < Gaps.stop poff c := by
  obtain ⟨-, c, hc, hidx, hle, -⟩ := h.cell b hb
  obtain ⟨hlo, hhi⟩ := hin
  refine ⟨c, hc, by omega, ?_⟩
  unfold Gaps.stop
  omega

theorem alloc (h : HeapInv heapSize t cs) (hpos : 0 < size)
    (hs : SubaHeap.step t (.alloc size) = some t') : ∃ cs', HeapInv heapSize t' cs' := by
  simp only [SubaHeap.step] at hs
  rw [if_neg (Nat.pos_iff_ne_zero.mp hpos)] at hs
  rcases h.inOrder.alloc hpos with ⟨-, hnone⟩ | ⟨new, cs', s', -, hsome, hinOrder, hh⟩
  · rw [hnone] at hs
    cases hs
    exact ⟨cs, h⟩
  · rw [hsome] at hs
    cases hs
    refine ⟨cs', hinOrder, fun b hb addr value hin hstored => ?_⟩
    have hstored : (if InBlock ⟨(new.ref + poff : Nat), size⟩ addr then none
        else t.stored addr) = some value := hstored
    split at hstored
    · cases hstored
    · rename_i hnot
      rcases List.mem_cons.mp hb with rfl | hb
      · exact absurd hin hnot
      · obtain ⟨c, hc, hlo, hhi⟩ := inBlock_cell h.inOrder.serves hb hin
        exact (hh.keeps c hc addr (Nat.le_of_add_right_le hlo) hhi).trans
          (h.kept b hb addr value hin hstored)

theorem free (h : HeapInv heapSize t cs) (hs : SubaHeap.step t (.free b) = some t') :
    ∃ cs', HeapInv heapSize t' cs' := by
  simp only [SubaHeap.step] at hs
  split at hs
  · rename_i hb
    obtain ⟨-, c, hc, hidx, -⟩ := h.inOrder.serves.cell b hb
    obtain ⟨s', hfree, hinOrder, hkeeps⟩ := h.inOrder.free hb hc hidx
    rw [hfree] at hs
    cases hs
    refine ⟨cs.erase c, hinOrder, fun b' hb' addr value hin hstored => ?_⟩
    obtain ⟨d, hd, hlo, hhi⟩ := inBlock_cell hinOrder.serves hb' hin
    exact (hkeeps d hd addr (Nat.le_of_add_right_le hlo) hhi).trans
      (h.kept b' (List.mem_of_mem_erase hb') addr value hin hstored)
  · cases hs

theorem store {addr value : Nat} (h : HeapInv heapSize t cs)
    (hs : SubaHeap.step t (.store addr value) = some t') : HeapInv heapSize t' cs := by
  simp only [SubaHeap.step] at hs
  split at hs
  · rename_i hin
    obtain ⟨b, hb, hin⟩ := hin
    cases hs
    obtain ⟨c, hc, hlo, hhi⟩ := inBlock_cell h.inOrder.serves hb hin
    refine ⟨h.inOrder.overwrite hc fun x hx => store_word_of_ne (by omega),
      fun b' hb' addr' value' hin' hstored => ?_⟩
    by_cases heq : addr' = addr
    · subst heq
      have hstored : Function.update t.stored addr' (some value) addr' = some value' := hstored
      rw [Function.update_self] at hstored
      cases hstored
      exact store_word _ _ _
    · have hstored : Function.update t.stored addr (some value) addr' = some value' := hstored
      rw [Function.update_of_ne heq] at hstored
      exact (store_word_of_ne heq).trans (h.kept b' hb' addr' value' hin' hstored)
  · cases hs

theorem step {l : HeapCall} (h : HeapInv heapSize t cs) (hs : SubaHeap.step t l = some t') :
    ∃ cs', HeapInv heapSize t' cs' := by
  cases l with
  | alloc size =>
      rcases Nat.eq_zero_or_pos size with rfl | hpos
      · cases hs
      · exact h.alloc hpos hs
  | free b => exact h.free hs
  | store addr value => exact ⟨cs, h.store hs⟩

/-- Every run keeps it, where the heap has room for a cell. -/
theorem of_reachable (hsize : 1160 ≤ heapSize) (h : (heapLts heapSize).Reachable t) :
    ∃ cs, HeapInv heapSize t cs := by
  refine Lts.Reachable.invariant (I := fun t => ∃ cs, HeapInv heapSize t cs) (fun t ht => ?_)
    (fun t l t' ht hs => ?_) h
  · obtain ⟨word, hinit, hblocks, -⟩ := ht
    refine ⟨[], ?_, fun b hb => ?_⟩
    · rw [hblocks]
      exact .initial hsize hinit
    · rw [hblocks] at hb
      cases hb
  · obtain ⟨cs, ht⟩ := ht
    exact ht.step hs

end HeapInv

/-! ## What holds in every run -/

/-- A small heap, one of whose blocks is given back and taken again. -/
def heapSchedule : List HeapCall :=
  [.alloc 100, .alloc 3000, .alloc 7, .store 1176 42, .free ⟨136, 100⟩, .alloc 1500, .alloc 20]

theorem exists_heapSchedule : ∃ t, (heapLts 9000).Reachable t ∧
    t.blocks = [⟨136, 20⟩, ⟨5232, 1500⟩, ⟨4192, 7⟩, ⟨1176, 3000⟩] ∧ t.stored 1176 = some 42 := by
  obtain ⟨t, hr, hp⟩ := (heapLts 9000).exists_of_exec heapSchedule
    (fun t => decide (t.blocks = [⟨136, 20⟩, ⟨5232, 1500⟩, ⟨4192, 7⟩, ⟨1176, 3000⟩] ∧
      t.stored 1176 = some 42))
    (s := ⟨(subaInit (fun _ => 0) 9000 1024).get rfl, [], fun _ => none⟩)
    ⟨fun _ => 0, rfl, rfl, rfl⟩ (by decide +kernel)
  exact ⟨t, hr, of_decide_eq_true hp⟩

/-- Requests: in every run the search for a cell ends, and a request is refused exactly if
no gap but the last is large enough and the last one has no room for another cell behind this one.
A refused request changes nothing, and every outstanding block can be given back. -/
theorem subaAlloc_refused_iff (hsize : 1160 ≤ heapSize) (h : (heapLts heapSize).Reachable t)
    (size : Nat) :
    (∃ gaps idx a, subaFreeList t.allocator = some gaps ∧
      subaAlloc t.allocator size = some (idx, a) ∧
        (idx = none ↔ (∀ g ∈ gaps.dropLast, g.size < t.allocator.rounded size) ∧
          ∀ g ∈ gaps.getLast?, g.size ≤ poff + t.allocator.rounded size + 1024) ∧
        (idx = none → a = t.allocator)) ∧
      ∀ b ∈ t.blocks, ∃ a, subaFree t.allocator b.idx = some (0, a) := by
  obtain ⟨cs, hinv⟩ := HeapInv.of_reachable hsize h
  refine ⟨?_, fun b hb => ?_⟩
  · have hiff := hinv.inOrder.list.laid.place_eq_none_iff (n := t.allocator.rounded size)
      t.allocator.mincell (by decide)
    rw [hinv.inOrder.mincell] at hiff
    have hfree := hinv.inOrder.list.freeList_eq
    have halloc := hinv.inOrder.list.alloc size
    rw [hinv.inOrder.mincell] at halloc
    rcases halloc with ⟨hplace, halloc⟩ | ⟨new, cs', a, hplace, halloc, -⟩
    · exact ⟨_, none, _, hfree, halloc, iff_of_true rfl (hiff.mp hplace), fun _ => rfl⟩
    · refine ⟨_, some _, a, hfree, halloc, iff_of_false (Option.some_ne_none _) fun hsmall => ?_,
        fun hnone => absurd hnone (Option.some_ne_none _)⟩
      rw [hplace] at hiff
      exact Option.some_ne_none _ (hiff.mpr hsmall)
  · obtain ⟨-, c, hc, hidx, -⟩ := hinv.inOrder.serves.cell b hb
    obtain ⟨-, -, a, -, hfree, -⟩ := hinv.inOrder.list.free hc
    exact ⟨a, hidx ▸ hfree⟩

theorem subaAlloc_refused_iff_schedule :
    ∃ t : SubaHeap, t.blocks = [⟨136, 20⟩, ⟨5232, 1500⟩, ⟨4192, 7⟩, ⟨1176, 3000⟩] ∧
      ∃ a, subaFree t.allocator 4192 = some (0, a) := by
  obtain ⟨t, hr, hblocks, -⟩ := exists_heapSchedule
  refine ⟨t, hblocks, (subaAlloc_refused_iff (by decide) hr 1500).2 ⟨4192, 7⟩ ?_⟩
  rw [hblocks]
  decide

/-- Contents: in every run a word in an outstanding block is what was stored there last, whatever
the allocator has done since. -/
theorem heap_word_eq (hsize : 1160 ≤ heapSize) (h : (heapLts heapSize).Reachable t)
    (hb : b ∈ t.blocks) {addr value : Nat} (hin : InBlock b addr)
    (hstored : t.stored addr = some value) : t.allocator.word addr = value := by
  obtain ⟨cs, hinv⟩ := HeapInv.of_reachable hsize h
  exact hinv.kept b hb addr value hin hstored

theorem heap_word_eq_schedule :
    ∃ t : SubaHeap, ⟨5232, 1500⟩ ∈ t.blocks ∧ t.allocator.word 1176 = 42 := by
  obtain ⟨t, hr, hblocks, hstored⟩ := exists_heapSchedule
  have hb : ⟨1176, 3000⟩ ∈ t.blocks := by
    rw [hblocks]
    decide
  refine ⟨t, ?_, heap_word_eq (by decide) hr hb (by decide) hstored⟩
  rw [hblocks]
  decide

/-- Accounting: in every run the header, the free list and what `alloc_total` is ahead of
`free_total` make up the heap; no two free cells touch; and without blocks the heap is one free
cell again. -/
theorem heap_accounts (hsize : 1160 ≤ heapSize) (h : (heapLts heapSize).Reachable t) :
    ∃ gaps, subaFreeList t.allocator = some gaps ∧
      t.allocator.freeTotal ≤ t.allocator.allocTotal ∧
      hdrsiz + ((t.allocator.allocTotal - t.allocator.freeTotal) +
        (gaps.map fun g => poff + g.size).sum) = heapSize ∧
      gaps.Pairwise (fun g g' => Gaps.stop poff g + poff ≤ g'.ref) ∧
      (t.blocks = [] → gaps = [⟨hdrsiz, heapSize - (hdrsiz + poff)⟩]) := by
  obtain ⟨cs, hinv⟩ := HeapInv.of_reachable hsize h
  obtain ⟨hle, hsum⟩ := hinv.inOrder.accounts
  refine ⟨_, hinv.inOrder.list.freeList_eq, hle, hsum, hinv.inOrder.list.gaps_pairwise,
    fun hnil => ?_⟩
  · have hcs : cs = [] := by
      refine List.eq_nil_iff_forall_not_mem.mpr fun c hc => ?_
      obtain ⟨b, hb, -⟩ := hinv.inOrder.serves.block c hc
      rw [hnil] at hb
      cases hb
    rw [hcs, Allocator.gaps, hinv.inOrder.size]
    exact Gaps.gap_of_lt (by unfold hdrsiz; omega)

theorem heap_accounts_schedule :
    ∃ t : SubaHeap, ⟨1176, 3000⟩ ∈ t.blocks ∧ t.allocator.freeTotal ≤ t.allocator.allocTotal := by
  obtain ⟨t, hr, hblocks, -⟩ := exists_heapSchedule
  obtain ⟨-, -, hle, -⟩ := heap_accounts (by decide) hr
  refine ⟨t, ?_, hle⟩
  rw [hblocks]
  decide

/-- Blocks: in every run they are aligned to 8 bytes, lie behind the header and inside the heap,
with room for a cell's header between any two of them and between them and the free cells. -/
theorem heap_blocks_apart (hsize : 1160 ≤ heapSize) (h : (heapLts heapSize).Reachable t) :
    (∀ b ∈ t.blocks, 8 ∣ b.idx ∧ hdrsiz + poff ≤ b.idx ∧ b.idx + b.size ≤ heapSize) ∧
      t.blocks.Pairwise (fun (b b' : HeapBlock) =>
        b.idx + b.size + poff ≤ b'.idx ∨ b'.idx + b'.size + poff ≤ b.idx) ∧
      ∃ gaps, subaFreeList t.allocator = some gaps ∧ ∀ b ∈ t.blocks, ∀ g ∈ gaps,
        b.idx + b.size ≤ g.ref ∨ (Gaps.stop poff g : Int) + poff ≤ b.idx := by
  obtain ⟨cs, hinv⟩ := HeapInv.of_reachable hsize h
  have hsz := hinv.inOrder.size
  refine ⟨fun b hb => ?_, hinv.inOrder.serves.apart hinv.inOrder.list, _,
    hinv.inOrder.list.freeList_eq, fun b hb g hg => ?_⟩
  · obtain ⟨-, c, hc, hidx, -⟩ := hinv.inOrder.serves.cell b hb
    obtain ⟨hdvd, -⟩ := hinv.inOrder.aligned c hc
    obtain ⟨hlo, hhi⟩ := hinv.inOrder.serves.inside hinv.inOrder.list hb
    unfold poff at *
    omega
  · exact hinv.inOrder.serves.gap_apart hinv.inOrder.list hb hg

theorem heap_blocks_apart_schedule :
    ∃ t : SubaHeap, t.blocks = [⟨136, 20⟩, ⟨5232, 1500⟩, ⟨4192, 7⟩, ⟨1176, 3000⟩] ∧
      ∀ b ∈ t.blocks, (8 : Int) ∣ b.idx := by
  obtain ⟨t, hr, hblocks, -⟩ := exists_heapSchedule
  exact ⟨t, hblocks, fun b hb => ((heap_blocks_apart (by decide) hr).1 b hb).1⟩

end KogmoRtdb
