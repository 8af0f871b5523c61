import KogmoRtdb.Meta.BlockSizes
import KogmoRtdb.Meta.RefusedFrees
import KogmoRtdb.Rtmalloc.Serving

/-!
# The allocator that the database is built with

What the rest of the database presupposes of its allocator, `suba_alloc` and `suba_free` keep: a
block is apart from all that are outstanding, a pointer before the heap is refused, and no block is
at index 0.
-/

namespace KogmoRtdb

variable {s : Allocator} {heapSize : Int} {es : List HeapEvent}

/-! ## The contract -/

/-- Where every block given back was outstanding, the heap is in order. -/
theorem exists_heapInOrder (hsize : 1160 ≤ heapSize) (hlegit : LegitFrees es)
    (hafter : subaAfter heapSize es = some s) :
    ∃ cs, HeapInOrder heapSize.toNat s cs (liveBlocks es) := by
  induction es generalizing s with
  | nil =>
      have hinit : subaInit (fun _ => 0) heapSize.toNat 1024 = some s := hafter
      exact ⟨[], .initial (by omega) hinit⟩
  | cons e es ih =>
      cases e with
      | alloc b =>
          obtain ⟨s₀, hes, hrest⟩ := Option.bind_eq_some_iff.mp hafter
          obtain ⟨⟨ptr, s₁⟩, halloc, hrest⟩ := Option.bind_eq_some_iff.mp hrest
          obtain ⟨cs, hs⟩ := ih hlegit hes
          dsimp only at hrest
          split at hrest
          · rename_i hhanded
            cases hrest
            have hpos : 0 < b.size.toNat := by omega
            rcases hs.alloc hpos with ⟨-, hnone⟩ | ⟨new, cs', s', -, hsome, hinOrder, -⟩
            · rw [hnone] at halloc
              cases halloc
              cases hhanded.2
            · rw [hsome] at halloc
              cases halloc
              have hidx : Int.ofNat (new.ref + poff) = b.idx := Option.some.inj hhanded.2
              have heq : (⟨(new.ref + poff : Nat), b.size.toNat⟩ : HeapBlock) = b := by
                rw [Int.toNat_of_nonneg (by omega)]
                exact congrArg (HeapBlock.mk · b.size) hidx
              rw [heq] at hinOrder
              exact ⟨cs', hinOrder⟩
          · cases hrest
      | free b =>
          obtain ⟨s₀, hes, hrest⟩ := Option.bind_eq_some_iff.mp hafter
          obtain ⟨⟨r, s₁⟩, hfree, hrest⟩ := Option.bind_eq_some_iff.mp hrest
          obtain ⟨cs, hs⟩ := ih hlegit.2 hes
          cases hrest
          obtain ⟨-, c, hc, hidx, -⟩ := hs.serves.cell b hlegit.1
          obtain ⟨s', hsome, hinOrder, -⟩ := hs.free hlegit.1 hc hidx
          rw [hsome] at hfree
          cases hfree
          exact ⟨cs.erase c, hinOrder⟩

/-- A block handed out is apart from the outstanding ones, and in the heap. -/
theorem suba_sound (hsize : 1160 ≤ heapSize) : AllocSound heapSize (suba heapSize) := by
  intro es size idx hlegit hpos hsome
  obtain ⟨s, hafter, hrest⟩ := Option.bind_eq_some_iff.mp hsome
  obtain ⟨⟨ptr, s₁⟩, halloc, hrest⟩ := Option.bind_eq_some_iff.mp hrest
  obtain ⟨p, hptr, rfl⟩ := Option.map_eq_some_iff.mp hrest
  obtain ⟨cs, hs⟩ := exists_heapInOrder hsize hlegit hafter
  have hpos' : 0 < size.toNat := by omega
  rcases hs.alloc hpos' with ⟨-, hnone⟩ | ⟨new, cs', s', -, hnew, hs', -⟩
  · rw [hnone] at halloc
    cases halloc
    cases hptr
  · rw [hnew] at halloc
    cases halloc
    cases hptr
    obtain ⟨hlo, hhi⟩ := hs'.serves.inside hs'.list List.mem_cons_self
    have hsz := hs'.size
    have hapart := (List.pairwise_cons.mp (hs'.serves.apart hs'.list)).1
    have hidx : Int.ofNat (new.ref + poff) = (new.ref + poff : Nat) := rfl
    dsimp only at hlo hhi hapart
    rw [hidx]
    refine ⟨by omega, by omega, fun b hb => ?_⟩
    have hb := hapart b hb
    unfold HeapBlock.Apart
    dsimp only
    omega

theorem subaFree_negative {idx : Int} (hidx : idx < 0) (s : Allocator) :
    subaFree s idx = some (-1, s) := by
  have href : subaRef s idx = 0 := if_neg (by omega)
  unfold subaFree
  exact if_pos href

theorem subaAfter_acceptedCalls (heapSize : Int) (es : List HeapEvent) :
    subaAfter heapSize (acceptedCalls es) = subaAfter heapSize es := by
  induction es with
  | nil => rfl
  | cons e es ih =>
      cases e with
      | alloc b =>
          rw [acceptedCalls_alloc]
          simp only [subaAfter, ih]
      | free b =>
          by_cases hidx : b.idx < 0
          · rw [acceptedCalls_refused hidx, ih]
            simp only [subaAfter, subaFree_negative hidx]
            cases subaAfter heapSize es <;> rfl
          · rw [acceptedCalls_free (by omega)]
            simp only [subaAfter, ih]

theorem suba_refusesNegative (heapSize : Int) : RefusesNegative (suba heapSize) := by
  intro es size
  unfold suba
  rw [subaAfter_acceptedCalls]

theorem subaAlloc_ne_zero {size p : Nat} {s' : Allocator}
    (h : subaAlloc s size = some (some p, s')) : p ≠ 0 := by
  obtain ⟨found, -, heq⟩ := Option.map_eq_some_iff.mp h
  cases found with
  | fault => cases heq
  | around => cases heq
  | cell c1 c2 =>
      unfold subaTake at heq
      dsimp only at heq
      split at heq
      · cases heq
        exact Nat.add_one_ne_zero _
      · split at heq
        · cases heq
        · cases heq
          exact Nat.add_one_ne_zero _

/-- The default build's allocator keeps what the database presupposes, if the heap has room for
two cells. -/
theorem suba_contract (hsize : 2200 < heapSize) :
    AllocSound heapSize (suba heapSize) ∧ RefusesNegative (suba heapSize) ∧
      HeapInit (suba heapSize) := by
  refine ⟨suba_sound (by omega), suba_refusesNegative heapSize, ?_,
    fun es size b _ _ _ hzero => ?_⟩
  · obtain ⟨s, hinit⟩ : ∃ s, memInit heapSize = some s :=
      ⟨_, if_neg (by unfold hdrsiz poff; omega)⟩
    obtain ⟨hmin, hsz, -⟩ := subaInit_fields hinit
    have hlist : FreeList s [] :=
      freeList_init hinit (by rw [hmin]; unfold hdrsiz poff; omega)
    have hrounded : s.rounded 2 = 1024 := by
      unfold Allocator.rounded
      rw [hmin]
      rfl
    rcases hlist.alloc 2 with ⟨hplace, -⟩ | ⟨new, cs', s', -, halloc, -⟩
    · rw [hrounded, hmin, hsz] at hplace
      have hroom : hdrsiz + poff + 1024 + poff + 1024 < heapSize.toNat := by
        unfold hdrsiz poff
        omega
      have hsome := (if_pos hroom).symm.trans hplace
      cases hsome
    · refine ⟨Int.ofNat (new.ref + poff), ?_⟩
      have hafter : subaAfter heapSize [] = some s := hinit
      have halloc : subaAlloc s (2 : Int).toNat = some (some (new.ref + poff), s') := halloc
      unfold suba
      rw [hafter]
      simp only [Option.bind_eq_bind, Option.bind_some, halloc]
      rfl
  · obtain ⟨s, -, hrest⟩ := Option.bind_eq_some_iff.mp hzero
    obtain ⟨⟨ptr, s₁⟩, halloc, hrest⟩ := Option.bind_eq_some_iff.mp hrest
    obtain ⟨p, hptr, hidx⟩ := Option.map_eq_some_iff.mp hrest
    rw [hptr] at halloc
    have hne := subaAlloc_ne_zero halloc
    exact hne (Int.ofNat.inj hidx)

theorem suba_contract_4096 :
    AllocSound 4096 (suba 4096) ∧ RefusesNegative (suba 4096) ∧ HeapInit (suba 4096) :=
  suba_contract (by decide)

end KogmoRtdb
