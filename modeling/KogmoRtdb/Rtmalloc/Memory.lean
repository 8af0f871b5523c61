import KogmoRtdb.Lib.Bytes
import KogmoRtdb.Rtmalloc.Contract

/-!
# The memory that the allocator is in

The free list is kept in the heap itself, between the blocks, and whoever writes beyond a block
writes into it. Here the allocator's memory is read and stored to byte by byte, and the calls to it
are made in this memory.

`suba`, of which the database is told what it is handed out, knows of the calls only
(`subaAfter`). `InMemory` ties the two: the same cells are outstanding, so that both answer alike,
and the blocks hold what has been stored there.
-/

namespace KogmoRtdb

variable {a a' s : Allocator} {cs : List Cell} {blocks blocks' : List HeapBlock} {b : HeapBlock}
  {es : List HeapEvent} {m : Mem} {addr start heapSize : Int} {k n : Nat}

/-! ## Bytes -/

namespace Allocator

def heap (a : Allocator) : Heap := fun addr =>
  Mem.zero.write64 0 (BitVec.ofNat 64 (a.word (addr.toNat / 8 * 8))) (addr.toNat % 8)

/-- `n` bytes are stored at `start`. -/
def put (a : Allocator) (start : Int) (m : Mem) (n : Nat) : Allocator :=
  { a with word := fun x =>
      if 8 ∣ x ∧ start < x + 8 ∧ x < start + n then
        (((a.heap.put start m n).window x).read64 0).toNat
      else a.word x }

/-- A call to the allocator. What is handed out is cleared. -/
def call (a : Allocator) : HeapEvent → Option Allocator
  | .alloc b => do
      let (ptr, a) ← subaAlloc a b.size.toNat
      if ptr.map Int.ofNat = some b.idx then some (a.put b.idx Mem.zero b.size.toNat) else none
  | .free b => (subaFree a b.idx).map (·.2)

def calls (a : Allocator) : List HeapEvent → Option Allocator
  | [] => some a
  | e :: es => (a.calls es).bind (·.call e)

/-- What `kogmo_rtdb_obj_mem_alloc` would be given. -/
def answer (a : Allocator) (size : Int) : Option Int := do
  let (ptr, _) ← subaAlloc a size.toNat
  ptr.map Int.ofNat

end Allocator

theorem heap_congr {lo hi : Nat} (hlo : 8 ∣ lo)
    (hword : ∀ x, lo ≤ x → x < hi → a'.word x = a.word x) (h1 : lo ≤ addr) (h2 : addr < hi) :
    a'.heap addr = a.heap addr := by
  unfold Allocator.heap
  rw [hword _ (by omega) (by omega)]

theorem heap_put (a : Allocator) (start : Int) (m : Mem) (n : Nat) (h0 : 0 ≤ addr) :
    (a.put start m n).heap addr = a.heap.put start m n addr := by
  have hdvd : 8 ∣ addr.toNat / 8 * 8 := Nat.dvd_mul_left 8 _
  unfold Allocator.heap Allocator.put
  dsimp only
  by_cases hin : start < (addr.toNat / 8 * 8 : Nat) + 8 ∧ (addr.toNat / 8 * 8 : Nat) < start + n
  · rw [if_pos ⟨hdvd, hin⟩, BitVec.ofNat_toNat, BitVec.setWidth_eq]
    refine (Mem.byte_eq_of_read64_eq (Mem.read64_write64 _ 0 _) (Nat.zero_le _)
      (Nat.mod_lt _ (by decide))).trans ?_
    have haddr : ((addr.toNat / 8 * 8 : Nat) : Int) + (addr.toNat % 8 : Nat) = addr := by omega
    rw [Heap.window, haddr]
    rfl
  · rw [if_neg fun h => hin h.2, Heap.put_outside (by omega)]

/-! ## The blocks' contents -/

/-- The blocks hold in one memory what they hold in the other. -/
def SameIn (blocks : List HeapBlock) (heap heap' : Heap) : Prop :=
  ∀ b ∈ blocks, ∀ addr, b.idx ≤ addr → addr < b.idx + b.size → heap addr = heap' addr

namespace HeapInOrder

/-- A block with its cell, where the allocator does not store while it is outstanding. -/
theorem cell_range {heapSize : Nat} (h : HeapInOrder heapSize a cs blocks) (hb : b ∈ blocks) :
    ∃ c ∈ cs, 8 ∣ c.ref ∧ b.idx = (c.ref + poff : Nat) ∧ b.idx + b.size ≤ Gaps.stop poff c := by
  obtain ⟨-, c, hc, hidx, hle, -⟩ := h.serves.cell b hb
  refine ⟨c, hc, (h.aligned c hc).1, hidx, ?_⟩
  unfold Gaps.stop
  omega

theorem idx_nonneg {heapSize : Nat} (h : HeapInOrder heapSize a cs blocks) (hb : b ∈ blocks) :
    0 ≤ b.idx := by
  obtain ⟨c, -, -, hidx, -⟩ := h.cell_range hb
  omega

/-- What is stored in a block touches nothing of the allocator's. -/
theorem put {heapSize : Nat} (h : HeapInOrder heapSize a cs blocks) (hb : b ∈ blocks)
    (hlo : b.idx ≤ start) (hhi : start + k ≤ b.idx + b.size) :
    HeapInOrder heapSize (a.put start m k) cs blocks := by
  obtain ⟨c, hc, hdvd, hidx, hstop⟩ := h.cell_range hb
  refine h.overwrite hc fun x hx => if_neg ?_
  rintro ⟨hx8, h1, h2⟩
  have hpoff : poff = 16 := rfl
  omega

/-- Where the cells are as they were, so are the blocks. -/
theorem sameIn {heapSize : Nat} {a₁ : Allocator} (h : HeapInOrder heapSize a₁ cs blocks)
    (hkeeps : ∀ c ∈ cs, ∀ x, c.ref ≤ x → x < Gaps.stop poff c → a'.word x = a.word x) :
    SameIn blocks a'.heap a.heap := by
  intro b hb addr h1 h2
  obtain ⟨c, hc, hdvd, hidx, hstop⟩ := h.cell_range hb
  have hpoff : poff = 16 := rfl
  exact heap_congr hdvd (hkeeps c hc) (by omega) (by omega)

end HeapInOrder

variable {heap heap' heap'' : Heap}

theorem SameIn.trans (h : SameIn blocks heap heap')
    (h' : SameIn blocks heap' heap'') : SameIn blocks heap heap'' := fun b hb addr h1 h2 =>
  (h b hb addr h1 h2).trans (h' b hb addr h1 h2)

theorem SameIn.sublist (h : SameIn blocks a.heap heap) (hsub : blocks'.Sublist blocks) :
    SameIn blocks' a.heap heap := fun b hb => h b (hsub.subset hb)

theorem SameIn.put (h : SameIn blocks a.heap heap) (h0 : ∀ b ∈ blocks, 0 ≤ b.idx) (start : Int)
    (m : Mem) (k : Nat) : SameIn blocks (a.put start m k).heap (heap.put start m k) := by
  intro b hb addr h1 h2
  have hb0 := h0 b hb
  rw [heap_put a start m k (by omega)]
  by_cases hin : start ≤ addr ∧ addr < start + k
  · rw [Heap.put_inside hin.1 hin.2, Heap.put_inside hin.1 hin.2]
  · rw [Heap.put_outside (by omega), Heap.put_outside (by omega)]
    exact h b hb addr h1 h2

/-! ## The history and the memory -/

/-- After the calls `es` the cells `cs` are outstanding: for `suba`, and in the memory, where the
blocks hold what `heap` does. -/
structure Tracks (heapSize : Int) (es : List HeapEvent) (heap : Heap) (a s : Allocator)
    (cs : List Cell) : Prop where
  replayed : subaAfter heapSize es = some s
  plain : HeapInOrder heapSize.toNat s cs (liveBlocks (acceptedCalls es))
  inOrder : HeapInOrder heapSize.toNat a cs (liveBlocks (acceptedCalls es))
  same : SameIn (liveBlocks (acceptedCalls es)) a.heap heap

/-- The memory is one of these calls and of these contents. -/
def InMemory (heapSize : Int) (es : List HeapEvent) (heap : Heap) (a : Allocator) : Prop :=
  ∃ s cs, Tracks heapSize es heap a s cs

namespace InMemory

theorem initial (hsize : 1160 ≤ heapSize) (hinit : memInit heapSize = some a) (heap : Heap) :
    InMemory heapSize [] heap a :=
  ⟨a, [], hinit, .initial (by omega) hinit, .initial (by omega) hinit, fun _ hb => by cases hb⟩

/-- What is handed out does not depend on what is stored in the blocks. -/
theorem answer_eq (h : InMemory heapSize es heap a) (size : Int) :
    suba heapSize es size = a.answer size := by
  obtain ⟨s, cs, h⟩ := h
  have hs := h.plain.list.alloc size.toNat
  have ha := h.inOrder.list.alloc size.toNat
  rw [h.plain.place_eq] at hs
  rw [h.inOrder.place_eq] at ha
  unfold suba Allocator.answer
  rw [h.replayed, Option.bind_eq_bind, Option.bind_some]
  rcases hs with ⟨hplace, hs⟩ | ⟨new, cs', s', hplace, hs, -⟩ <;> rw [hplace] at ha
  · rcases ha with ⟨-, ha⟩ | ⟨new', cs'', a', hne, -⟩
    · rw [hs, ha]
      rfl
    · cases hne
  · rcases ha with ⟨hne, -⟩ | ⟨new', cs'', a', heq, ha, -⟩
    · cases hne
    · cases heq
      rw [hs, ha]
      rfl

theorem alloc {size idx : Int} (h : InMemory heapSize es heap a) (hpos : 0 < size)
    (hsuba : suba heapSize es size = some idx) : ∃ a', a.call (.alloc ⟨idx, size⟩) = some a' ∧
      InMemory heapSize (.alloc ⟨idx, size⟩ :: es) (heap.put idx Mem.zero size.toNat) a' := by
  obtain ⟨s, cs, h⟩ := h
  have hpos' : 0 < size.toNat := by omega
  obtain ⟨s₀, hafter, hrest⟩ := Option.bind_eq_some_iff.mp hsuba
  cases h.replayed.symm.trans hafter
  obtain ⟨⟨ptr, s₁⟩, halloc, hidx⟩ := Option.bind_eq_some_iff.mp hrest
  rcases h.plain.alloc hpos' with ⟨-, hnone⟩ | ⟨new, cs', s', hplace, hsome, hplain, -⟩
  · rw [hnone] at halloc
    cases halloc
    cases hidx
  rw [hsome] at halloc
  cases halloc
  obtain rfl : ((new.ref + poff : Nat) : Int) = idx := Option.some.inj hidx
  rcases h.inOrder.alloc hpos' with ⟨hnone, -⟩ | ⟨new', cs'', a', heq, ha, hinOrder, hh⟩
  · rw [hplace] at hnone
    cases hnone
  rw [hplace] at heq
  cases heq
  rw [Int.toNat_of_nonneg (by omega)] at hplain hinOrder
  refine ⟨a'.put (new.ref + poff : Nat) Mem.zero size.toNat, ?_, s₁, cs', ?_, hplain,
    hinOrder.put List.mem_cons_self (Int.le_refl _) (by dsimp only; omega), ?_⟩
  · simp only [Allocator.call, ha, Option.bind_eq_bind, Option.bind_some]
    exact if_pos rfl
  · simp only [subaAfter, h.replayed, hsome, Option.bind_eq_bind, Option.bind_some]
    exact if_pos ⟨hpos, rfl⟩
  · rw [acceptedCalls_alloc]
    intro b hb addr h1 h2
    have hb0 := hinOrder.idx_nonneg hb
    rw [heap_put a' _ _ _ (by omega)]
    rcases List.mem_cons.mp hb with rfl | hb
    · dsimp only at h1 h2
      rw [Heap.put_inside h1 (by omega), Heap.put_inside h1 (by omega)]
    · have hold := ((h.inOrder.sameIn hh.keeps).trans h.same) b hb addr h1 h2
      by_cases hin : ((new.ref + poff : Nat) : Int) ≤ addr ∧
          addr < (new.ref + poff : Nat) + size.toNat
      · rw [Heap.put_inside hin.1 hin.2, Heap.put_inside hin.1 hin.2]
      · rw [Heap.put_outside (by omega), Heap.put_outside (by omega)]
        exact hold

theorem free (h : InMemory heapSize es heap a) (hb : b ∈ liveBlocks (acceptedCalls es)) :
    ∃ a', a.call (.free b) = some a' ∧ InMemory heapSize (.free b :: es) heap a' := by
  obtain ⟨s, cs, h⟩ := h
  have hb0 := h.plain.idx_nonneg hb
  obtain ⟨-, c, hc, hidx, -⟩ := h.plain.serves.cell b hb
  obtain ⟨s', hs, hplain, -⟩ := h.plain.free hb hc hidx
  obtain ⟨a', ha, hinOrder, hkeeps⟩ := h.inOrder.free hb hc hidx
  refine ⟨a', by rw [Allocator.call, ha]; rfl, s', cs.erase c, ?_, ?_, ?_, ?_⟩
  · simp only [subaAfter, h.replayed, hs, Option.bind_eq_bind, Option.bind_some]
    rfl
  all_goals rw [acceptedCalls_free hb0, liveBlocks]
  · exact hplain
  · exact hinOrder
  · exact (hinOrder.sameIn hkeeps).trans (h.same.sublist List.erase_sublist)

theorem refused (h : InMemory heapSize es heap a) (hb : b.idx < 0) :
    a.call (.free b) = some a ∧ InMemory heapSize (.free b :: es) heap a := by
  obtain ⟨s, cs, h⟩ := h
  refine ⟨by rw [Allocator.call, subaFree_negative hb]; rfl, s, cs, ?_, ?_, ?_, ?_⟩
  · simp only [subaAfter, h.replayed, subaFree_negative hb, Option.bind_eq_bind, Option.bind_some]
    rfl
  all_goals rw [acceptedCalls_refused hb]
  · exact h.plain
  · exact h.inOrder
  · exact h.same

theorem put (h : InMemory heapSize es heap a) (hb : b ∈ liveBlocks (acceptedCalls es))
    (hlo : b.idx ≤ start) (hhi : start + k ≤ b.idx + b.size) (m : Mem) :
    InMemory heapSize es (heap.put start m k) (a.put start m k) := by
  obtain ⟨s, cs, h⟩ := h
  exact ⟨s, cs, h.replayed, h.plain, h.inOrder.put hb hlo hhi,
    h.same.put (fun b hb => h.plain.idx_nonneg hb) start m k⟩

end InMemory

end KogmoRtdb
