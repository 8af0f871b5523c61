import KogmoRtdb.Lib.AllocLog
import KogmoRtdb.Lib.Gaps
import Mathlib.Logic.Function.Basic

/-!
# The allocator below the object heap

`rtmalloc/suba.c`, which the build takes for the heap, and the calls of `kogmo_rtdb_rtmalloc.c` to
it. Memory is a function from addresses, counted from the start of the heap, to the 8-byte words
there. The allocator reads and writes multiples of 8 only, so no two words overlap. Its own header
is kept in fields.

Both loops follow links that they find in memory. They are given as many rounds as the heap has
bytes; a longer walk would come back to a cell and not end.
-/

namespace KogmoRtdb

/-- `struct allocator`, and the memory behind it. -/
structure Allocator where
  tail : Nat
  mincell : Nat
  size : Nat
  allocTotal : Nat
  freeTotal : Nat
  sizeTotal : Nat
  maxFree : Nat
  word : Nat → Nat

/-- `ALIGN`. -/
def align (s : Nat) : Nat := (s + 7) / 8 * 8

/-- `ALIGN(sizeof *suba)`. -/
def hdrsiz : Nat := 120

/-- `POFF`, from a cell's `size` to its `next`. -/
def poff : Nat := 16

namespace Allocator

/-- A cell's `size`. -/
def cellSize (s : Allocator) (ref : Nat) : Nat := s.word ref

/-- A cell's `next`, where an outstanding block begins. -/
def next (s : Allocator) (ref : Nat) : Nat := s.word (ref + poff)

def store (s : Allocator) (addr value : Nat) : Allocator :=
  { s with word := Function.update s.word addr value }

def setSize (s : Allocator) (ref value : Nat) : Allocator := s.store ref value

def setNext (s : Allocator) (ref value : Nat) : Allocator := s.store (ref + poff) value

/-- `ISADJ`. -/
def isAdj (s : Allocator) (c1 c2 : Nat) : Bool := c1 + poff + s.cellSize c1 == c2

end Allocator

/-- Whether `suba_addr` finds an address for the reference. -/
def subaAddr (s : Allocator) (ref : Nat) : Bool := 0 < ref && ref ≤ s.size

/-- `suba_ref`; a pointer before the heap is a reference beyond it. -/
def subaRef (s : Allocator) (ptr : Int) : Nat :=
  if 0 < ptr ∧ ptr ≤ s.size then ptr.toNat else 0

/-- `suba_init` with `rst`. -/
def subaInit (word : Nat → Nat) (size mincell : Nat) : Option Allocator :=
  if size ≤ hdrsiz + poff then none
  else
    let suba : Allocator :=
      { tail := hdrsiz, mincell := if 8 < mincell then align mincell else 8, size, allocTotal := 0,
        freeTotal := 0, sizeTotal := 0, maxFree := size, word }
    some ((suba.setSize hdrsiz (size - (hdrsiz + poff))).setNext hdrsiz hdrsiz)

/-! ## `suba_alloc` -/

/-- The size of the cell for a request of `size` bytes. -/
def Allocator.rounded (s : Allocator) (size : Nat) : Nat :=
  if size < s.mincell then s.mincell else align size

inductive SubaFound where
  /-- A reference that is none (`EFAULT`). -/
  | fault
  /-- All around without a cell that is large enough. -/
  | around
  /-- `c2` is large enough, and `c1` is before it. -/
  | cell (c1 c2 : Nat)

/-- The search of the free list from `c1` on. -/
def subaFind (s : Allocator) (size : Nat) : Nat → Nat → Option SubaFound
  | 0, _ => none
  | rounds + 1, c1 =>
      let c2 := s.next c1
      if !subaAddr s c2 then some .fault
      else if size ≤ s.cellSize c2 then some (.cell c1 c2)
      else if c2 = s.tail then some .around
      else subaFind s size rounds c2

/-- A new cell behind the first `size` bytes of `c2`. -/
def subaSplit (s : Allocator) (c1 c2 size : Nat) : Allocator :=
  let c3 := c2 + poff + size
  let s := s.setSize c3 (s.cellSize c2 - (size + poff))
  let s := if c1 = c2 then s.setNext c3 c3 else (s.setNext c3 (s.next c2)).setNext c1 c3
  let s := s.setSize c2 size
  if c2 = s.tail then { s with tail := c3 } else s

/-- The totals with one more cell, at `c2`, for a request of `size` bytes. -/
def Allocator.used (s : Allocator) (c2 size : Nat) : Allocator :=
  { s with
    allocTotal := s.allocTotal + (poff + s.cellSize c2)
    sizeTotal := s.sizeTotal + size }

/-- What `suba_alloc` does with the cell it has found at `c2`, behind `c1`. -/
def subaTake (s : Allocator) (c1 c2 size : Nat) : Option Nat × Allocator :=
  let n := s.rounded size
  if poff + n + s.mincell < s.cellSize c2 then
    (some (c2 + poff), (subaSplit s c1 c2 n).used c2 size)
  -- never use the last cell!
  else if s.next c1 = s.tail then (none, s)
  else (some (c2 + poff), (s.setNext c1 (s.next c2)).used c2 size)

/-- `suba_alloc` without `zero`: the block's address, or `NULL`. Nothing is ever reclaimed,
since `reclaim` is `NULL`. -/
def subaAlloc (s : Allocator) (size : Nat) : Option (Option Nat × Allocator) :=
  (subaFind s (s.rounded size) (s.size + 1) s.tail).map fun
    | .fault => (none, s)
    | .around => (none, s)
    | .cell c1 c2 => subaTake s c1 c2 size

/-! ## `suba_free` -/

/-- The cell of the free list behind which `ref` belongs; no cell if a link is corrupted. -/
def subaWalk (s : Allocator) (ref : Nat) : Nat → Nat → Option (Option Nat)
  | 0, _ => none
  | rounds + 1, c1 =>
      if s.next c1 < ref then
        if s.next c1 < poff then some none else subaWalk s ref rounds (s.next c1)
      else some (some c1)

/-- `c2` goes back between `c1` and the cell behind it, and is joined with those it touches. -/
def subaSplice (s : Allocator) (c1 c2 : Nat) : Allocator :=
  let c3 := s.next c1
  let j1 := s.isAdj c1 c2
  let j2 := s.isAdj c2 c3
  if j1 then
    let s := if j2 then
        let s := if c3 = s.tail then { s with tail := c1 } else s
        let s := s.setNext c1 (s.next c3)
        s.setSize c1 (s.cellSize c1 + (poff + s.cellSize c3))
      else s
    s.setSize c1 (s.cellSize c1 + (poff + s.cellSize c2))
  else
    let s := if j2 then
        let s := if c3 = s.tail then { s with tail := c2 } else s
        let s := s.setNext c2 (if s.next c3 = c3 then c2 else s.next c3)
        s.setSize c2 (s.cellSize c2 + (poff + s.cellSize c3))
      else s.setNext c2 (s.next c1)
    s.setNext c1 c2

/-- `suba_free` of a pointer that is not `NULL`: what it returns. -/
def subaFree (s : Allocator) (ptr : Int) : Option (Int × Allocator) :=
  if subaRef s ptr = 0 then some (-1, s)
  else
    let c1 := s.tail
    let c2 := (ptr - poff).toNat
    let ref := subaRef s (ptr - poff)
    if s.maxFree < s.cellSize c2 ∨ ref = 0 then some (-1, s)
    else
      let s := { s with freeTotal := s.freeTotal + (poff + s.cellSize c2) }
      if c1 < c2 then
        -- append to the end of the list
        if s.isAdj c1 c2 then some (0, s.setSize c1 (s.cellSize c1 + (poff + s.cellSize c2)))
        else some (0, { (s.setNext c2 (s.next c1)).setNext c1 ref with tail := ref })
      else
        (subaWalk s ref (s.size + 1) c1).map fun
          | none => (-1, s)
          | some c1 => (0, subaSplice s c1 c2)

/-! ## The free list -/

/-- The cells behind `c`, as far as a link leads to an earlier cell; no list if one is
corrupted. -/
def subaListFrom (s : Allocator) : Nat → Nat → Option (List Cell)
  | 0, _ => none
  | rounds + 1, c =>
      let next := s.next c
      if next < s.tail then
        if next < poff then none
        else (subaListFrom s rounds next).map (⟨next, s.cellSize next⟩ :: ·)
      else some [⟨next, s.cellSize next⟩]

/-- The cells that `suba_print_free_list` prints. -/
def subaFreeList (s : Allocator) : Option (List Cell) := subaListFrom s (s.size + 1) s.tail

/-! ## The heap's allocator -/

/-- `kogmo_rtdb_obj_mem_init` on a heap that nobody has written to. -/
def memInit (heapSize : Int) : Option Allocator := subaInit (fun _ => 0) heapSize.toNat 1024

/-- The allocator after the calls of `kogmo_rtdb_obj_mem_alloc` and `kogmo_rtdb_obj_mem_free`,
newest first; none if it would not have handed out these blocks. -/
def subaAfter (heapSize : Int) : List HeapEvent → Option Allocator
  | [] => memInit heapSize
  | .alloc b :: es => do
      let s ← subaAfter heapSize es
      let (ptr, s) ← subaAlloc s b.size.toNat
      if 0 < b.size ∧ ptr.map Int.ofNat = some b.idx then some s else none
  | .free b :: es => do
      let s ← subaAfter heapSize es
      let (_, s) ← subaFree s b.idx
      return s

/-- What `suba_alloc` hands out next. -/
def suba (heapSize : Int) (es : List HeapEvent) (size : Int) : Option Int := do
  let s ← subaAfter heapSize es
  let (ptr, _) ← subaAlloc s size.toNat
  ptr.map Int.ofNat

end KogmoRtdb
