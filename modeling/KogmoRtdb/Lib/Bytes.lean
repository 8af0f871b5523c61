import Mathlib.Algebra.Group.Int.Defs
import Mathlib.Algebra.Group.Nat.Defs
import Mathlib.Tactic.SplitIfs

/-!
# Byte memory with little-endian words

A memory is a total function from addresses to bytes. Words are read and
written little-endian, a 64-bit word as two 32-bit halves: `hiWord`,
`loWord` and `ofWords` take it apart and put it together, and
`toInt_ofWords` relates the halves to the signed value, which is what a
comparison of 64-bit counters read half by half rests on.

`Mem.copy` is the one primitive store (`memcpy`, and every word store, is
an instance), so a frame fact about it is a frame fact about all of them.
-/

abbrev Byte := BitVec 8

abbrev Mem := Nat → Byte

/-! ## Halves of a 64-bit word -/

def hiWord (t : BitVec 64) : BitVec 32 := t.extractLsb' 32 32

def loWord (t : BitVec 64) : BitVec 32 := t.extractLsb' 0 32

def ofWords (hi lo : BitVec 32) : BitVec 64 := hi ++ lo

theorem getLsbD_ofWords (hi lo : BitVec 32) (i : Nat) :
    (ofWords hi lo).getLsbD i = if i < 32 then lo.getLsbD i else hi.getLsbD (i - 32) :=
  BitVec.getLsbD_append

@[simp] theorem hiWord_ofWords (hi lo : BitVec 32) : hiWord (ofWords hi lo) = hi := by
  ext i h
  simp [hiWord, getLsbD_ofWords, BitVec.getLsbD_eq_getElem h]

@[simp] theorem loWord_ofWords (hi lo : BitVec 32) : loWord (ofWords hi lo) = lo := by
  ext i h
  simp [loWord, getLsbD_ofWords, h]

@[simp] theorem ofWords_hiWord_loWord (t : BitVec 64) :
    ofWords (hiWord t) (loWord t) = t := by
  ext i h
  rw [← BitVec.getLsbD_eq_getElem h, getLsbD_ofWords]
  simp only [hiWord, loWord]
  split
  · simp [*]
  · simp [show 32 + (i - 32) = i by omega, BitVec.getLsbD_eq_getElem h,
      show i - 32 < 32 by omega]

theorem eq_of_words {a b : BitVec 64} (hh : hiWord a = hiWord b)
    (hl : loWord a = loWord b) : a = b := by
  rw [← ofWords_hiWord_loWord a, ← ofWords_hiWord_loWord b, hh, hl]

/-- The signed value is the signed high half shifted up, plus the unsigned
low half. -/
theorem toInt_ofWords (hi lo : BitVec 32) :
    (ofWords hi lo).toInt = hi.toInt * 2 ^ 32 + lo.toNat := by
  have hn : (ofWords hi lo).toNat = hi.toNat * 2 ^ 32 + lo.toNat := by
    simp only [ofWords, BitVec.toNat_append]
    rw [Nat.shiftLeft_eq, Nat.mul_comm, Nat.two_pow_add_eq_or_of_lt lo.isLt]
  have h1 := hi.isLt
  have h2 := lo.isLt
  rw [BitVec.toInt_eq_toNat_cond, BitVec.toInt_eq_toNat_cond, hn]
  split <;> split <;> omega

theorem toInt_eq_words (t : BitVec 64) :
    t.toInt = (hiWord t).toInt * 2 ^ 32 + (loWord t).toNat := by
  rw [← toInt_ofWords, ofWords_hiWord_loWord]

theorem hiWord_toInt_mono {a b : BitVec 64} (h : a.toInt ≤ b.toInt) :
    (hiWord a).toInt ≤ (hiWord b).toInt := by
  rw [toInt_eq_words a, toInt_eq_words b] at h
  have ha := (loWord a).isLt
  have hb := (loWord b).isLt
  omega

theorem hiWord_ne_zero_of_le {t : BitVec 64} (h : 2 ^ 32 ≤ t.toInt) :
    hiWord t ≠ 0 := by
  intro h0
  have hl := (loWord t).isLt
  rw [toInt_eq_words, h0] at h
  simp at h
  omega

/-! ## Loads and stores -/

namespace Mem

def zero : Mem := fun _ => 0

/-- Copy `n` bytes of `src` from `o` on into `dst` from `a` on. -/
def copy (dst : Mem) (a : Nat) (src : Mem) (o n : Nat) : Mem := fun b =>
  if a ≤ b ∧ b < a + n then src (o + (b - a)) else dst b

def read32 (m : Mem) (a : Nat) : BitVec 32 := m (a + 3) ++ m (a + 2) ++ m (a + 1) ++ m a

def read64 (m : Mem) (a : Nat) : BitVec 64 := ofWords (m.read32 (a + 4)) (m.read32 a)

def leBytes {w : Nat} (v : BitVec w) : Mem := fun i => v.extractLsb' (8 * i) 8

def write32 (m : Mem) (a : Nat) (v : BitVec 32) : Mem := m.copy a (leBytes v) 0 4

def write64 (m : Mem) (a : Nat) (v : BitVec 64) : Mem :=
  (m.write32 a (loWord v)).write32 (a + 4) (hiWord v)

@[simp] theorem read32_zero (a : Nat) : zero.read32 a = 0 := by
  simp only [read32, zero]
  decide

theorem copy_inside {dst src : Mem} {a o n b : Nat} (h1 : a ≤ b) (h2 : b < a + n) :
    dst.copy a src o n b = src (o + (b - a)) :=
  if_pos ⟨h1, h2⟩

theorem copy_outside {dst src : Mem} {a o n b : Nat} (h : b < a ∨ a + n ≤ b) :
    dst.copy a src o n b = dst b :=
  if_neg (by omega)

theorem read32_congr {m m' : Mem} {a : Nat} (h : ∀ b, a ≤ b → b < a + 4 → m b = m' b) :
    m.read32 a = m'.read32 a := by
  simp only [read32, h a (by omega) (by omega), h (a + 1) (by omega) (by omega),
    h (a + 2) (by omega) (by omega), h (a + 3) (by omega) (by omega)]

theorem read64_congr {m m' : Mem} {a : Nat} (h : ∀ b, a ≤ b → b < a + 8 → m b = m' b) :
    m.read64 a = m'.read64 a := by
  rw [read64, read64, read32_congr (a := a) fun b h1 h2 => h b h1 (by omega),
    read32_congr (a := a + 4) fun b h1 h2 => h b (by omega) (by omega)]

theorem getLsbD_read32 (m : Mem) (a i : Nat) :
    (m.read32 a).getLsbD i =
      if i < 8 then (m a).getLsbD i
      else if i - 8 < 8 then (m (a + 1)).getLsbD (i - 8)
      else if i - 8 - 8 < 8 then (m (a + 2)).getLsbD (i - 8 - 8)
      else (m (a + 3)).getLsbD (i - 8 - 8 - 8) := by
  rw [← BitVec.getLsbD_append, ← BitVec.getLsbD_append, ← BitVec.getLsbD_append]
  rfl

theorem msb_read32 (m : Mem) (a : Nat) : (m.read32 a).msb = (m (a + 3)).msb := by
  rw [BitVec.msb_eq_getLsbD_last, getLsbD_read32, BitVec.msb_eq_getLsbD_last]
  simp

theorem read32_leBytes (v : BitVec 32) : read32 (leBytes v) 0 = v := by
  ext i h
  rw [← BitVec.getLsbD_eq_getElem h, getLsbD_read32]
  simp only [leBytes, BitVec.getLsbD_extractLsb', ← BitVec.getLsbD_eq_getElem h]
  split_ifs
  all_goals
    rw [decide_eq_true (by omega), Bool.true_and]
    congr 1
    omega

theorem byte_of_read32 (m : Mem) (a : Nat) {k : Nat} (hk : k < 4) :
    m (a + k) = (m.read32 a).extractLsb' (8 * k) 8 := by
  ext i h
  rw [BitVec.getElem_extractLsb', getLsbD_read32, ← BitVec.getLsbD_eq_getElem h]
  obtain rfl | rfl | rfl | rfl : k = 0 ∨ k = 1 ∨ k = 2 ∨ k = 3 := by omega
  all_goals
    split_ifs
    all_goals first
      | omega
      | congr 1; omega

theorem byte_eq_of_read64_eq {m m' : Mem} {a b : Nat} (h : m.read64 a = m'.read64 a)
    (h1 : a ≤ b) (h2 : b < a + 8) : m b = m' b := by
  have hhi : m.read32 (a + 4) = m'.read32 (a + 4) := by
    have := congrArg hiWord h
    simpa only [read64, hiWord_ofWords] using this
  have hlo : m.read32 a = m'.read32 a := by
    have := congrArg loWord h
    simpa only [read64, loWord_ofWords] using this
  by_cases hb : b < a + 4
  · obtain ⟨k, rfl⟩ := Nat.exists_eq_add_of_le h1
    rw [byte_of_read32 m a (by omega), byte_of_read32 m' a (by omega), hlo]
  · obtain ⟨k, rfl⟩ := Nat.exists_eq_add_of_le (show a + 4 ≤ b by omega)
    rw [byte_of_read32 m (a + 4) (by omega), byte_of_read32 m' (a + 4) (by omega), hhi]

/-- Words inside the copied range are the source's, byte for byte. -/
theorem read32_copy_inside {dst src : Mem} {a o n b : Nat} (h1 : a ≤ b)
    (h2 : b + 4 ≤ a + n) : (dst.copy a src o n).read32 b = src.read32 (o + (b - a)) := by
  have hin (k : Nat) (hk : k < 4) :
      dst.copy a src o n (b + k) = src (o + (b - a) + k) := by
    rw [copy_inside (by omega) (by omega)]
    congr 1
    omega
  simp only [read32, hin 1 (by omega), hin 2 (by omega), hin 3 (by omega)]
  rw [copy_inside h1 (by omega)]

theorem read32_copy_outside {dst src : Mem} {a o n b : Nat} (h : b + 4 ≤ a ∨ a + n ≤ b) :
    (dst.copy a src o n).read32 b = dst.read32 b :=
  read32_congr fun _ _ _ => copy_outside (by omega)

@[simp] theorem read32_write32 (m : Mem) (a : Nat) (v : BitVec 32) :
    (m.write32 a v).read32 a = v := by
  rw [write32, read32_copy_inside (by omega) (by omega)]
  simpa using read32_leBytes v

theorem write32_outside {m : Mem} {a b : Nat} {v : BitVec 32} (h : b < a ∨ a + 4 ≤ b) :
    m.write32 a v b = m b :=
  copy_outside h

theorem read32_write32_outside {m : Mem} {a b : Nat} {v : BitVec 32}
    (h : b + 4 ≤ a ∨ a + 4 ≤ b) : (m.write32 a v).read32 b = m.read32 b :=
  read32_copy_outside h

theorem write64_outside {m : Mem} {a b : Nat} {v : BitVec 64} (h : b < a ∨ a + 8 ≤ b) :
    m.write64 a v b = m b := by
  rw [write64, write32_outside (by omega), write32_outside (by omega)]

@[simp] theorem read64_write64 (m : Mem) (a : Nat) (v : BitVec 64) :
    (m.write64 a v).read64 a = v := by
  rw [read64, write64, read32_write32, read32_write32_outside (by omega), read32_write32,
    ofWords_hiWord_loWord]

end Mem

/-! ## A heap of records -/

/-- A heap is addressed by signed indices, so that a computed index may lie
outside of it. -/
abbrev Heap := Int → Byte

namespace Heap

/-- The record at index `a`. -/
def window (h : Heap) (a : Int) : Mem := fun k => h (a + k)

/-- Store the first `n` bytes of a record at index `a`. -/
def put (h : Heap) (a : Int) (m : Mem) (n : Nat) : Heap := fun b =>
  if a ≤ b ∧ b < a + n then m (b - a).toNat else h b

theorem put_outside {h : Heap} {a b : Int} {m : Mem} {n : Nat} (hb : b < a ∨ a + n ≤ b) :
    h.put a m n b = h b :=
  if_neg (by omega)

theorem put_inside {h : Heap} {a b : Int} {m : Mem} {n : Nat} (h1 : a ≤ b)
    (h2 : b < a + n) : h.put a m n b = m (b - a).toNat :=
  if_pos ⟨h1, h2⟩

/-- Storing a record that agrees with the heap beyond `n` bytes stores all of
it. -/
theorem window_put_self {h : Heap} {a : Int} {m : Mem} {n : Nat}
    (hm : ∀ k, n ≤ k → m k = h.window a k) : (h.put a m n).window a = m := by
  funext k
  by_cases hk : k < n
  · rw [window, put_inside (by omega) (by omega)]
    congr 1
    omega
  · rw [window, put_outside (by omega), hm k (by omega), window]

theorem put_window_put (h : Heap) (a : Int) (m : Mem) (n : Nat) :
    h.put a ((h.put a m n).window a) n = h.put a m n := by
  funext b
  by_cases hb : a ≤ b ∧ b < a + n
  · rw [put_inside hb.1 hb.2, window]
    congr 1
    omega
  · rw [put_outside (by omega), put_outside (by omega)]

/-- A store of `n` bytes at `a` does not touch a byte of a window disjoint from
it. -/
theorem window_put_of_disjoint {h : Heap} {a a' : Int} {m : Mem} {n k : Nat}
    (hk : a' + k < a ∨ a + n ≤ a' + k) : (h.put a m n).window a' k = h.window a' k :=
  put_outside (by omega)

theorem window_put_add (h : Heap) (a : Int) (o : Nat) (m : Mem) (n : Nat) :
    (h.put (a + o) m n).window a = (h.window a).copy o m 0 n := by
  funext k
  by_cases hk : o ≤ k ∧ k < o + n
  · rw [Mem.copy_inside hk.1 hk.2, window, put_inside (by omega) (by omega)]
    congr 1
    omega
  · rw [Mem.copy_outside (by omega), window, put_outside (by omega), window]

end Heap
