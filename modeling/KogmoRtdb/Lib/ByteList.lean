import Mathlib.Data.List.GetD
import KogmoRtdb.Lib.Bytes

/-!
# Byte sequences

What is written to a file or sent is a list of bytes. `Mem.bytes` takes it from a memory and
`Mem.ofBytes` gives it as one, so that the fields of a record are read from a list by the
loads of the memory; a word reads back from `le32` and `le64`.
-/

namespace Mem

/-- The `n` bytes from `a` on. -/
def bytes (m : Mem) (a n : Nat) : List Byte := (List.range n).map fun k => m (a + k)

/-- The bytes of a list at their positions, followed by zeros. -/
def ofBytes (l : List Byte) : Mem := fun i => l.getD i 0

variable {m m' : Mem} {a a' n : Nat} {l l' : List Byte}

@[simp] theorem length_bytes (m : Mem) (a n : Nat) : (m.bytes a n).length = n := by
  simp [bytes]

theorem bytes_congr (h : ∀ k, k < n → m (a + k) = m' (a' + k)) : m.bytes a n = m'.bytes a' n :=
  List.map_congr_left fun k hk => h k (List.mem_range.mp hk)

theorem bytes_add (m : Mem) (a n k : Nat) :
    m.bytes a (n + k) = m.bytes a n ++ m.bytes (a + n) k := by
  simp [bytes, List.range_add, Nat.add_assoc]

theorem ofBytes_bytes {k : Nat} (hk : k < n) : ofBytes (m.bytes a n) k = m (a + k) := by
  rw [ofBytes, List.getD_eq_getElem _ _ (by simpa using hk)]
  simp [bytes]

theorem bytes_ofBytes (l : List Byte) : (ofBytes l).bytes 0 l.length = l := by
  refine List.ext_getElem (by simp) fun i h1 h2 => ?_
  simp only [bytes, List.getElem_map, List.getElem_range, Nat.zero_add, ofBytes,
    List.getD_eq_getElem _ _ h2]

theorem ofBytes_append_left {i : Nat} (hi : i < l.length) : ofBytes (l ++ l') i = ofBytes l i :=
  List.getD_append _ _ _ _ hi

theorem ofBytes_append_right (l l' : List Byte) (i : Nat) :
    ofBytes (l ++ l') (l.length + i) = ofBytes l' i := by
  rw [ofBytes, List.getD_append_right _ _ _ _ (Nat.le_add_right _ _), Nat.add_sub_cancel_left]
  rfl

theorem read32_ofBytes_left (ha : a + 4 ≤ l.length) :
    (ofBytes (l ++ l')).read32 a = (ofBytes l).read32 a :=
  read32_congr fun _ _ h2 => ofBytes_append_left (by omega)

theorem read32_ofBytes_right (l l' : List Byte) (a : Nat) :
    (ofBytes (l ++ l')).read32 (l.length + a) = (ofBytes l').read32 a := by
  simp only [read32, Nat.add_assoc, ofBytes_append_right]

theorem read32_ofBytes_bytes (ha : a + 4 ≤ n) :
    (ofBytes (m.bytes a' n)).read32 a = m.read32 (a' + a) := by
  simp only [read32, ofBytes_bytes (show a + 3 < n by omega),
    ofBytes_bytes (show a + 2 < n by omega), ofBytes_bytes (show a + 1 < n by omega),
    ofBytes_bytes (show a < n by omega), Nat.add_assoc]

/-! ## Bytes in a memory -/

/-- The memory has the bytes `l` from `a` on. -/
def Has (m : Mem) (a : Nat) (l : List Byte) : Prop := m.bytes a l.length = l

theorem has_append : m.Has a (l ++ l') ↔ m.Has a l ∧ m.Has (a + l.length) l' := by
  unfold Has
  rw [List.length_append, bytes_add]
  exact ⟨fun h => List.append_inj h (by simp), fun h => by rw [h.1, h.2]⟩

theorem has_copy (m : Mem) (a : Nat) (l : List Byte) :
    (m.copy a (ofBytes l) 0 l.length).Has a l := by
  refine Eq.trans (bytes_congr fun k hk => ?_) (bytes_ofBytes l)
  rw [copy_inside (by omega) (by omega)]
  congr 1
  omega

theorem Has.byte {k : Nat} (h : m.Has a l) (hk : k < l.length) : m (a + k) = ofBytes l k := by
  have hread := ofBytes_bytes (m := m) (a := a) hk
  rw [← hread, h]

theorem Has.read32 {k : Nat} (h : m.Has a l) (hk : k + 4 ≤ l.length) :
    m.read32 (a + k) = (ofBytes l).read32 k := by
  simp only [Mem.read32, Nat.add_assoc, h.byte (show k + 3 < l.length by omega),
    h.byte (show k + 2 < l.length by omega), h.byte (show k + 1 < l.length by omega),
    h.byte (show k < l.length by omega)]

/-! ## Words -/

def read16 (m : Mem) (a : Nat) : BitVec 16 := m (a + 1) ++ m a

theorem read16_leBytes (v : BitVec 16) : read16 (leBytes v) 0 = v := by
  ext i h
  rw [← BitVec.getLsbD_eq_getElem h, read16, BitVec.getLsbD_append]
  simp only [leBytes, BitVec.getLsbD_extractLsb', ← BitVec.getLsbD_eq_getElem h]
  split
  all_goals
    rw [decide_eq_true (by omega), Bool.true_and]
    congr 1
    omega

theorem read16_congr (h : ∀ b, a ≤ b → b < a + 2 → m b = m' b) : m.read16 a = m'.read16 a := by
  simp only [read16, h a (by omega) (by omega), h (a + 1) (by omega) (by omega)]

theorem Has.read16 {k : Nat} (h : m.Has a l) (hk : k + 2 ≤ l.length) :
    m.read16 (a + k) = (ofBytes l).read16 k := by
  simp only [Mem.read16, Nat.add_assoc, h.byte (show k + 1 < l.length by omega),
    h.byte (show k < l.length by omega)]

/-- The bytes of a short word, least significant first. -/
def le16 (v : BitVec 16) : List Byte := (leBytes v).bytes 0 2

@[simp] theorem length_le16 (v : BitVec 16) : (le16 v).length = 2 := length_bytes ..

theorem Has.read16_le16 {v : BitVec 16} (h : m.Has a (le16 v)) : m.read16 a = v := by
  have hword := h.read16 (k := 0) (by simp)
  rw [Nat.add_zero] at hword
  rw [hword, ← read16_leBytes v]
  refine read16_congr fun b _ hb => ?_
  rw [read16_leBytes, le16, ofBytes_bytes (by omega), Nat.zero_add]

def le32 (v : BitVec 32) : List Byte := (leBytes v).bytes 0 4

def le64 (v : BitVec 64) : List Byte := le32 (loWord v) ++ le32 (hiWord v)

@[simp] theorem length_le32 (v : BitVec 32) : (le32 v).length = 4 := length_bytes ..

@[simp] theorem length_le64 (v : BitVec 64) : (le64 v).length = 8 := by simp [le64]

@[simp] theorem read32_le32 (v : BitVec 32) (l : List Byte) :
    (ofBytes (le32 v ++ l)).read32 0 = v := by
  rw [read32_ofBytes_left (by simp), le32, read32_ofBytes_bytes (Nat.le_refl 4)]
  exact read32_leBytes v

theorem Has.read32_le32 {v : BitVec 32} (h : m.Has a (le32 v)) : m.read32 a = v := by
  have hword := h.read32 (k := 0) (by simp)
  rw [Nat.add_zero] at hword
  have hback := Mem.read32_le32 v []
  rw [List.append_nil] at hback
  rw [hword, hback]

@[simp] theorem read64_le64 (v : BitVec 64) (l : List Byte) :
    (ofBytes (le64 v ++ l)).read64 0 = v := by
  have hhi : (ofBytes (le64 v ++ l)).read32 4 = hiWord v := by
    rw [le64, List.append_assoc]
    exact (read32_ofBytes_right (le32 (loWord v)) _ 0).trans (read32_le32 ..)
  have hlo : (ofBytes (le64 v ++ l)).read32 0 = loWord v := by
    rw [le64, List.append_assoc, read32_le32]
  rw [read64, hhi, hlo, ofWords_hiWord_loWord]

end Mem
