/-!
# Ring positions

Entry number `m` of a ring with `n` places lies at place `m % n`. Entries fewer
than `n` apart lie at different places; one place back is the place of the entry
before, and entries `n` apart share a place. The cursor arithmetic is that of C:
signed, with a remainder that truncates.
-/

namespace Ring

theorem mod_ne_of_lt {a b n : Nat} (h1 : a < b) (h2 : b < a + n) : a % n ≠ b % n := by
  intro h
  have h0 : (b - a) % n = 0 := Nat.sub_mod_eq_zero_of_mod_eq h.symm
  rw [Nat.mod_eq_of_lt (by omega)] at h0
  omega

theorem mod_eq_of_add {a b n : Nat} (h : b = a + n) : b % n = a % n := by
  rw [h, Nat.add_mod_right]

/-- Stepping forward: the place after that of entry `m` is that of `m + 1`. -/
theorem tmod_succ (m n : Nat) :
    (((m % n : Nat) : Int) + 1).tmod n = ((m + 1) % n : Nat) := by
  rw [← Int.natCast_succ, Int.tmod_eq_emod_of_nonneg (Int.natCast_nonneg _),
    ← Int.natCast_emod]
  congr 1
  exact Nat.mod_add_mod m n 1

/-- Stepping back: the place before that of entry `m + 1` is that of `m`. -/
theorem tmod_pred (m : Nat) {n : Nat} (hn : 0 < n) :
    ((((m + 1) % n : Nat) : Int) - 1 + n).tmod n = (m % n : Nat) := by
  obtain ⟨k, rfl⟩ : ∃ k, n = k + 1 := ⟨n - 1, by omega⟩
  have h : (((m + 1) % (k + 1) : Nat) : Int) - 1 + (k + 1 : Nat) =
      ((m + 1) % (k + 1) + k : Nat) := by omega
  rw [h, Int.tmod_eq_emod_of_nonneg (Int.natCast_nonneg _), ← Int.natCast_emod]
  congr 1
  rw [Nat.mod_add_mod, show m + 1 + k = m + (k + 1) by omega, Nat.add_mod_right]

theorem tmod_pred_zero {n : Nat} (hn : 0 < n) : (0 - 1 + (n : Int)).tmod n = (n - 1 : Nat) := by
  rw [show (0 - 1 + (n : Int)) = ((n - 1 : Nat) : Int) by omega,
    Int.tmod_eq_emod_of_nonneg (Int.natCast_nonneg _), ← Int.natCast_emod,
    Nat.mod_eq_of_lt (by omega)]

/-- A place of the ring is its own remainder after a full turn. -/
theorem tmod_self_add {m n : Nat} (h : m < n) : ((m : Int) + n).tmod n = m := by
  rw [show ((m : Int) + n) = ((m + n : Nat) : Int) by omega,
    Int.tmod_eq_emod_of_nonneg (Int.natCast_nonneg _), ← Int.natCast_emod,
    Nat.add_mod_right, Nat.mod_eq_of_lt h]

/-- Every place is reached from every entry by going forward less than a turn. -/
theorem exists_shift (a : Nat) {j n : Nat} (hj : j < n) : ∃ i < n, (a + i) % n = j := by
  have hr := Nat.mod_lt a (show 0 < n by omega)
  by_cases h : a % n ≤ j
  · refine ⟨j - a % n, by omega, ?_⟩
    rw [← Nat.mod_add_mod, Nat.add_sub_cancel' h, Nat.mod_eq_of_lt hj]
  · refine ⟨j + n - a % n, by omega, ?_⟩
    rw [← Nat.mod_add_mod, show a % n + (j + n - a % n) = j + n by omega, Nat.add_mod_right,
      Nat.mod_eq_of_lt hj]

end Ring
