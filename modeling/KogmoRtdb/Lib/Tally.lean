import Mathlib.Algebra.BigOperators.Group.Finset.Basic
import Mathlib.Algebra.BigOperators.Group.Finset.Piecewise
import Mathlib.Algebra.BigOperators.Ring.Finset

/-!
# Sums over a table

The sum of a quantity over the first `n` entries of a table, and how it changes when one
entry does. A counter kept beside a table is right if it is such a sum.
-/

universe u

/-- The sum of `f` over the first `n` entries of `t`. -/
def tally {α : Type u} (n : Nat) (f : α → Int) (t : Nat → α) : Int :=
  ∑ i ∈ Finset.range n, f (t i)

section Tally

variable {α : Type u} {n i : Nat} {f : α → Int} {t t' : Nat → α} {a : α}

theorem tally_congr (h : ∀ i, f (t' i) = f (t i)) : tally n f t' = tally n f t :=
  Finset.sum_congr rfl fun i _ => h i

theorem tally_update (hi : i < n) :
    tally n f (Function.update t i a) = tally n f t - f (t i) + f a := by
  have hmem := Finset.mem_range.mpr hi
  have hcomp : (fun j => f (Function.update t i a j)) =
      Function.update (fun j => f (t j)) i (f a) := by
    funext j
    by_cases hji : j = i
    · rw [hji, Function.update_self, Function.update_self]
    · rw [Function.update_of_ne hji, Function.update_of_ne hji]
  have hsplit := Finset.sum_eq_add_sum_sdiff_singleton_of_mem hmem fun j => f (t j)
  unfold tally
  rw [hcomp, Finset.sum_update_of_mem hmem, hsplit]
  omega

theorem tally_update_of_eq (h : f a = f (t i)) :
    tally n f (Function.update t i a) = tally n f t := by
  refine tally_congr fun j => ?_
  by_cases hji : j = i
  · rw [hji, Function.update_self, h]
  · rw [Function.update_of_ne hji]

theorem tally_count (p : α → Prop) [DecidablePred p] (t : Nat → α) :
    tally n (fun a => if p a then 1 else 0) t =
      ((Finset.range n).filter fun i => p (t i)).card := by
  unfold tally
  rw [Finset.card_filter, Nat.cast_sum]
  refine Finset.sum_congr rfl fun i _ => ?_
  rw [Nat.cast_ite, Nat.cast_one, Nat.cast_zero]

end Tally
