import Mathlib.Logic.Function.Basic
import Mathlib.Order.Basic
import Mathlib.Tactic.Common

/-!
# Stores into a buffer

A call that fills a buffer names where it starts and how much it stores. Both are integers: a
negative start or length is what a slip in the computation of a length looks like. An `Extent`
is inside a buffer of `cap` places if all its places are.
-/

universe u

/-- The places from `start` on, `len` of them. -/
structure Extent where
  start : Int
  len : Int
  deriving DecidableEq, Repr

namespace Extent

/-- All of it is in a buffer of `cap` places. -/
structure Inside (e : Extent) (cap : Int) : Prop where
  start_nonneg : 0 ≤ e.start
  len_nonneg : 0 ≤ e.len
  end_le : e.start + e.len ≤ cap

variable {e : Extent} {cap cap' start len : Int}

theorem inside_iff : Inside ⟨start, len⟩ cap ↔ 0 ≤ start ∧ 0 ≤ len ∧ start + len ≤ cap :=
  ⟨fun h => ⟨h.1, h.2, h.3⟩, fun h => ⟨h.1, h.2.1, h.2.2⟩⟩

instance : Decidable (e.Inside cap) :=
  decidable_of_iff (0 ≤ e.start ∧ 0 ≤ e.len ∧ e.start + e.len ≤ cap) inside_iff.symm

theorem inside_zero : Inside ⟨0, len⟩ cap ↔ 0 ≤ len ∧ len ≤ cap := by
  rw [inside_iff, Int.zero_add]
  exact ⟨fun h => h.2, fun h => ⟨Int.le_refl 0, h⟩⟩

theorem inside_one : Inside ⟨start, 1⟩ cap ↔ 0 ≤ start ∧ start < cap := by
  rw [inside_iff]
  omega

end Extent
