import Mathlib.Data.Set.Basic
import Mathlib.Logic.Relation

/-!
# Taking out what is reached

A pass over a graph takes elements out of a set: from some roots on, and with an element all its
successors. What a depth-first search does from one root is a pass, and so is what several do one
after the other. `Pass.mem_iff` says what is left when the roots themselves are out: what none of
them reaches.
-/

namespace Marking

variable {α : Type} {r : α → α → Prop} {roots roots' : Set α} {s s' s'' : Set α}

def Reached (r : α → α → Prop) (roots : Set α) : Set α :=
  {b | ∃ a ∈ roots, Relation.ReflTransGen r a b}

/-- The elements taken from `s` to `s'` are reached, and none of their successors is left. -/
structure Pass (r : α → α → Prop) (roots : Set α) (s s' : Set α) : Prop where
  subset : s' ⊆ s
  reached : ∀ b ∈ s, b ∉ s' → b ∈ Reached r roots
  closed : ∀ a ∈ s, a ∉ s' → ∀ b, r a b → b ∉ s'

theorem Reached.root {a : α} (ha : a ∈ roots) : a ∈ Reached r roots :=
  ⟨a, ha, Relation.ReflTransGen.refl⟩

theorem Reached.step {a b : α} (ha : a ∈ Reached r roots) (hab : r a b) :
    b ∈ Reached r roots := by
  obtain ⟨c, hc, hca⟩ := ha
  exact ⟨c, hc, hca.tail hab⟩

/-- Roots that are reached from others reach nothing new. -/
theorem Reached.subset (h : roots ⊆ Reached r roots') : Reached r roots ⊆ Reached r roots' := by
  rintro b ⟨a, ha, hab⟩
  obtain ⟨c, hc, hca⟩ := h ha
  exact ⟨c, hc, hca.trans hab⟩

namespace Pass

theorem refl : Pass r roots s s where
  subset := Set.Subset.refl s
  reached _ h hn := absurd h hn
  closed _ h hn := absurd h hn

theorem trans (h : Pass r roots s s') (h' : Pass r roots s' s'') : Pass r roots s s'' where
  subset := h'.subset.trans h.subset
  reached b hb hb'' := by
    by_cases hb' : b ∈ s'
    · exact h'.reached b hb' hb''
    · exact h.reached b hb hb'
  closed a ha ha'' b hab := by
    by_cases ha' : a ∈ s'
    · exact h'.closed a ha' ha'' b hab
    · exact fun hb'' => h.closed a ha ha' b hab (h'.subset hb'')

theorem mono (h : Pass r roots s s') (hroots : roots ⊆ Reached r roots') :
    Pass r roots' s s' where
  subset := h.subset
  reached b hb hb' := Reached.subset hroots (h.reached b hb hb')
  closed := h.closed

/-- Everything reached is out with its successors if the roots are. -/
theorem out (h : Pass r roots s s') (hr : ∀ a b, r a b → b ∈ s)
    (hroots : ∀ a ∈ roots, a ∉ s' ∧ ∀ b, r a b → b ∉ s') {b : α} (hb : b ∈ Reached r roots) :
    b ∉ s' ∧ ∀ c, r b c → c ∉ s' := by
  obtain ⟨a, ha, hab⟩ := hb
  induction hab with
  | refl => exact hroots a ha
  | tail _ hbc ih =>
      have hout := ih.2 _ hbc
      exact ⟨hout, h.closed _ (hr _ _ hbc) hout⟩

theorem mem_iff (h : Pass r roots s s') (hr : ∀ a b, r a b → b ∈ s)
    (hroots : ∀ a ∈ roots, a ∉ s' ∧ ∀ b, r a b → b ∉ s') {b : α} :
    b ∈ s' ↔ b ∈ s ∧ b ∉ Reached r roots := by
  constructor
  · intro hb
    exact ⟨h.subset hb, fun hreach => (h.out hr hroots hreach).1 hb⟩
  · rintro ⟨hb, hno⟩
    by_contra hb'
    exact hno (h.reached b hb hb')

end Pass

end Marking
