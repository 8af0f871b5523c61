import Mathlib.Data.List.Cycle

/-!
# Circular lists in memory

A list whose cells name their successors, the last one the first. The cells are found by their
links alone, so the list is known up to rotation. What is said here about a store to one link is
all that is needed to take a cell out, to put one in or to put one in another's place.
-/

variable {α : Type*} {next next' : α → α} {a b c x : α} {xs ys : List α}

/-- From `a` the links lead through `xs` to `b`. -/
def Leads (next : α → α) (a : α) (xs : List α) (b : α) : Prop :=
  List.IsChain (fun x y => next x = y) (a :: (xs ++ [b]))

def Circular (next : α → α) (xs : List α) : Prop :=
  Cycle.Chain (fun x y => next x = y) (xs : Cycle α)

/-- The last of a list is its first if there is no other. -/
theorem getLastD_eq_iff (hnodup : (a :: xs).Nodup) : xs.getLastD a = a ↔ xs = [] := by
  constructor
  · intro heq
    cases xs with
    | nil => rfl
    | cons x xs =>
        rw [List.getLastD_cons] at heq
        have hmem : a ∈ x :: xs := heq ▸ List.getLastD_mem_cons
        exact absurd hmem (List.nodup_cons.mp hnodup).1
  · rintro rfl
    rfl

namespace Leads

theorem nil_iff : Leads next a [] b ↔ next a = b := List.isChain_pair

theorem cons_iff : Leads next a (x :: xs) b ↔ next a = x ∧ Leads next x xs b :=
  List.isChain_cons_cons

theorem append_iff : Leads next a (xs ++ x :: ys) b ↔ Leads next a xs x ∧ Leads next x ys b := by
  unfold Leads
  rw [List.append_assoc]
  exact List.isChain_cons_split

theorem congr (h : Leads next a xs b) (hsame : ∀ x ∈ a :: xs, next' x = next x) :
    Leads next' a xs b := by
  induction xs generalizing a with
  | nil => exact nil_iff.mpr ((hsame a List.mem_cons_self).trans (nil_iff.mp h))
  | cons x xs ih =>
      obtain ⟨hx, hrest⟩ := cons_iff.mp h
      refine cons_iff.mpr ⟨(hsame a List.mem_cons_self).trans hx, ?_⟩
      exact ih hrest fun y hy => hsame y (List.mem_cons_of_mem a hy)

theorem redirect (h : Leads next a xs b) (hnodup : (a :: xs).Nodup)
    (hsame : ∀ x ∈ a :: xs, x ≠ xs.getLastD a → next' x = next x)
    (hlast : next' (xs.getLastD a) = c) : Leads next' a xs c := by
  induction xs generalizing a with
  | nil => exact nil_iff.mpr hlast
  | cons x xs ih =>
      obtain ⟨hx, hrest⟩ := cons_iff.mp h
      obtain ⟨hnot, hnodup'⟩ := List.nodup_cons.mp hnodup
      have hne : a ≠ (x :: xs).getLastD a := by
        rw [List.getLastD_cons]
        exact fun heq => hnot (heq ▸ List.getLastD_mem_cons)
      rw [List.getLastD_cons] at hlast
      refine cons_iff.mpr ⟨(hsame a List.mem_cons_self hne).trans hx, ih hrest hnodup' ?_ hlast⟩
      intro y hy hyne
      refine hsame y (List.mem_cons_of_mem a hy) ?_
      rwa [List.getLastD_cons]

theorem next_last (h : Leads next a xs b) : next (xs.getLastD a) = b := by
  induction xs generalizing a with
  | nil => exact nil_iff.mp h
  | cons x xs ih =>
      rw [List.getLastD_cons]
      exact ih (cons_iff.mp h).2

end Leads

namespace Circular

theorem cons_iff : Circular next (a :: xs) ↔ Leads next a xs a := Cycle.chain_coe_cons _ a xs

theorem rotate (xs ys : List α) : Circular next (xs ++ ys) ↔ Circular next (ys ++ xs) := by
  unfold Circular
  rw [Cycle.coe_eq_coe.mpr List.isRotated_append]

theorem congr (h : Circular next xs) (hsame : ∀ x ∈ xs, next' x = next x) :
    Circular next' xs := by
  cases xs with
  | nil => trivial
  | cons a xs => exact cons_iff.mpr ((cons_iff.mp h).congr hsame)

theorem next_eq_iff (h : Circular next (a :: xs)) (hnodup : (a :: xs).Nodup) :
    next a = a ↔ xs = [] := by
  have hleads := cons_iff.mp h
  cases xs with
  | nil => exact iff_of_true (Leads.nil_iff.mp hleads) rfl
  | cons x xs =>
      have hx := (Leads.cons_iff.mp hleads).1
      refine iff_of_false (fun heq => ?_) (List.cons_ne_nil x xs)
      obtain rfl : x = a := hx.symm.trans heq
      exact (List.nodup_cons.mp hnodup).1 List.mem_cons_self

/-- A cell is taken out: the one before it leads to the one behind it. -/
theorem remove (h : Circular next (a :: xs)) (hne : xs ≠ []) (hnodup : xs.Nodup)
    (hsame : ∀ x ∈ xs, x ≠ xs.getLastD a → next' x = next x)
    (hlast : next' (xs.getLastD a) = next a) : Circular next' xs := by
  cases xs with
  | nil => exact absurd rfl hne
  | cons x xs =>
      obtain ⟨hx, hrest⟩ := Leads.cons_iff.mp (cons_iff.mp h)
      rw [List.getLastD_cons] at hsame hlast
      exact cons_iff.mpr (hrest.redirect hnodup hsame (hlast.trans hx))

/-- A cell is put between the last one and the first one. -/
theorem insert (h : Circular next (x :: xs)) (hnodup : (x :: xs).Nodup)
    (hsame : ∀ y ∈ x :: xs, y ≠ xs.getLastD x → next' y = next y)
    (hlast : next' (xs.getLastD x) = b) (hb : next' b = next (xs.getLastD x)) :
    Circular next' (b :: x :: xs) := by
  have hleads := cons_iff.mp h
  refine cons_iff.mpr (Leads.cons_iff.mpr ⟨hb.trans hleads.next_last, ?_⟩)
  exact hleads.redirect hnodup hsame hlast

/-- A cell takes another's place; where it is the only one, it leads to itself. -/
theorem exchange (h : Circular next (a :: xs)) (hnodup : xs.Nodup)
    (hsame : ∀ x ∈ xs, x ≠ xs.getLastD a → next' x = next x)
    (hlast : xs ≠ [] → next' (xs.getLastD a) = b)
    (hb : next' b = if xs = [] then b else next a) : Circular next' (b :: xs) := by
  cases xs with
  | nil =>
      rw [if_pos rfl] at hb
      exact cons_iff.mpr (Leads.nil_iff.mpr hb)
  | cons x xs =>
      rw [if_neg (List.cons_ne_nil x xs)] at hb
      obtain ⟨hx, hrest⟩ := Leads.cons_iff.mp (cons_iff.mp h)
      rw [List.getLastD_cons] at hsame hlast
      refine cons_iff.mpr (Leads.cons_iff.mpr ⟨hb.trans hx, ?_⟩)
      exact hrest.redirect hnodup hsame (hlast (List.cons_ne_nil x xs))

end Circular
