import Mathlib.Algebra.BigOperators.Group.List.Basic
import Mathlib.Algebra.Ring.Nat
import Mathlib.Data.List.Pairwise
import Mathlib.Data.List.Perm.Basic

/-!
# Blocks and the gaps between them

A range of memory from `lo` to `hi` with blocks in it, in the order of their addresses. Every block
begins with a header of `hdr` bytes, and so does every gap: what is not in a block is in a gap, and
two gaps never touch. A gap stays behind the last block for good.

`place` is first fit: the first gap that is large enough gives up its front, or all of it
when what remains would be too small to be of use. Giving back a block is nothing but
its removal, and `gaps_release` says what becomes of the gaps beside it.
-/

/-- A block or a gap: where its header is, and how many bytes follow the header. -/
structure Cell where
  ref : Nat
  size : Nat
  deriving DecidableEq

namespace Gaps

variable (hdr : Nat)

def stop (c : Cell) : Nat := c.ref + hdr + c.size

def Apart (c d : Cell) : Prop := stop hdr c ≤ d.ref ∨ stop hdr d ≤ c.ref

instance : Std.Symm (Apart hdr) := ⟨fun _ _ => Or.symm⟩

/-- The blocks are in order and leave room for a header wherever there is a gap. -/
def Laid (lo : Nat) : List Cell → Nat → Prop
  | [], hi => lo + hdr ≤ hi
  | c :: cs, hi => (lo = c.ref ∨ lo + hdr ≤ c.ref) ∧ Laid (stop hdr c) cs hi

/-- The gap from one address to another, if there is one. -/
def gap (lo hi : Nat) : List Cell := if lo < hi then [⟨lo, hi - (lo + hdr)⟩] else []

def gaps (lo : Nat) : List Cell → Nat → List Cell
  | [], hi => gap hdr lo hi
  | c :: cs, hi => gap hdr lo c.ref ++ gaps (stop hdr c) cs hi

/-- First fit for `n` bytes; a remainder of no more than `minSize` bytes is given away, unless it
is the last gap's. -/
def place (minSize n lo : Nat) : List Cell → Nat → Option (Cell × List Cell)
  | [], hi => if lo + hdr + n + hdr + minSize < hi then some (⟨lo, n⟩, [⟨lo, n⟩]) else none
  | c :: cs, hi =>
      if lo < c.ref ∧ lo + hdr + n ≤ c.ref then
        let new : Cell :=
          ⟨lo, if lo + hdr + n + hdr + minSize < c.ref then n else c.ref - (lo + hdr)⟩
        some (new, new :: c :: cs)
      else (place minSize n (stop hdr c) cs hi).map fun (new, cs) => (new, c :: cs)

def endOf (lo : Nat) : List Cell → Nat
  | [] => lo
  | c :: cs => endOf (stop hdr c) cs

def startOf (hi : Nat) : List Cell → Nat
  | [] => hi
  | c :: _ => c.ref

def gapsBehind : List Cell → Nat → List Cell
  | [], _ => []
  | c :: cs, hi => gaps hdr (stop hdr c) cs hi

variable {hdr}
variable {lo hi n minSize : Nat} {c g new : Cell} {cs cs' before after xs ys : List Cell}

/-! ## The layout -/

theorem gap_of_lt (h : lo < hi) : gap hdr lo hi = [⟨lo, hi - (lo + hdr)⟩] := if_pos h

@[simp] theorem gap_self (lo : Nat) : gap hdr lo lo = [] := if_neg (Nat.lt_irrefl lo)

theorem Laid.le (h : Laid hdr lo cs hi) : lo + hdr ≤ hi := by
  induction cs generalizing lo with
  | nil => exact h
  | cons c cs ih =>
      have hrest := ih h.2
      unfold stop at hrest
      rcases h.1 with heq | hle <;> omega

theorem Laid.front (h : Laid hdr lo (c :: cs) hi) : lo ≤ c.ref := by
  rcases h.1 with heq | hle <;> omega

theorem Laid.bounds (h : Laid hdr lo cs hi) (hc : c ∈ cs) :
    lo ≤ c.ref ∧ stop hdr c + hdr ≤ hi := by
  induction cs generalizing lo with
  | nil => cases hc
  | cons d cs ih =>
      have hfront := h.front
      rcases List.mem_cons.mp hc with rfl | hc
      · exact ⟨hfront, h.2.le⟩
      · obtain ⟨hlo, hhi⟩ := ih h.2 hc
        unfold stop at hlo
        exact ⟨by omega, hhi⟩

theorem Laid.pairwise (h : Laid hdr lo cs hi) :
    cs.Pairwise fun c d => stop hdr c ≤ d.ref := by
  induction cs generalizing lo with
  | nil => exact .nil
  | cons c cs ih => exact .cons (fun d hd => (h.2.bounds hd).1) (ih h.2)

theorem Laid.append (h : Laid hdr lo (before ++ c :: after) hi) :
    Laid hdr (stop hdr c) after hi ∧ (endOf hdr lo before = c.ref ∨
      endOf hdr lo before + hdr ≤ c.ref) := by
  induction before generalizing lo with
  | nil => exact ⟨h.2, h.1⟩
  | cons d before ih => exact ih h.2

theorem Laid.release (h : Laid hdr lo (before ++ c :: after) hi) :
    Laid hdr lo (before ++ after) hi := by
  induction before generalizing lo with
  | nil =>
      obtain ⟨hfront, hrest⟩ := h
      cases after with
      | nil =>
          have hle : stop hdr c + hdr ≤ hi := hrest
          unfold stop at hle
          show lo + hdr ≤ hi
          rcases hfront with heq | hlt <;> omega
      | cons d after =>
          obtain ⟨hfront', hrest⟩ := hrest
          unfold stop at hfront'
          refine ⟨Or.inr ?_, hrest⟩
          rcases hfront with heq | hlt <;> rcases hfront' with heq' | hlt' <;> omega
  | cons d before ih => exact ⟨h.1, ih h.2⟩

/-! ## First fit -/

/-- What is placed is large enough and no larger than it must be, and the others stay. -/
theorem Laid.place (h : Laid hdr lo cs hi) (hp : place hdr minSize n lo cs hi = some (new, cs')) :
    Laid hdr lo cs' hi ∧ cs'.Perm (new :: cs) ∧ n ≤ new.size ∧ new.size ≤ n + hdr + minSize := by
  induction cs generalizing lo cs' with
  | nil =>
      unfold Gaps.place at hp
      split at hp
      · rename_i hlt
        cases hp
        refine ⟨⟨Or.inl rfl, ?_⟩, .refl _, Nat.le_refl n, by dsimp only; omega⟩
        show lo + hdr + n + hdr ≤ hi
        omega
      · cases hp
  | cons c cs ih =>
      unfold Gaps.place at hp
      split at hp
      · rename_i hfit
        cases hp
        refine ⟨⟨Or.inl rfl, ?_, h.2⟩, .refl _, ?_, ?_⟩
        · unfold stop
          dsimp only
          split <;> omega
        · dsimp only
          split <;> omega
        · dsimp only
          split <;> omega
      · obtain ⟨⟨d, ds⟩, hrest, heq⟩ := Option.map_eq_some_iff.mp hp
        cases heq
        obtain ⟨hlaid, hperm, hsize⟩ := ih h.2 hrest
        exact ⟨⟨h.1, hlaid⟩, (hperm.cons c).trans (.swap new c cs), hsize⟩

theorem place_dvd {k : Nat} (hhdr : k ∣ hdr) (hn : k ∣ n) (hlo : k ∣ lo)
    (hcs : ∀ c ∈ cs, k ∣ c.ref ∧ k ∣ c.size)
    (hp : Gaps.place hdr minSize n lo cs hi = some (new, cs')) : k ∣ new.ref ∧ k ∣ new.size := by
  induction cs generalizing lo cs' with
  | nil =>
      unfold Gaps.place at hp
      split at hp
      · cases hp
        exact ⟨hlo, hn⟩
      · cases hp
  | cons c cs ih =>
      obtain ⟨href, hsize⟩ := hcs c List.mem_cons_self
      unfold Gaps.place at hp
      split at hp
      · cases hp
        refine ⟨hlo, ?_⟩
        dsimp only
        split
        · exact hn
        · exact Nat.dvd_sub href (Nat.dvd_add hlo hhdr)
      · obtain ⟨⟨d, ds⟩, hrest, heq⟩ := Option.map_eq_some_iff.mp hp
        cases heq
        exact ih (Nat.dvd_add (Nat.dvd_add href hhdr) hsize)
          (fun d hd => hcs d (List.mem_cons_of_mem c hd)) hrest

/-! ## The gaps -/

/-- There is always a gap, since one stays at the end. -/
theorem Laid.gaps_ne_nil (hpos : 0 < hdr) (h : Laid hdr lo cs hi) : gaps hdr lo cs hi ≠ [] := by
  induction cs generalizing lo with
  | nil =>
      have hle : lo + hdr ≤ hi := h
      unfold gaps
      rw [gap_of_lt (by omega)]
      exact List.cons_ne_nil _ _
  | cons c cs ih => exact List.append_ne_nil_of_right_ne_nil _ (ih h.2)

/-- The blocks before a block have their gaps, and so have those behind it. -/
theorem gaps_append (lo : Nat) (before : List Cell) (c : Cell) (after : List Cell) (hi : Nat) :
    gaps hdr lo (before ++ c :: after) hi =
      gaps hdr lo before c.ref ++ gaps hdr (stop hdr c) after hi := by
  induction before generalizing lo with
  | nil => rfl
  | cons d before ih =>
      simp only [List.cons_append, gaps]
      rw [ih, List.append_assoc]

theorem gaps_last (lo : Nat) (cs : List Cell) (hi : Nat) :
    gaps hdr lo cs hi =
      gaps hdr lo cs (endOf hdr lo cs) ++ gap hdr (endOf hdr lo cs) hi := by
  induction cs generalizing lo with
  | nil =>
      simp only [gaps, endOf, gap_self]
      rfl
  | cons c cs ih =>
      simp only [gaps, endOf]
      rw [ih, List.append_assoc]

theorem gaps_first (lo : Nat) (cs : List Cell) (hi : Nat) :
    gaps hdr lo cs hi = gap hdr lo (startOf hi cs) ++ gapsBehind hdr cs hi := by
  cases cs with
  | nil => exact (List.append_nil _).symm
  | cons c cs => rfl

/-- Without the block there is one gap in its place, from the block before to the one behind. -/
theorem gaps_release (lo : Nat) (before after : List Cell) (hi : Nat) :
    gaps hdr lo (before ++ after) hi =
      gaps hdr lo before (endOf hdr lo before) ++
        gap hdr (endOf hdr lo before) (startOf hi after) ++ gapsBehind hdr after hi := by
  induction before generalizing lo with
  | nil =>
      simp only [gaps, endOf, gap_self, List.nil_append]
      exact gaps_first lo after hi
  | cons d before ih =>
      simp only [List.cons_append, gaps, endOf]
      rw [ih]
      simp only [List.append_assoc]

theorem mem_gap (h : g ∈ gap hdr lo hi) (hroom : lo = hi ∨ lo + hdr ≤ hi) :
    g.ref = lo ∧ stop hdr g = hi ∧ lo < hi := by
  unfold gap at h
  split at h
  · rename_i hlt
    obtain rfl := List.mem_singleton.mp h
    refine ⟨rfl, ?_, hlt⟩
    unfold stop
    dsimp only
    omega
  · cases h

/-- A gap lies in the range, and ends where it does or in front of a block. -/
theorem Laid.gap_bounds (h : Laid hdr lo cs hi) (hg : g ∈ gaps hdr lo cs hi) :
    lo ≤ g.ref ∧ (stop hdr g = hi ∨ stop hdr g + hdr ≤ hi) := by
  induction cs generalizing lo with
  | nil =>
      obtain ⟨href, hstop, -⟩ := mem_gap hg (Or.inr h)
      exact ⟨by omega, Or.inl hstop⟩
  | cons c cs ih =>
      have hfront := h.front
      rcases List.mem_append.mp hg with hg | hg
      · obtain ⟨href, hstop, -⟩ := mem_gap hg h.1
        have hle := h.2.le
        unfold stop at hle
        refine ⟨by omega, Or.inr ?_⟩
        rw [hstop]
        omega
      · obtain ⟨hlo, hhi⟩ := ih h.2 hg
        unfold stop at hlo
        exact ⟨by omega, hhi⟩

theorem Laid.gaps_pairwise (h : Laid hdr lo cs hi) :
    (gaps hdr lo cs hi).Pairwise fun g g' => stop hdr g + hdr ≤ g'.ref := by
  induction cs generalizing lo with
  | nil =>
      unfold gaps gap
      split
      · exact List.pairwise_singleton _ _
      · exact .nil
  | cons c cs ih =>
      refine List.pairwise_append.mpr ⟨?_, ih h.2, fun g hg g' hg' => ?_⟩
      · unfold gap
        split
        · exact List.pairwise_singleton _ _
        · exact .nil
      · obtain ⟨-, hstop, -⟩ := mem_gap hg h.1
        have hle := (h.2.gap_bounds hg').1
        unfold stop at hle
        rw [hstop]
        omega

theorem Laid.gap_apart (h : Laid hdr lo cs hi) (hg : g ∈ gaps hdr lo cs hi) (hc : c ∈ cs) :
    stop hdr g ≤ c.ref ∨ stop hdr c ≤ g.ref := by
  induction cs generalizing lo with
  | nil => cases hc
  | cons d cs ih =>
      rcases List.mem_append.mp hg with hg | hg
      · obtain ⟨-, hstop, -⟩ := mem_gap hg h.1
        rw [hstop]
        rcases List.mem_cons.mp hc with rfl | hc
        · exact Or.inl (Nat.le_refl _)
        · have hle := (h.2.bounds hc).1
          unfold stop at hle
          exact Or.inl (by omega)
      · rcases List.mem_cons.mp hc with rfl | hc
        · exact Or.inr (h.2.gap_bounds hg).1
        · exact ih h.2 hg hc

/-! ## First fit and the gaps -/

/-- What becomes of the gap in which `n` bytes are placed, `xs` the gaps before it and `ys` those
behind it: its front is taken, or all of it, but not if it is the last one. -/
inductive Taken (hdr minSize n lo hi : Nat) (cs xs : List Cell) (g : Cell) (ys : List Cell) :
    Prop where
  | front (hlt : hdr + n + minSize < g.size) (cs' : List Cell)
      (hp : place hdr minSize n lo cs hi = some (⟨g.ref, n⟩, cs'))
      (hg : gaps hdr lo cs' hi = xs ++ ⟨g.ref + hdr + n, g.size - (n + hdr)⟩ :: ys)
  | whole (hle : g.size ≤ hdr + n + minSize) (hlast : ys ≠ []) (cs' : List Cell)
      (hp : place hdr minSize n lo cs hi = some (g, cs')) (hg : gaps hdr lo cs' hi = xs ++ ys)
  | last (hle : g.size ≤ hdr + n + minSize) (hlast : ys = [])
      (hp : place hdr minSize n lo cs hi = none)

theorem Taken.behind (h : Taken hdr minSize n (stop hdr c) hi cs xs g ys)
    (hskip : ¬ (lo < c.ref ∧ lo + hdr + n ≤ c.ref)) :
    Taken hdr minSize n lo hi (c :: cs) (gap hdr lo c.ref ++ xs) g ys := by
  have hplace : place hdr minSize n lo (c :: cs) hi =
      (place hdr minSize n (stop hdr c) cs hi).map fun (new, cs) => (new, c :: cs) := if_neg hskip
  cases h with
  | front hlt cs' hp hg =>
      refine .front hlt (c :: cs') (by rw [hplace, hp]; rfl) ?_
      simp only [gaps, hg, List.append_assoc]
  | whole hle hlast cs' hp hg =>
      refine .whole hle hlast (c :: cs') (by rw [hplace, hp]; rfl) ?_
      simp only [gaps, hg, List.append_assoc]
  | last hle hlast hp => exact .last hle hlast (by rw [hplace, hp]; rfl)

/-- First fit takes the first gap that is large enough. -/
theorem Laid.taken (minSize : Nat) (hpos : 0 < hdr) (h : Laid hdr lo cs hi)
    (hg : gaps hdr lo cs hi = xs ++ g :: ys) (hxs : ∀ x ∈ xs, x.size < n) (hn : n ≤ g.size) :
    Taken hdr minSize n lo hi cs xs g ys := by
  induction cs generalizing lo xs with
  | nil =>
      have hle : lo + hdr ≤ hi := h
      unfold gaps at hg
      rw [gap_of_lt (by omega)] at hg
      cases xs with
      | nil =>
          obtain ⟨rfl, rfl⟩ := List.cons.inj hg
          dsimp only at hn
          by_cases hlt : lo + hdr + n + hdr + minSize < hi
          · refine .front (by dsimp only; omega) [⟨lo, n⟩] (if_pos hlt) ?_
            simp only [gaps, gap_self, stop, List.nil_append]
            rw [gap_of_lt (by omega)]
            simp only [List.cons.injEq, Cell.mk.injEq, and_true, true_and]
            omega
          · exact .last (by dsimp only; omega) rfl (if_neg hlt)
      | cons x xs => simp at hg
  | cons c cs ih =>
      have hfront := h.1
      unfold gaps at hg
      by_cases hlt : lo < c.ref
      · rw [gap_of_lt hlt, List.singleton_append] at hg
        cases xs with
        | nil =>
            obtain ⟨rfl, rfl⟩ := List.cons.inj hg
            dsimp only at hn
            have hfit : lo < c.ref ∧ lo + hdr + n ≤ c.ref := ⟨hlt, by omega⟩
            by_cases hsplit : lo + hdr + n + hdr + minSize < c.ref
            · refine .front (by dsimp only; omega) (⟨lo, n⟩ :: c :: cs) ?_ ?_
              · unfold Gaps.place
                rw [if_pos hfit, if_pos hsplit]
              · simp only [gaps, gap_self, stop, List.nil_append]
                rw [gap_of_lt (by omega)]
                simp only [List.singleton_append, List.cons.injEq, Cell.mk.injEq, and_true,
                  true_and]
                omega
            · refine .whole (by dsimp only; omega) (h.2.gaps_ne_nil hpos)
                (⟨lo, c.ref - (lo + hdr)⟩ :: c :: cs) ?_ ?_
              · unfold Gaps.place
                rw [if_pos hfit, if_neg hsplit]
              · have hstop : lo + hdr + (c.ref - (lo + hdr)) = c.ref := by omega
                simp only [gaps, gap_self, stop, hstop, List.nil_append]
        | cons x xs =>
            obtain ⟨rfl, hrest⟩ := List.cons.inj hg
            have hsmall : c.ref - (lo + hdr) < n := hxs _ List.mem_cons_self
            have htaken := ih h.2 hrest fun y hy => hxs y (List.mem_cons_of_mem _ hy)
            have hskip : ¬ (lo < c.ref ∧ lo + hdr + n ≤ c.ref) := by omega
            have hbehind := htaken.behind hskip
            rwa [gap_of_lt hlt] at hbehind
      · obtain rfl : lo = c.ref := by omega
        rw [gap_self, List.nil_append] at hg
        have hbehind := (ih h.2 hg hxs).behind fun hand => Nat.lt_irrefl _ hand.1
        rwa [gap_self] at hbehind

theorem Laid.place_eq_none (hpos : 0 < hdr) (h : Laid hdr lo cs hi)
    (hsmall : ∀ x ∈ gaps hdr lo cs hi, x.size < n) :
    Gaps.place hdr minSize n lo cs hi = none := by
  induction cs generalizing lo with
  | nil =>
      have hle : lo + hdr ≤ hi := h
      have hlast : hi - (lo + hdr) < n := by
        refine hsmall ⟨lo, _⟩ ?_
        unfold gaps
        rw [gap_of_lt (by omega)]
        exact List.mem_singleton_self _
      exact if_neg (by omega)
  | cons c cs ih =>
      have hskip : ¬ (lo < c.ref ∧ lo + hdr + n ≤ c.ref) := by
        rintro ⟨hlt, hfit⟩
        have hgap : c.ref - (lo + hdr) < n := by
          refine hsmall ⟨lo, _⟩ (List.mem_append_left _ ?_)
          rw [gap_of_lt hlt]
          exact List.mem_singleton_self _
        omega
      unfold Gaps.place
      rw [if_neg hskip, ih h.2 fun x hx => hsmall x (List.mem_append_right _ hx)]
      rfl

/-- The gaps before a block end before it, or touch it. -/
theorem Laid.gap_before (h : Laid hdr lo (before ++ c :: after) hi)
    (hg : g ∈ gaps hdr lo before c.ref) : stop hdr g ≤ c.ref := by
  induction before generalizing lo with
  | nil => exact Nat.le_of_eq (mem_gap hg h.1).2.1
  | cons d before ih =>
      rcases List.mem_append.mp hg with hg | hg
      · have hle := (h.2.bounds (List.mem_append_right _ List.mem_cons_self)).1
        unfold stop at hle
        rw [(mem_gap hg h.1).2.1]
        omega
      · exact ih h.2 hg

theorem Laid.gap_far (hpos : 0 < hdr) (h : Laid hdr lo (before ++ c :: after) hi)
    (hg : g ∈ gaps hdr lo before (endOf hdr lo before)) : stop hdr g < c.ref := by
  induction before generalizing lo with
  | nil =>
      simp only [gaps, endOf, gap_self] at hg
      cases hg
  | cons d before ih =>
      rcases List.mem_append.mp hg with hg | hg
      · have hle := (h.2.bounds (List.mem_append_right _ List.mem_cons_self)).1
        unfold stop at hle
        rw [(mem_gap hg h.1).2.1]
        omega
      · exact ih h.2 hg

/-- Those behind the next block are farther away than it. -/
theorem Laid.gap_behind (hpos : 0 < hdr) (h : Laid hdr lo cs hi) (hg : g ∈ gapsBehind hdr cs hi) :
    lo < g.ref := by
  cases cs with
  | nil => cases hg
  | cons c cs =>
      have hfront := h.front
      have hle := (h.2.gap_bounds hg).1
      unfold stop at hle
      omega

/-- Behind a block there is room for a header, or the next block. -/
theorem Laid.start (h : Laid hdr lo cs hi) : lo = startOf hi cs ∨ lo + hdr ≤ startOf hi cs := by
  cases cs with
  | nil => exact Or.inr h
  | cons c cs => exact h.1

/-- Nothing is placed exactly if no gap but the last is large enough, and the last would be used
up. -/
theorem Laid.place_eq_none_iff (minSize : Nat) (hpos : 0 < hdr) (h : Laid hdr lo cs hi) :
    Gaps.place hdr minSize n lo cs hi = none ↔
      (∀ g ∈ (gaps hdr lo cs hi).dropLast, g.size < n) ∧
        ∀ g ∈ (gaps hdr lo cs hi).getLast?, g.size ≤ hdr + n + minSize := by
  cases hfind : (gaps hdr lo cs hi).find? fun g => n ≤ g.size with
  | none =>
      have hsmall : ∀ g ∈ gaps hdr lo cs hi, g.size < n := fun g hg => by
        simpa using List.find?_eq_none.mp hfind g hg
      refine iff_of_true (h.place_eq_none hpos hsmall) ⟨fun g hg => ?_, fun g hg => ?_⟩
      · exact hsmall g ((List.dropLast_subset _ hg))
      · have := hsmall g (List.mem_of_getLast? hg)
        omega
  | some g =>
      obtain ⟨hle, xs, ys, hg, hxs⟩ := List.find?_eq_some_iff_append.mp hfind
      have hle : n ≤ g.size := by simpa using hle
      have hxs : ∀ x ∈ xs, x.size < n := fun x hx => by simpa using hxs x hx
      have hdrop : ys ≠ [] → g ∈ (gaps hdr lo cs hi).dropLast := fun hne => by
        rw [hg, List.dropLast_append_cons]
        refine List.mem_append_right _ ?_
        rw [List.dropLast_cons_of_ne_nil hne]
        exact List.mem_cons_self
      cases h.taken minSize hpos hg hxs hle with
      | front hlt cs' hp hg' =>
          rw [hp]
          refine iff_of_false (Option.some_ne_none _) fun ⟨hsmall, hlast⟩ => ?_
          by_cases hne : ys = []
          · subst hne
            rw [hg, List.getLast?_concat] at hlast
            have := hlast g rfl
            omega
          · have := hsmall g (hdrop hne)
            omega
      | whole hle' hlast cs' hp hg' =>
          rw [hp]
          refine iff_of_false (Option.some_ne_none _) fun ⟨hsmall, _⟩ => ?_
          have := hsmall g (hdrop hlast)
          omega
      | last hle' hlast hp =>
          subst hlast
          refine iff_of_true hp ⟨fun x hx => ?_, fun x hx => ?_⟩
          · rw [hg, List.dropLast_concat] at hx
            exact hxs x hx
          · rw [hg, List.getLast?_concat] at hx
            cases hx
            exact hle'

/-- What is not the same is apart, be it blocks or gaps. -/
theorem Laid.apart (h : Laid hdr lo cs hi) (hc : c ∈ cs ++ gaps hdr lo cs hi)
    (hg : g ∈ cs ++ gaps hdr lo cs hi) (hne : c ≠ g) : Apart hdr c g := by
  refine List.Pairwise.forall ?_ hc hg hne
  refine List.pairwise_append.mpr ⟨h.pairwise.imp Or.inl, ?_, fun c hc g hg => ?_⟩
  · exact h.gaps_pairwise.imp fun hle => Or.inl (by omega)
  · exact (h.gap_apart hg hc).symm

theorem Laid.apart_gap (h : Laid hdr lo cs hi) (hg : gaps hdr lo cs hi = xs ++ g :: ys)
    (hc : c ∈ cs ∨ c ∈ ys ++ xs) : stop hdr c ≤ g.ref ∨ stop hdr g ≤ c.ref := by
  have hmem : g ∈ gaps hdr lo cs hi := hg ▸ List.mem_append_right _ List.mem_cons_self
  have hgaps := h.gaps_pairwise
  rw [hg] at hgaps
  obtain ⟨-, hbehind, hbefore⟩ := List.pairwise_append.mp hgaps
  rcases hc with hc | hc
  · exact (h.gap_apart hmem hc).symm
  · rcases List.mem_append.mp hc with hc | hc
    · exact Or.inr (Nat.le_of_add_right_le ((List.pairwise_cons.mp hbehind).1 c hc))
    · exact Or.inl (Nat.le_of_add_right_le (hbefore c hc g List.mem_cons_self))

/-- What becomes of the gaps before a block and those behind it when it is given back: it is
joined with those that it touches. -/
inductive Joined (hdr : Nat) (c : Cell) (before behind gs : List Cell) : Prop where
  | both (xs ys : List Cell) (g g' : Cell) (hbefore : before = xs ++ [g])
      (hbehind : behind = g' :: ys) (hstop : stop hdr g = c.ref) (hstop' : stop hdr c = g'.ref)
      (hg : gs = xs ++ ⟨g.ref, g.size + (hdr + g'.size) + (hdr + c.size)⟩ :: ys)
  | before (xs : List Cell) (g : Cell) (hbefore : before = xs ++ [g])
      (hstop : stop hdr g = c.ref) (hnot : ∀ x ∈ behind, stop hdr c < x.ref)
      (hg : gs = xs ++ ⟨g.ref, g.size + (hdr + c.size)⟩ :: behind)
  | behind (ys : List Cell) (g : Cell) (hbehind : behind = g :: ys)
      (hstop : stop hdr c = g.ref) (hnot : ∀ x ∈ before, stop hdr x < c.ref)
      (hg : gs = before ++ ⟨c.ref, c.size + (hdr + g.size)⟩ :: ys)
  | apart (hnot : ∀ x ∈ before, stop hdr x < c.ref) (hnot' : ∀ x ∈ behind, stop hdr c < x.ref)
      (hg : gs = before ++ c :: behind)

theorem Laid.joined (hpos : 0 < hdr) (h : Laid hdr lo (before ++ c :: after) hi) :
    Joined hdr c (gaps hdr lo before c.ref) (gaps hdr (stop hdr c) after hi)
      (gaps hdr lo (before ++ after) hi) := by
  obtain ⟨hafter, hend⟩ := h.append
  have hstart := hafter.start
  have hfar : ∀ x ∈ gaps hdr lo before (endOf hdr lo before), stop hdr x < c.ref :=
    fun x hx => h.gap_far hpos hx
  have hbehind : ∀ x ∈ gapsBehind hdr after hi, stop hdr c < x.ref :=
    fun x hx => hafter.gap_behind hpos hx
  have hc : stop hdr c = c.ref + hdr + c.size := rfl
  rw [gaps_release, gaps_last lo before, gaps_first (stop hdr c)]
  generalize endOf hdr lo before = e at *
  generalize Gaps.startOf hi after = r at *
  have hwhole : gap hdr e r = [⟨e, r - (e + hdr)⟩] := gap_of_lt (by omega)
  rw [hwhole]
  rcases hend with rfl | hend
  · rw [gap_self, List.append_nil]
    rcases hstart with rfl | hstart
    · have hgap : (⟨c.ref, stop hdr c - (c.ref + hdr)⟩ : Cell) = c := by
        rw [hc, Nat.add_sub_cancel_left]
      rw [gap_self, List.nil_append, List.append_assoc, hgap]
      exact .apart hfar hbehind rfl
    · have hgap : (⟨c.ref, r - (c.ref + hdr)⟩ : Cell) =
          ⟨c.ref, c.size + (hdr + (r - (stop hdr c + hdr)))⟩ := by
        congr 1
        omega
      have hbehind' : gap hdr (stop hdr c) r = [⟨stop hdr c, r - (stop hdr c + hdr)⟩] :=
        gap_of_lt (by omega)
      rw [hbehind', List.append_assoc, hgap]
      exact .behind _ _ rfl rfl hfar rfl
  · have hfront : gap hdr e c.ref = [⟨e, c.ref - (e + hdr)⟩] := gap_of_lt (by omega)
    rw [hfront]
    have hstop : stop hdr ⟨e, c.ref - (e + hdr)⟩ = c.ref := by
      unfold stop
      dsimp only
      omega
    rcases hstart with rfl | hstart
    · have hgap : (⟨e, stop hdr c - (e + hdr)⟩ : Cell) =
          ⟨e, c.ref - (e + hdr) + (hdr + c.size)⟩ := by
        congr 1
        omega
      rw [gap_self, List.nil_append, List.append_assoc, hgap]
      exact .before _ _ rfl hstop hbehind rfl
    · have hgap : (⟨e, r - (e + hdr)⟩ : Cell) =
          ⟨e, c.ref - (e + hdr) + (hdr + (r - (stop hdr c + hdr))) + (hdr + c.size)⟩ := by
        congr 1
        omega
      have hbehind' : gap hdr (stop hdr c) r = [⟨stop hdr c, r - (stop hdr c + hdr)⟩] :=
        gap_of_lt (by omega)
      rw [hbehind', List.append_assoc, hgap]
      exact .both _ _ _ _ rfl rfl hstop rfl rfl

theorem Laid.sum (h : Laid hdr lo cs hi) :
    lo + ((cs.map fun c => hdr + c.size).sum +
      ((gaps hdr lo cs hi).map fun g => hdr + g.size).sum) = hi := by
  induction cs generalizing lo with
  | nil =>
      have hle : lo + hdr ≤ hi := h
      unfold gaps gap
      split
      · simp
        omega
      · simp
        omega
  | cons c cs ih =>
      have hrest := ih h.2
      have hgap : lo + ((gap hdr lo c.ref).map fun g => hdr + g.size).sum = c.ref := by
        have hfront := h.1
        unfold gap
        split
        · simp
          omega
        · simp
          omega
      unfold gaps
      unfold stop at hrest
      rw [List.map_append, List.sum_append, List.map_cons, List.sum_cons]
      unfold stop
      omega

theorem Laid.length_gaps (hpos : 0 < hdr) (h : Laid hdr lo cs hi) :
    (gaps hdr lo cs hi).length ≤ hi := by
  have hlen := List.length_le_sum_of_one_le ((gaps hdr lo cs hi).map fun g => hdr + g.size)
    fun i hi => by
      obtain ⟨g, -, rfl⟩ := List.mem_map.mp hi
      omega
  rw [List.length_map] at hlen
  have hsum := h.sum
  omega

end Gaps
