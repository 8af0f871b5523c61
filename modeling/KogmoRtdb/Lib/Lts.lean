/-!
# Transition systems and guarded runs

The run-level vocabulary shared by every concurrent model: a transition
system is a set of initial states and a partial, executable step
function (the label resolves all nondeterminism), and a property of
runs is proved once per step.

`Guarded G` collects the states reached by runs all of whose steps meet
`G`, a condition on the state *before* the step and the label taken.
`Reachable` is the unguarded case. The two proof rules are
`Guarded.invariant` (an inductive invariant holds in every state a
guarded run reaches) and `reachable_of_exec` (a concrete schedule that
executes reaches its final state), the latter for schedules that can
simply be evaluated.
-/

universe u v

/-- Initial states and a partial step function; `none` means the label is
not enabled. -/
structure Lts (σ : Type u) (ℓ : Type v) where
  init : σ → Prop
  step : σ → ℓ → Option σ

namespace Lts

variable {σ : Type u} {ℓ : Type v} {M : Lts σ ℓ}

/-- States reached by runs all of whose steps meet `G`. -/
inductive Guarded (M : Lts σ ℓ) (G : σ → ℓ → Prop) : σ → Prop where
  | init {s : σ} : M.init s → Guarded M G s
  | step {s s' : σ} {l : ℓ} :
      Guarded M G s → G s l → M.step s l = some s' → Guarded M G s'

def Reachable (M : Lts σ ℓ) : σ → Prop := M.Guarded fun _ _ => True

/-- Take the labels of a schedule one after the other. -/
def exec (M : Lts σ ℓ) : σ → List ℓ → Option σ
  | s, [] => some s
  | s, l :: ls => (M.step s l).bind fun s' => M.exec s' ls

/-- An inductive invariant holds in every state a guarded run reaches. -/
theorem Guarded.invariant {G : σ → ℓ → Prop} {I : σ → Prop}
    (hinit : ∀ s, M.init s → I s)
    (hstep : ∀ s l s', I s → G s l → M.step s l = some s' → I s')
    {s : σ} (h : M.Guarded G s) : I s := by
  induction h with
  | init h0 => exact hinit _ h0
  | step _ hg hs ih => exact hstep _ _ _ ih hg hs

theorem Guarded.mono {G G' : σ → ℓ → Prop} (hG : ∀ s l, G s l → G' s l)
    {s : σ} (h : M.Guarded G s) : M.Guarded G' s := by
  induction h with
  | init h0 => exact .init h0
  | step _ hg hs ih => exact .step ih (hG _ _ hg) hs

theorem Guarded.reachable {G : σ → ℓ → Prop} {s : σ} (h : M.Guarded G s) :
    M.Reachable s :=
  h.mono fun _ _ _ => trivial

/-- The invariant rule for unguarded runs. -/
theorem Reachable.invariant {I : σ → Prop}
    (hinit : ∀ s, M.init s → I s)
    (hstep : ∀ s l s', I s → M.step s l = some s' → I s')
    {s : σ} (h : M.Reachable s) : I s :=
  Guarded.invariant hinit (fun s l s' hI _ hs => hstep s l s' hI hs) h

def startingAt (M : Lts σ ℓ) (s₀ : σ) : Lts σ ℓ := { M with init := (· = s₀) }

theorem Guarded.exists_start {G : σ → ℓ → Prop} {s : σ} (h : M.Guarded G s) :
    ∃ s₀, M.init s₀ ∧ (M.startingAt s₀).Guarded G s := by
  induction h with
  | @init s h0 => exact ⟨s, h0, .init rfl⟩
  | step _ hg hs ih =>
      obtain ⟨s₀, h0, hrun⟩ := ih
      exact ⟨s₀, h0, .step hrun hg hs⟩

theorem reachable_of_exec_from :
    ∀ {ls : List ℓ} {s s' : σ}, M.Reachable s → M.exec s ls = some s' →
      M.Reachable s'
  | [], s, s', hr, he => by
      obtain rfl : s = s' := Option.some.inj he
      exact hr
  | l :: ls, s, s', hr, he => by
      obtain ⟨t, ht, he'⟩ := Option.bind_eq_some_iff.mp he
      exact reachable_of_exec_from (.step hr trivial ht) he'

/-- A schedule that executes from an initial state reaches its final state. -/
theorem reachable_of_exec {ls : List ℓ} {s s' : σ} (h0 : M.init s)
    (he : M.exec s ls = some s') : M.Reachable s' :=
  reachable_of_exec_from (.init h0) he

/-- A schedule that can be evaluated, with a test of its final state. -/
theorem exists_of_exec (ls : List ℓ) (p : σ → Bool) {s : σ} (h0 : M.init s)
    (he : (M.exec s ls).any p = true) : ∃ s', M.Reachable s' ∧ p s' = true := by
  obtain ⟨s', hs', hp⟩ := (Option.any_eq_true p _).mp he
  exact ⟨s', reachable_of_exec h0 hs', hp⟩

/-- `exec` of a schedule that meets the guard at every step. -/
def execGuarded (M : Lts σ ℓ) (G : σ → ℓ → Bool) : σ → List ℓ → Option σ
  | s, [] => some s
  | s, l :: ls =>
      if G s l then (M.step s l).bind fun s' => M.execGuarded G s' ls else none

theorem guarded_of_exec_from {G : σ → ℓ → Prop} {g : σ → ℓ → Bool}
    (hg : ∀ s l, g s l = true → G s l) :
    ∀ {ls : List ℓ} {s s' : σ}, M.Guarded G s →
      M.execGuarded g s ls = some s' → M.Guarded G s'
  | [], s, s', hr, he => by
      obtain rfl : s = s' := Option.some.inj he
      exact hr
  | l :: ls, s, s', hr, he => by
      rw [execGuarded] at he
      split at he
      · rename_i hgl
        obtain ⟨t, ht, he'⟩ := Option.bind_eq_some_iff.mp he
        exact guarded_of_exec_from hg (.step hr (hg _ _ hgl) ht) he'
      · cases he

/-- A schedule that executes and meets the guard reaches its final state by a
guarded run. -/
theorem guarded_of_exec {G : σ → ℓ → Prop} {g : σ → ℓ → Bool}
    (hg : ∀ s l, g s l = true → G s l) {ls : List ℓ} {s s' : σ}
    (h0 : M.init s) (he : M.execGuarded g s ls = some s') : M.Guarded G s' :=
  guarded_of_exec_from hg (.init h0) he

/-- A guarded schedule that can be evaluated, with a test of its final state. -/
theorem exists_of_execGuarded {G : σ → ℓ → Prop} {g : σ → ℓ → Bool}
    (hg : ∀ s l, g s l = true → G s l) (ls : List ℓ) (p : σ → Bool) {s : σ} (h0 : M.init s)
    (he : (M.execGuarded g s ls).any p = true) :
    ∃ s', M.Guarded G s' ∧ p s' = true := by
  obtain ⟨s', hs', hp⟩ := (Option.any_eq_true p _).mp he
  exact ⟨s', guarded_of_exec hg h0 hs', hp⟩

end Lts
