import Mathlib.Logic.Function.Basic

/-!
# Monitors

An error-checking mutex together with one condition variable, and the rules that keep a
waiter from missing its wakeup.

The operations are those of the usual wrappers: a holder's second `lock` and an `unlock` by
anyone else are reported as errors and ignored, `wait` gives up the mutex and blocks in one
step, and a broadcast wakes everyone who is blocked then. A woken process still has to take
the mutex again.

`Attended` is the invariant: whoever is blocked, or holds the mutex and has decided to
block, although what it waits for has come about, is owed a broadcast by someone. There
are two rules: `Attended.step` for a step that brings something about only for those whom its
process owes a broadcast from then on, and `Attended.broadcast` for the payment.
-/

universe u

/-- Who holds the mutex, and who is blocked in the condition variable's wait. -/
structure Monitor (π : Type u) where
  holder : Option π
  waiting : π → Bool

namespace Monitor

variable {π : Type u}

def free : Monitor π where
  holder := none
  waiting _ := false

def broadcast (m : Monitor π) : Monitor π := { m with waiting := fun _ => false }

section Operations

variable [DecidableEq π]

/-- `none` while someone else holds the mutex. -/
def lock (m : Monitor π) (p : π) : Option (Monitor π) :=
  match m.holder with
  | none => some { m with holder := some p }
  | some q => if q = p then some m else none

def unlock (m : Monitor π) (p : π) : Monitor π :=
  if m.holder = some p then { m with holder := none } else m

def wait (m : Monitor π) (p : π) : Option (Monitor π) :=
  if m.holder = some p then
    some { holder := none, waiting := Function.update m.waiting p true }
  else none

def wake (m : Monitor π) (p : π) : Monitor π :=
  { m with waiting := Function.update m.waiting p false }

end Operations

variable {m m' : Monitor π} {p q : π} {blocks : Prop}

/-! ## What the others see of an operation -/

/-- A step of `p`: the others hold what they held, and nobody begins to wait, unless `p` itself
`blocks`. -/
structure StepBy (p : π) (blocks : Prop) (m m' : Monitor π) : Prop where
  holder : ∀ q, q ≠ p → (m'.holder = some q ↔ m.holder = some q)
  waiting : ∀ q, m'.waiting q = true → m.waiting q = true ∨ q = p ∧ blocks

namespace StepBy

theorem refl : StepBy p blocks m m where
  holder _ _ := Iff.rfl
  waiting _ h := Or.inl h

theorem waiting_of_ne (h : StepBy p blocks m m') (hq : q ≠ p) (hw : m'.waiting q = true) :
    m.waiting q = true :=
  (h.waiting q hw).resolve_right fun hqp => hq hqp.1

theorem broadcast : StepBy p blocks m m.broadcast where
  holder _ _ := Iff.rfl
  waiting _ h := by cases h

variable [DecidableEq π]

theorem lock (h : m.lock p = some m') : StepBy p blocks m m' := by
  unfold Monitor.lock at h
  split at h
  · rename_i hnone
    cases h
    refine ⟨fun q hq => ?_, fun _ hw => Or.inl hw⟩
    simp [hnone, Ne.symm hq]
  · split at h
    · cases h
      exact refl
    · cases h

theorem unlock : StepBy p blocks m (m.unlock p) := by
  unfold Monitor.unlock
  split
  · rename_i hp
    refine ⟨fun q hq => ?_, fun _ hw => Or.inl hw⟩
    simp [hp, Ne.symm hq]
  · exact refl

theorem wait (h : m.wait p = some m') (hblocks : blocks) : StepBy p blocks m m' := by
  unfold Monitor.wait at h
  split at h
  · rename_i hp
    cases h
    refine ⟨fun q hq => ?_, fun q hw => ?_⟩
    · simp [hp, Ne.symm hq]
    · by_cases hq : q = p
      · exact Or.inr ⟨hq, hblocks⟩
      · simpa [Function.update_of_ne hq, hq] using hw
  · cases h

theorem wake : StepBy p blocks m (m.wake p) where
  holder _ _ := Iff.rfl
  waiting q hw := by
    by_cases hq : q = p
    · subst hq
      simp [Monitor.wake] at hw
    · simpa [Monitor.wake, Function.update_of_ne hq, hq] using hw

end StepBy

section Operations

variable [DecidableEq π]

theorem holder_of_lock (h : m.lock p = some m') : m'.holder = some p := by
  unfold lock at h
  split at h
  · cases h
    rfl
  · rename_i q hq
    split at h
    · rename_i hqp
      cases h
      rw [hq, hqp]
    · cases h

@[simp] theorem waiting_wake (m : Monitor π) (p : π) : (m.wake p).waiting p = false :=
  Function.update_self ..

end Operations

/-! ## Nobody waits in vain -/

/-- Whoever is blocked, or has decided to block, although it is `ready` to go on, is owed a
broadcast: `owes q p` says that `q` still has to make one that `p` can count on. -/
structure Attended (m : Monitor π) (decided ready : π → Prop) (owes : π → π → Prop) : Prop where
  holds : ∀ p, decided p → m.holder = some p
  owed : ∀ p, m.waiting p = true ∨ decided p → ready p → ∃ q, owes q p

namespace Attended

variable {decided ready decided' ready' : π → Prop} {owes owes' : π → π → Prop}

theorem free (h : ∀ p, ¬ decided p) : Attended Monitor.free decided ready owes where
  holds p hd := absurd hd (h p)
  owed p hw := by
    rcases hw with hw | hd
    · cases hw
    · exact absurd hd (h p)

/-- Nobody is blocked, and nobody has decided to block. -/
theorem quiet (hw : ∀ p, m.waiting p = false) (hd : ∀ p, ¬ decided p) :
    m.Attended decided ready owes where
  holds p h := absurd h (hd p)
  owed p h := by
    rcases h with h | h
    · rw [hw p] at h
      cases h
    · exact absurd h (hd p)

/-- `p` takes a step. It forgets no debt, and whom it makes ready it owes a broadcast; for `p`
itself there is something to show if it is blocked or decided afterwards. -/
theorem step (h : m.Attended decided ready owes) (hby : StepBy p blocks m m')
    (hdecided : ∀ q, q ≠ p → decided' q → decided q)
    (hready : ∀ q, q ≠ p → m.waiting q = true ∨ decided q → ready' q → ready q ∨ owes' p q)
    (howes : ∀ r q, q ≠ p → owes r q → owes' r q)
    (hholds : decided' p → m'.holder = some p)
    (hself : m'.waiting p = true ∨ decided' p → ready' p → ∃ q, owes' q p) :
    m'.Attended decided' ready' owes' where
  holds q hd := by
    by_cases hq : q = p
    · subst hq
      exact hholds hd
    · exact (hby.holder q hq).mpr (h.holds q (hdecided q hq hd))
  owed q hw hr := by
    by_cases hq : q = p
    · subst hq
      exact hself hw hr
    · have hw' := hw.imp (hby.waiting_of_ne hq) (hdecided q hq)
      rcases hready q hq hw' hr with hr | ho
      · obtain ⟨r, hr⟩ := h.owed q hw' hr
        exact ⟨r, howes r q hq hr⟩
      · exact ⟨p, ho⟩

/-- The holder of the mutex broadcasts: nobody is blocked, and nobody else can have decided
to block. -/
theorem broadcast (h : m.Attended decided ready owes) (hp : m.holder = some p)
    (hdecided : ∀ q, q ≠ p → decided' q → decided q) (hself : ¬ decided' p) :
    m.broadcast.Attended decided' ready' owes' := by
  have hnone : ∀ q, ¬ decided' q := by
    intro q hd
    have hq : q ≠ p := fun heq => hself (heq ▸ hd)
    have hheld := h.holds q (hdecided q hq hd)
    rw [hp] at hheld
    exact hq (Option.some.inj hheld).symm
  refine ⟨fun q hd => absurd hd (hnone q), fun q hw => ?_⟩
  rcases hw with hw | hd
  · cases hw
  · exact absurd hd (hnone q)

end Attended

end Monitor
