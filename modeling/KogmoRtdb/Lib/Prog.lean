import Mathlib.Logic.Basic

/-!
# Programs over a state, and their rules

A call of the modelled program is a function from the state it starts in
to its answer and the state it leaves, or to `none` when it has not
returned within the fuel it was given. `Triple P c Q` is partial
correctness in that sense: whenever `c` returns from a state with `P`,
its answer and its state are related by `Q`.

The rules follow the shape of the program text: one for each way of
putting programs together, and one for a loop over a list. A triple with
the same `P` before and after is an invariant of the call (`Keeps`). That
it returns at all is another matter (`Total`).
-/

universe u

abbrev Prog (σ : Type u) := StateT σ Option

namespace Prog

variable {σ α β ι : Type u} {P P' : σ → Prop}

def diverge : Prog σ α := fun _ => none

/-- An `if` without an `else`. -/
def when (p : Prop) [Decidable p] (c : Prog σ PUnit) : Prog σ PUnit :=
  if p then c else pure ⟨⟩

theorem when_pos {p : Prop} [Decidable p] {c : Prog σ PUnit} (hp : p) : when p c = c :=
  if_pos hp

/-- Whenever `c` returns from a state with `P`, it ends in `Q`. -/
def Triple (P : σ → Prop) (c : Prog σ α) (Q : α → σ → Prop) : Prop :=
  ∀ s a s', P s → c s = some (a, s') → Q a s'

/-- `P` is an invariant of the call. -/
def Keeps (P : σ → Prop) (c : Prog σ α) : Prop := Triple P c fun _ => P

theorem bind_some {c : Prog σ α} {f : α → Prog σ β} {s s'' : σ} {b : β} :
    (c >>= f) s = some (b, s'') ↔ ∃ a s', c s = some (a, s') ∧ f a s' = some (b, s'') := by
  constructor
  · intro h
    obtain ⟨⟨a, s'⟩, hc, hf⟩ := Option.bind_eq_some_iff.mp h
    exact ⟨a, s', hc, hf⟩
  · rintro ⟨a, s', hc, hf⟩
    exact Option.bind_eq_some_iff.mpr ⟨(a, s'), hc, hf⟩

theorem bind_congr {c c' : Prog σ α} {f f' : α → Prog σ β} {s : σ} (h : c s = c' s)
    (hf : ∀ a s', c s = some (a, s') → f a s' = f' a s') : (c >>= f) s = (c' >>= f') s := by
  show (c s).bind _ = (c' s).bind _
  rw [← h]
  exact Option.bind_congr fun ⟨a, s'⟩ hc => hf a s' hc

theorem pure_some {s s' : σ} {a b : α} :
    (pure a : Prog σ α) s = some (b, s') ↔ b = a ∧ s' = s := by
  constructor
  · intro h
    cases h
    exact ⟨rfl, rfl⟩
  · rintro ⟨rfl, rfl⟩
    rfl

namespace Triple

variable {Q Q' : α → σ → Prop}

theorem conseq {c : Prog σ α} (h : Triple P' c Q') (hP : ∀ s, P s → P' s)
    (hQ : ∀ a s, Q' a s → Q a s) : Triple P c Q := by
  intro s a s' hs hc
  exact hQ a s' (h s a s' (hP s hs) hc)

theorem pure {a : α} (h : ∀ s, P s → Q a s) : Triple P (pure a) Q := by
  intro s b s' hs hc
  obtain ⟨rfl, rfl⟩ := pure_some.mp hc
  exact h _ hs

theorem bind {R : β → σ → Prop} {c : Prog σ β} {f : β → Prog σ α}
    (hc : Triple P c R) (hf : ∀ b, Triple (R b) (f b) Q) : Triple P (c >>= f) Q := by
  intro s a s'' hs h
  obtain ⟨b, s', hc', hf'⟩ := bind_some.mp h
  exact hf b s' a s'' (hc s b s' hs hc') hf'

theorem ite {p : Prop} [Decidable p] {c d : Prog σ α} (hc : p → Triple P c Q)
    (hd : ¬ p → Triple P d Q) : Triple P (if p then c else d) Q := by
  split
  · exact hc ‹_›
  · exact hd ‹_›

theorem diverge : Triple P (diverge : Prog σ α) Q := by
  intro s a s' _ hc
  cases hc

end Triple

namespace Keeps

theorem pure {a : α} : Keeps P (pure a : Prog σ α) := Triple.pure fun _ hs => hs

theorem bind {c : Prog σ β} {f : β → Prog σ α} (hc : Keeps P c) (hf : ∀ b, Keeps P (f b)) :
    Keeps P (c >>= f) := Triple.bind hc hf

theorem ite {p : Prop} [Decidable p] {c d : Prog σ α} (hc : Keeps P c) (hd : Keeps P d) :
    Keeps P (if p then c else d) := Triple.ite (fun _ => hc) fun _ => hd

theorem when {p : Prop} [Decidable p] {c : Prog σ PUnit} (hc : p → Keeps P c) :
    Keeps P (when p c) := Triple.ite hc fun _ => Keeps.pure

end Keeps

/-- The loop rule: a loop over a list keeps what its body keeps. -/
theorem Keeps.forM {f : ι → Prog σ PUnit} :
    ∀ {l : List ι}, (∀ i ∈ l, Keeps P (f i)) → Keeps P (l.forM f)
  | [], _ => Keeps.pure
  | _ :: _, h => Keeps.bind (h _ List.mem_cons_self) fun _ =>
      Keeps.forM fun j hj => h j (List.mem_cons_of_mem _ hj)

def Total (c : Prog σ α) : Prop := ∀ s, ∃ a s', c s = some (a, s')

namespace Total

theorem pure {a : α} : Total (pure a : Prog σ α) := fun s => ⟨a, s, rfl⟩

theorem bind {c : Prog σ β} {f : β → Prog σ α} (hc : Total c) (hf : ∀ b, Total (f b)) :
    Total (c >>= f) := by
  intro s
  obtain ⟨b, s', hc'⟩ := hc s
  obtain ⟨a, s'', hf'⟩ := hf b s'
  exact ⟨a, s'', bind_some.mpr ⟨b, s', hc', hf'⟩⟩

theorem ite {p : Prop} [Decidable p] {c d : Prog σ α} (hc : p → Total c)
    (hd : ¬ p → Total d) : Total (if p then c else d) := by
  split
  · exact hc ‹_›
  · exact hd ‹_›

theorem when {p : Prop} [Decidable p] {c : Prog σ PUnit} (hc : p → Total c) :
    Total (when p c) := Total.ite hc fun _ => Total.pure

end Total

end Prog
