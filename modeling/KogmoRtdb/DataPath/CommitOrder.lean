import Mathlib.Logic.Function.Basic
import KogmoRtdb.DataPath.Search
import KogmoRtdb.Lib.Lts
import KogmoRtdb.Lib.Ring

/-!
# Commit order of publicly writable objects

Any number of writers inside `kogmo_rtdb_obj_writedata` on one object with
`flags.write_allow`. A call reads the clock first and takes `obj_lock` later,
after its checks, so a writer may hold the lock with an older clock reading than
that of a record already committed.

A step is one of: read the clock, look the object up (and check the arguments),
take `obj_lock`, test `cycle_watch`, choose the slot, invalidate it, fill it,
validate it, publish `history_slot`, release `obj_lock`. A slot is its stamp, 0
while it is invalid. The ghost field `log` holds the stamps committed so far,
oldest first (a commit counts from the publication of its slot on), and `locked`
the clock readings of the writers that have taken `obj_lock` so far.
-/

namespace KogmoRtdb.CommitOrder

structure Cfg where
  historySize : Nat
  simmode : Bool
  historySize_pos : 0 < historySize

/-- The next step of a writer; `ts` is its clock reading, from `choose` on its
commit stamp. -/
inductive Pc where
  | idle
  | lookup (ts : Int)
  | lock (ts : Int)
  | watch (ts : Int)
  | choose (ts : Int)
  | invalidate (ts : Int) (slot : Nat)
  | fill (ts : Int) (slot : Nat)
  | validate (ts : Int) (slot : Nat)
  | publish (ts : Int) (slot : Nat)
  | unlock
  deriving DecidableEq, Repr

structure State where
  clock : Int
  holder : Option Nat
  historySlot : Int
  ring : Nat → Int
  pc : Nat → Pc
  log : List Int
  locked : List Int

def State.init : State where
  clock := 0
  holder := none
  historySlot := -1
  ring _ := 0
  pc _ := .idle
  log := []
  locked := []

inductive Label where
  /-- writer `w` starts a call and reads `now` from the clock -/
  | clock (w : Nat) (now : Int)
  /-- `w` looks the object up; without `ok` its call is rejected -/
  | lookup (w : Nat) (ok : Bool)
  /-- `w` takes `obj_lock` -/
  | lock (w : Nat)
  /-- `w` tests `cycle_watch`; `tooFast` ends the call -/
  | watch (w : Nat) (tooFast : Bool)
  /-- any later step of `w` -/
  | next (w : Nat)
  deriving DecidableEq, Repr

def State.setPc (s : State) (w : Nat) (p : Pc) : State :=
  { s with pc := Function.update s.pc w p }

def State.setRing (s : State) (k : Nat) (ts : Int) : State :=
  { s with ring := Function.update s.ring k ts }

/-- The steps between `cycle_watch` and the release of `obj_lock`. -/
def nextStep (cfg : Cfg) (s : State) (w : Nat) : Pc → Option State
  | .choose ts =>
      let slot := (nextSlot cfg.historySize s.historySlot).toNat
      -- forge the stamp if the record about to be overwritten carries it
      let ts := if ts = s.ring slot ∧ ¬ cfg.simmode then ts + 1 else ts
      some (s.setPc w (.invalidate ts slot))
  | .invalidate ts slot => some ((s.setRing slot 0).setPc w (.fill ts slot))
  | .fill ts slot => some (s.setPc w (.validate ts slot))
  | .validate ts slot => some ((s.setRing slot ts).setPc w (.publish ts slot))
  | .publish ts slot =>
      some { s.setPc w .unlock with historySlot := slot, log := s.log ++ [ts] }
  | .unlock => some { s.setPc w .idle with holder := none }
  | _ => none

def step (cfg : Cfg) (s : State) : Label → Option State
  | .clock w now =>
      if s.pc w = .idle ∧ s.clock < now then
        some { s.setPc w (.lookup now) with clock := now }
      else none
  | .lookup w ok =>
      match s.pc w with
      | .lookup ts => some (s.setPc w (if ok then .lock ts else .idle))
      | _ => none
  | .lock w =>
      match s.pc w, s.holder with
      | .lock ts, none =>
          some { s.setPc w (.watch ts) with holder := some w, locked := ts :: s.locked }
      | _, _ => none
  | .watch w tooFast =>
      match s.pc w with
      | .watch ts => some (s.setPc w (if tooFast then .unlock else .choose ts))
      | _ => none
  | .next w => nextStep cfg s w (s.pc w)

def lts (cfg : Cfg) : Lts State Label where
  init s := s = State.init
  step := step cfg

/-! ## What is claimed -/

/-- The slots in ring order, from the oldest to `history_slot`. -/
def ringOrder (cfg : Cfg) (historySlot : Int) : List Nat :=
  (List.range cfg.historySize).map fun (j : Nat) =>
    ((historySlot + 1 + j) % cfg.historySize).toNat

/-- The holder of `obj_lock` has validated slot `k`, but not published it yet. -/
def Unpublished (s : State) (k : Nat) : Prop :=
  ∃ w ts, s.holder = some w ∧ s.pc w = .publish ts k

/-- The holder of `obj_lock` is between the invalidation and the validation of slot
`k`. -/
def InPreparation (s : State) (k : Nat) : Prop :=
  ∃ w ts, s.holder = some w ∧ (s.pc w = .fill ts k ∨ s.pc w = .validate ts k)

/-- The slot carries a stamp that counts: it is valid and published. -/
def Settled (s : State) (k : Nat) : Prop := s.ring k ≠ 0 ∧ ¬ Unpublished s k

/-- Commit order equals stamp order: the stamps of the valid slots increase in
ring order, and `history_slot` names a slot with the largest stamp committed so
far (or, in a ring of one slot, the slot that is being rewritten). A slot on its
way to publication, if valid, carries a stamp beyond all others. -/
structure Ordered (cfg : Cfg) (s : State) : Prop where
  increasing : (ringOrder cfg s.historySlot).Pairwise fun k k' =>
    Settled s k → Settled s k' → s.ring k < s.ring k'
  latest : ∀ x ∈ s.log, InPreparation s s.historySlot.toNat ∨
    x ≤ s.ring s.historySlot.toNat
  pending : ∀ k, Unpublished s k → s.ring k ≠ 0 →
    (∀ j < cfg.historySize, j ≠ k → s.ring j < s.ring k) ∧ ∀ x ∈ s.log, x < s.ring k

/-! ## The invariant -/

/-- The writer holds `obj_lock`. -/
def Pc.inside : Pc → Bool
  | .idle | .lookup _ | .lock _ => false
  | _ => true

/-- The slot that a writer is rewriting and has not published. -/
def Pc.rewrites : Pc → Option Nat
  | .fill _ k | .validate _ k | .publish _ k => some k
  | _ => none

/-- The slot under rewriting, if any: only the holder of `obj_lock` rewrites. -/
def State.busy (s : State) : Option Nat := s.holder.bind fun w => (s.pc w).rewrites

/-- The stamp of a writer inside `obj_lock` is beyond all stamps committed. -/
def Fresh (s : State) (ts : Int) : Prop := ts ∈ s.locked ∧ ∀ x ∈ s.log, x < ts

def PcInv (cfg : Cfg) (s : State) : Pc → Prop
  | .idle | .unlock => True
  | .lookup ts | .lock ts => 0 < ts
  | .watch ts | .choose ts => 0 < ts ∧ Fresh s ts
  | .invalidate ts k => 0 < ts ∧ Fresh s ts ∧ k = s.log.length % cfg.historySize
  | .fill ts k | .validate ts k =>
      0 < ts ∧ Fresh s ts ∧ k = s.log.length % cfg.historySize ∧ s.ring k = 0
  | .publish ts k =>
      0 < ts ∧ Fresh s ts ∧ k = s.log.length % cfg.historySize ∧ s.ring k = ts

/-- The latest history slot after `n` commits. -/
def lastSlot (cfg : Cfg) (n : Nat) : Int :=
  if n = 0 then -1 else ((n - 1) % cfg.historySize : Nat)

structure Inv (cfg : Cfg) (s : State) : Prop where
  clock : 0 ≤ s.clock
  holder : ∀ w, (s.pc w).inside = true ↔ s.holder = some w
  slot : s.historySlot = lastSlot cfg s.log.length
  /-- commit number `m` is in slot `m % historySize` until it is rewritten -/
  held : ∀ m x, s.log[m]? = some x → s.log.length ≤ m + cfg.historySize →
    s.busy ≠ some (m % cfg.historySize) → s.ring (m % cfg.historySize) = x
  empty : ∀ k, s.log.length ≤ k → s.busy ≠ some k → s.ring k = 0
  sorted : s.log.Pairwise (· < ·)
  positive : ∀ x ∈ s.log, 0 < x
  logged : ∀ x ∈ s.log, x ∈ s.locked
  pc : ∀ w, PcInv cfg s (s.pc w)

variable {cfg : Cfg} {s s' : State} {w : Nat}

/-! ## Projections -/

@[simp] theorem setPc_pc_self (s : State) (w : Nat) (p : Pc) : (s.setPc w p).pc w = p :=
  Function.update_self ..

theorem setPc_pc_ne (s : State) (p : Pc) {w v : Nat} (h : v ≠ w) :
    (s.setPc w p).pc v = s.pc v := Function.update_of_ne h ..

@[simp] theorem setRing_ring_self (s : State) (k : Nat) (ts : Int) :
    (s.setRing k ts).ring k = ts := Function.update_self ..

theorem setRing_ring_ne (s : State) (ts : Int) {k j : Nat} (h : j ≠ k) :
    (s.setRing k ts).ring j = s.ring j := Function.update_of_ne h ..

/-- Outside `obj_lock` a writer's invariant is about its clock reading only. -/
theorem PcInv.outside {p : Pc} (hp : p.inside = false) (h : PcInv cfg s p) :
    PcInv cfg s' p := by
  cases p <;> first | exact h | cases hp

theorem Inv.outside_of_ne (h : Inv cfg s) (hw : s.holder = some w) {v : Nat} (hv : v ≠ w) :
    (s.pc v).inside = false := by
  cases hin : (s.pc v).inside with
  | false => rfl
  | true =>
      rw [(h.holder v).mp hin] at hw
      exact absurd (Option.some.inj hw) hv

/-- What the holder of `obj_lock` rewrites is what its program counter says. -/
theorem busy_of_holder {t : State} {p : Pc} (hw : t.holder = some w) (hp : t.pc w = p) :
    t.busy = p.rewrites := by
  rw [State.busy, hw, Option.bind_some, hp]

theorem busy_of_free {t : State} (hw : t.holder = none) : t.busy = none := by
  rw [State.busy, hw, Option.bind_none]

/-! ## Steps -/

/-- A step that only moves a program counter, within or outside the lock. -/
theorem Inv.setPc (h : Inv cfg s) {p : Pc} (hin : p.inside = (s.pc w).inside)
    (hrw : p.rewrites = (s.pc w).rewrites) (hp : PcInv cfg s p) :
    Inv cfg (s.setPc w p) := by
  have hbusy : (s.setPc w p).busy = s.busy := by
    show s.holder.bind _ = s.holder.bind _
    cases hh : s.holder with
    | none => rfl
    | some v =>
        simp only [Option.bind_some]
        by_cases hv : v = w
        · rw [hv, setPc_pc_self, hrw]
        · rw [setPc_pc_ne s p hv]
  refine ⟨h.clock, fun v => ?_, h.slot, ?_, ?_, h.sorted, h.positive, h.logged, fun v => ?_⟩
  · by_cases hv : v = w
    · rw [hv, setPc_pc_self, hin]
      exact h.holder w
    · rw [setPc_pc_ne s p hv]
      exact h.holder v
  · rw [hbusy]
    exact h.held
  · rw [hbusy]
    exact h.empty
  · by_cases hv : v = w
    · rw [hv, setPc_pc_self]
      exact hp
    · rw [setPc_pc_ne s p hv]
      exact h.pc v

theorem Inv.store (h : Inv cfg s) {p p' : Pc} {x : Int} {k : Nat} (hw : s.holder = some w)
    (hpc : s.pc w = p) (hbusy : p.rewrites = none ∨ p.rewrites = some k)
    (hrw : p'.rewrites = some k) (hin : p'.inside = true)
    (hp' : PcInv cfg ((s.setRing k x).setPc w p') p') :
    Inv cfg ((s.setRing k x).setPc w p') := by
  have hb : s.busy = p.rewrites := busy_of_holder hw hpc
  have hb' : ((s.setRing k x).setPc w p').busy = some k := by
    rw [busy_of_holder (t := (s.setRing k x).setPc w p') hw (setPc_pc_self ..), hrw]
  have hold : ∀ j, ((s.setRing k x).setPc w p').busy ≠ some j → j ≠ k ∧ s.busy ≠ some j := by
    intro j hj
    rw [hb'] at hj
    have hjk : j ≠ k := fun he => hj (by rw [he])
    refine ⟨hjk, ?_⟩
    rcases hbusy with hn | hk
    · rw [hb, hn]
      exact fun hc => by cases hc
    · rw [hb, hk]
      exact hj
  refine ⟨h.clock, fun v => ?_, h.slot, fun m y hm hle hj => ?_, fun j hle hj => ?_, h.sorted,
    h.positive, h.logged, fun v => ?_⟩
  · by_cases hv : v = w
    · rw [hv, setPc_pc_self, hin]
      exact ⟨fun _ => hw, fun _ => rfl⟩
    · rw [setPc_pc_ne _ p' hv]
      exact h.holder v
  · obtain ⟨hjk, hnb⟩ := hold _ hj
    rw [show ((s.setRing k x).setPc w p').ring _ = s.ring _ from setRing_ring_ne s x hjk]
    exact h.held m y hm hle hnb
  · obtain ⟨hjk, hnb⟩ := hold _ hj
    rw [show ((s.setRing k x).setPc w p').ring _ = s.ring _ from setRing_ring_ne s x hjk]
    exact h.empty j hle hnb
  · by_cases hv : v = w
    · rw [hv, setPc_pc_self]
      exact hp'
    · rw [setPc_pc_ne _ p' hv]
      exact (h.pc v).outside (h.outside_of_ne hw hv)

/-- Step 7: the slot is published and the commit counts. -/
theorem Inv.publish (h : Inv cfg s) {ts : Int} {k : Nat} (hw : s.holder = some w)
    (hpc : s.pc w = .publish ts k) :
    Inv cfg { s.setPc w .unlock with historySlot := k, log := s.log ++ [ts] } := by
  have hpi := h.pc w
  rw [hpc] at hpi
  obtain ⟨hpos, ⟨hlocked, hfresh⟩, hk, hring⟩ := hpi
  have hhs := cfg.historySize_pos
  have hb : s.busy = some k := busy_of_holder hw hpc
  have hb' : State.busy { s.setPc w .unlock with historySlot := k, log := s.log ++ [ts] } =
      none := by
    show (s.holder.bind fun v => ((s.setPc w .unlock).pc v).rewrites) = none
    rw [hw, Option.bind_some, setPc_pc_self]
    rfl
  have hlen : (s.log ++ [ts]).length = s.log.length + 1 := by simp
  refine ⟨h.clock, fun v => ?_, ?_, fun m x hm hle _ => ?_, fun j hle _ => ?_, ?_, ?_, ?_,
    fun v => ?_⟩
  · by_cases hv : v = w
    · show ((s.setPc w .unlock).pc v).inside = true ↔ s.holder = some v
      rw [hv, setPc_pc_self]
      exact ⟨fun _ => hw, fun _ => rfl⟩
    · show ((s.setPc w .unlock).pc v).inside = true ↔ s.holder = some v
      rw [setPc_pc_ne _ _ hv]
      exact h.holder v
  · show (k : Int) = lastSlot cfg (s.log ++ [ts]).length
    rw [hlen, lastSlot, if_neg (by omega), Nat.add_sub_cancel, hk]
  · show s.ring _ = x
    rw [hlen] at hle
    rcases Nat.lt_or_ge m s.log.length with hlt | hge
    · rw [List.getElem?_append_left hlt] at hm
      refine h.held m x hm (by omega) ?_
      rw [hb, hk]
      exact fun hc => Ring.mod_ne_of_lt hlt (by omega) (Option.some.inj hc).symm
    · have hml : m < (s.log ++ [ts]).length := (List.getElem?_eq_some_iff.mp hm).1
      obtain rfl : m = s.log.length := by omega
      rw [List.getElem?_append_right (Nat.le_refl _), Nat.sub_self] at hm
      cases hm
      rw [← hk]
      exact hring
  · show s.ring j = 0
    rw [hlen] at hle
    refine h.empty j (by omega) ?_
    rw [hb, hk]
    have := Nat.mod_le s.log.length cfg.historySize
    exact fun hc => by have := Option.some.inj hc; omega
  · exact List.pairwise_append.mpr ⟨h.sorted, List.pairwise_singleton _ _,
      fun x hx y hy => by rw [List.mem_singleton.mp hy]; exact hfresh x hx⟩
  · intro x hx
    rcases List.mem_append.mp hx with hx | hx
    · exact h.positive x hx
    · rw [List.mem_singleton.mp hx]
      exact hpos
  · intro x hx
    rcases List.mem_append.mp hx with hx | hx
    · exact h.logged x hx
    · rw [List.mem_singleton.mp hx]
      exact hlocked
  · by_cases hv : v = w
    · show PcInv cfg _ ((s.setPc w .unlock).pc v)
      rw [hv, setPc_pc_self]
      trivial
    · show PcInv cfg _ ((s.setPc w .unlock).pc v)
      rw [setPc_pc_ne _ _ hv]
      exact (h.pc v).outside (h.outside_of_ne hw hv)

theorem Inv.unlock (h : Inv cfg s) (hw : s.holder = some w) (hpc : s.pc w = .unlock) :
    Inv cfg { s.setPc w .idle with holder := none } := by
  have hb : s.busy = none := by rw [busy_of_holder hw hpc]; rfl
  refine ⟨h.clock, fun v => ?_, h.slot, fun m x hm hle _ => ?_, fun j hle _ => ?_, h.sorted,
    h.positive, h.logged, fun v => ?_⟩
  · have hout : ((s.setPc w .idle).pc v).inside = false := by
      by_cases hv : v = w
      · rw [hv, setPc_pc_self]
        rfl
      · rw [setPc_pc_ne _ _ hv]
        exact h.outside_of_ne hw hv
    show ((s.setPc w .idle).pc v).inside = true ↔ none = some v
    rw [hout]
    exact ⟨fun hc => (by cases hc), fun hc => (by cases hc)⟩
  · exact h.held m x hm hle (by rw [hb]; exact fun hc => by cases hc)
  · exact h.empty j hle (by rw [hb]; exact fun hc => by cases hc)
  · by_cases hv : v = w
    · show PcInv cfg _ ((s.setPc w .idle).pc v)
      rw [hv, setPc_pc_self]
      trivial
    · show PcInv cfg _ ((s.setPc w .idle).pc v)
      rw [setPc_pc_ne _ _ hv]
      exact (h.pc v).outside (h.outside_of_ne hw hv)

/-- Taking `obj_lock` with a clock reading beyond those of all earlier holders. -/
theorem Inv.lock (h : Inv cfg s) {ts : Int} (hw : s.holder = none) (hpc : s.pc w = .lock ts)
    (horder : ∀ t ∈ s.locked, t < ts) :
    Inv cfg { s.setPc w (.watch ts) with holder := some w, locked := ts :: s.locked } := by
  have hpi := h.pc w
  rw [hpc] at hpi
  have hout : ∀ v, (s.pc v).inside = false := fun v => by
    cases hin : (s.pc v).inside with
    | false => rfl
    | true =>
        rw [(h.holder v).mp hin] at hw
        cases hw
  refine ⟨h.clock, fun v => ?_, h.slot, fun m x hm hle _ => ?_, fun j hle _ => ?_, h.sorted,
    h.positive, fun x hx => List.mem_cons_of_mem _ (h.logged x hx), fun v => ?_⟩
  · by_cases hv : v = w
    · show ((s.setPc w (.watch ts)).pc v).inside = true ↔ some w = some v
      rw [hv, setPc_pc_self]
      exact ⟨fun _ => rfl, fun _ => rfl⟩
    · show ((s.setPc w (.watch ts)).pc v).inside = true ↔ some w = some v
      rw [setPc_pc_ne _ _ hv, hout v]
      exact ⟨fun hc => (by cases hc), fun hc => absurd (Option.some.inj hc).symm hv⟩
  · exact h.held m x hm hle (by rw [busy_of_free hw]; exact fun hc => by cases hc)
  · exact h.empty j hle (by rw [busy_of_free hw]; exact fun hc => by cases hc)
  · by_cases hv : v = w
    · show PcInv cfg _ ((s.setPc w (.watch ts)).pc v)
      rw [hv, setPc_pc_self]
      exact ⟨hpi, List.mem_cons_self, fun x hx => horder x (h.logged x hx)⟩
    · show PcInv cfg _ ((s.setPc w (.watch ts)).pc v)
      rw [setPc_pc_ne _ _ hv]
      exact (h.pc v).outside (hout v)

theorem nextSlot_lastSlot (cfg : Cfg) (n : Nat) :
    (nextSlot cfg.historySize (lastSlot cfg n)).toNat = n % cfg.historySize := by
  rw [lastSlot]
  split
  · rename_i h0
    simp [nextSlot, h0]
  · rw [nextSlot, if_neg (by omega), Ring.tmod_succ, Int.toNat_natCast]
    congr 1
    omega

/-- No record in the ring carries the stamp of a writer inside `obj_lock`, so no
stamp is forged. -/
theorem Inv.no_forging (h : Inv cfg s) {ts : Int} (hfree : s.busy = none) (hpos : 0 < ts)
    (hfresh : Fresh s ts) : ts ≠ s.ring (s.log.length % cfg.historySize) := by
  have hnb : s.busy ≠ some (s.log.length % cfg.historySize) := by
    rw [hfree]
    exact fun hc => by cases hc
  have hhs := cfg.historySize_pos
  rcases Nat.lt_or_ge s.log.length cfg.historySize with hlt | hge
  · rw [h.empty _ (Nat.le_of_eq (Nat.mod_eq_of_lt hlt).symm) hnb]
    omega
  · -- the oldest of the last `historySize` commits
    have hm : s.log.length - cfg.historySize < s.log.length := by omega
    have hmod : (s.log.length - cfg.historySize) % cfg.historySize =
        s.log.length % cfg.historySize := (Ring.mod_eq_of_add (by omega)).symm
    have hx := h.held _ _ (List.getElem?_eq_getElem hm) (by omega) (by rwa [hmod])
    rw [hmod] at hx
    rw [hx]
    have := hfresh.2 _ (List.getElem_mem hm)
    omega

/-- A step of the holder of `obj_lock` past the `cycle_watch` test. -/
theorem nextStep_inv (h : Inv cfg s) (hs : nextStep cfg s w (s.pc w) = some s') :
    Inv cfg s' := by
  have hpi := h.pc w
  have hhold : (s.pc w).inside = true → s.holder = some w := (h.holder w).mp
  cases hpc : s.pc w with
  | idle => rw [hpc] at hs; cases hs
  | lookup ts => rw [hpc] at hs; cases hs
  | lock ts => rw [hpc] at hs; cases hs
  | watch ts => rw [hpc] at hs; cases hs
  | choose ts =>
      rw [hpc] at hs hpi hhold
      have hb : s.busy = none := by rw [busy_of_holder (hhold rfl) hpc]; rfl
      have hne := h.no_forging hb hpi.1 hpi.2
      simp only [nextStep, h.slot, nextSlot_lastSlot, if_neg (fun hc => hne (And.left hc))] at hs
      cases hs
      exact h.setPc (by rw [hpc]; rfl) (by rw [hpc]; rfl) ⟨hpi.1, hpi.2, rfl⟩
  | invalidate ts k =>
      rw [hpc] at hs hpi hhold
      cases hs
      obtain ⟨hpos, hfresh, hk⟩ := hpi
      exact h.store (hhold rfl) hpc (Or.inl rfl) rfl rfl
        ⟨hpos, hfresh, hk, setRing_ring_self ..⟩
  | fill ts k =>
      rw [hpc] at hs hpi
      cases hs
      exact h.setPc (by rw [hpc]; rfl) (by rw [hpc]; rfl) hpi
  | validate ts k =>
      rw [hpc] at hs hpi hhold
      cases hs
      obtain ⟨hpos, hfresh, hk, _⟩ := hpi
      exact h.store (hhold rfl) hpc (Or.inr rfl) rfl rfl
        ⟨hpos, hfresh, hk, setRing_ring_self ..⟩
  | publish ts k =>
      rw [hpc] at hs hhold
      cases hs
      exact h.publish (hhold rfl) hpc
  | unlock =>
      rw [hpc] at hs hhold
      cases hs
      exact h.unlock (hhold rfl) hpc

/-- The condition on a run: the writers take `obj_lock` in the order in which they
read the clock. -/
def LocksInClockOrder (s : State) : Label → Prop
  | .lock w =>
      match s.pc w with
      | .lock ts => ∀ t ∈ s.locked, t < ts
      | _ => True
  | _ => True

instance (s : State) (l : Label) : Decidable (LocksInClockOrder s l) := by
  cases l <;> dsimp only [LocksInClockOrder] <;> (try split) <;> infer_instance

theorem step_inv {l : Label} (h : Inv cfg s) (hg : LocksInClockOrder s l)
    (hs : step cfg s l = some s') : Inv cfg s' := by
  cases l with
  | clock w now =>
      simp only [step] at hs
      split at hs
      · rename_i hc
        cases hs
        have hclock := h.clock
        have hset := h.setPc (w := w) (p := .lookup now) (by rw [hc.1]; rfl)
          (by rw [hc.1]; rfl) (show 0 < now by omega)
        exact ⟨show 0 ≤ now by omega, hset.holder, hset.slot, hset.held, hset.empty,
          hset.sorted, hset.positive, hset.logged, fun v => (by
            have hv := hset.pc v
            show PcInv cfg _ ((s.setPc w (.lookup now)).pc v)
            cases hp : (s.setPc w (.lookup now)).pc v <;> rw [hp] at hv <;> exact hv)⟩
      · cases hs
  | lookup w ok =>
      simp only [step] at hs
      split at hs
      · rename_i ts hpc
        cases hs
        have hpi := h.pc w
        rw [hpc] at hpi
        cases ok with
        | true => exact h.setPc (by rw [hpc]; rfl) (by rw [hpc]; rfl) hpi
        | false => exact h.setPc (by rw [hpc]; rfl) (by rw [hpc]; rfl) trivial
      · cases hs
  | lock w =>
      simp only [step] at hs
      split at hs
      · rename_i ts hpc hfree
        cases hs
        rw [LocksInClockOrder, hpc] at hg
        exact h.lock hfree hpc hg
      · cases hs
  | watch w tooFast =>
      simp only [step] at hs
      split at hs
      · rename_i ts hpc
        cases hs
        have hpi := h.pc w
        rw [hpc] at hpi
        cases tooFast with
        | true => exact h.setPc (by rw [hpc]; rfl) (by rw [hpc]; rfl) trivial
        | false => exact h.setPc (by rw [hpc]; rfl) (by rw [hpc]; rfl) hpi
      · cases hs
  | next w => exact nextStep_inv h hs

theorem inv_init (cfg : Cfg) : Inv cfg State.init where
  clock := Int.le_refl 0
  holder _ := ⟨fun hc => (by cases hc), fun hc => (by cases hc)⟩
  slot := rfl
  held _ _ hm := by cases hm
  empty _ _ _ := rfl
  sorted := .nil
  positive _ hx := by cases hx
  logged _ hx := by cases hx
  pc _ := trivial

/-! ## The order -/

/-- The slots in ring order, counted from the number of commits. -/
theorem ringOrder_lastSlot (cfg : Cfg) (n : Nat) :
    ringOrder cfg (lastSlot cfg n) =
      (List.range cfg.historySize).map fun j => (n + j) % cfg.historySize := by
  rw [ringOrder]
  refine List.map_congr_left fun j _ => ?_
  rw [lastSlot]
  split
  · rename_i h0
    rw [h0, show (-1 + 1 + (j : Int)) = (j : Nat) by omega, ← Int.natCast_emod,
      Int.toNat_natCast, Nat.zero_add]
  · rw [show ((((n - 1) % cfg.historySize : Nat) : Int) + 1 + j) =
        (((n - 1) % cfg.historySize + (1 + j) : Nat) : Int) by omega, ← Int.natCast_emod,
      Int.toNat_natCast, Nat.mod_add_mod, show n - 1 + (1 + j) = n + j by omega]

/-- Who rewrites a slot: it is invalid, or validated and not yet published. -/
theorem Inv.busy_cases (h : Inv cfg s) {k : Nat} (hb : s.busy = some k) :
    (InPreparation s k ∧ s.ring k = 0) ∨
      (Unpublished s k ∧ ∀ x ∈ s.log, x < s.ring k) := by
  obtain ⟨w, hw, hrw⟩ := Option.bind_eq_some_iff.mp hb
  have hpi := h.pc w
  cases hpc : s.pc w with
  | fill ts j =>
      rw [hpc] at hrw hpi
      cases hrw
      exact Or.inl ⟨⟨w, ts, hw, Or.inl hpc⟩, hpi.2.2.2⟩
  | validate ts j =>
      rw [hpc] at hrw hpi
      cases hrw
      exact Or.inl ⟨⟨w, ts, hw, Or.inr hpc⟩, hpi.2.2.2⟩
  | publish ts j =>
      rw [hpc] at hrw hpi
      cases hrw
      exact Or.inr ⟨⟨w, ts, hw, hpc⟩, fun x hx => by rw [hpi.2.2.2]; exact hpi.2.1.2 x hx⟩
  | _ => rw [hpc] at hrw; cases hrw

/-- A slot nobody rewrites is one that was never written, or holds the commit of
its number. -/
theorem Inv.slot_cases (h : Inv cfg s) {j : Nat} (hj : j < cfg.historySize)
    (hb : s.busy ≠ some ((s.log.length + j) % cfg.historySize)) :
    s.ring ((s.log.length + j) % cfg.historySize) = 0 ∨
      cfg.historySize ≤ s.log.length + j ∧
        s.log[s.log.length + j - cfg.historySize]? =
          some (s.ring ((s.log.length + j) % cfg.historySize)) := by
  rcases Nat.lt_or_ge (s.log.length + j) cfg.historySize with hlt | hge
  · refine Or.inl (h.empty _ ?_ hb)
    rw [Nat.mod_eq_of_lt hlt]
    omega
  · refine Or.inr ⟨hge, ?_⟩
    have hm : s.log.length + j - cfg.historySize < s.log.length := by omega
    have hmod : (s.log.length + j - cfg.historySize) % cfg.historySize =
        (s.log.length + j) % cfg.historySize := (Ring.mod_eq_of_add (by omega)).symm
    have hx := h.held _ _ (List.getElem?_eq_getElem hm) (by omega) (by rwa [hmod])
    rw [hmod] at hx
    rw [hx, List.getElem?_eq_getElem hm]

theorem Inv.ordered (h : Inv cfg s) : Ordered cfg s where
  increasing := by
    rw [h.slot, ringOrder_lastSlot, List.pairwise_map]
    refine List.Pairwise.imp_of_mem ?_ List.pairwise_lt_range
    intro i j hi hj hij hsi hsj
    -- a settled slot holds the commit of its number
    have held : ∀ k ∈ List.range cfg.historySize,
        Settled s ((s.log.length + k) % cfg.historySize) →
        cfg.historySize ≤ s.log.length + k ∧ s.log[s.log.length + k - cfg.historySize]? =
          some (s.ring ((s.log.length + k) % cfg.historySize)) := by
      intro k hk ⟨hne, hpub⟩
      have hnb : s.busy ≠ some ((s.log.length + k) % cfg.historySize) := by
        intro hb
        rcases h.busy_cases hb with ⟨_, h0⟩ | ⟨hup, _⟩
        · exact hne h0
        · exact hpub hup
      rcases h.slot_cases (List.mem_range.mp hk) hnb with h0 | hx
      · exact absurd h0 hne
      · exact hx
    obtain ⟨hgei, hxi⟩ := held i hi hsi
    obtain ⟨hgej, hxj⟩ := held j hj hsj
    obtain ⟨hli, hxi⟩ := List.getElem?_eq_some_iff.mp hxi
    obtain ⟨hlj, hxj⟩ := List.getElem?_eq_some_iff.mp hxj
    rw [← hxi, ← hxj]
    exact List.pairwise_iff_getElem.mp h.sorted _ _ hli hlj (by omega)
  latest := by
    intro x hx
    have hn : s.log.length ≠ 0 := by
      have := List.length_pos_of_mem hx
      omega
    have hslot : s.historySlot.toNat = (s.log.length - 1) % cfg.historySize := by
      rw [h.slot, lastSlot, if_neg hn, Int.toNat_natCast]
    rw [hslot]
    by_cases hb : s.busy = some ((s.log.length - 1) % cfg.historySize)
    · rcases h.busy_cases hb with ⟨hprep, _⟩ | ⟨_, hlt⟩
      · exact Or.inl hprep
      · exact Or.inr (Int.le_of_lt (hlt x hx))
    · refine Or.inr ?_
      have hlast : s.log.length - 1 < s.log.length := by omega
      have hhs := cfg.historySize_pos
      rw [h.held _ _ (List.getElem?_eq_getElem hlast) (by omega) hb]
      obtain ⟨m, hm, rfl⟩ := List.getElem_of_mem hx
      rcases Nat.lt_or_ge m (s.log.length - 1) with hlt | hge
      · exact Int.le_of_lt (List.pairwise_iff_getElem.mp h.sorted _ _ hm hlast hlt)
      · have hme : m = s.log.length - 1 := by omega
        simp only [hme, Int.le_refl]
  pending := by
    rintro k ⟨w, ts, hw, hpc⟩ _
    have hpi := h.pc w
    rw [hpc] at hpi
    obtain ⟨hpos, ⟨_, hfresh⟩, _, hring⟩ := hpi
    have hb : s.busy = some k := by
      rw [busy_of_holder hw hpc]
      rfl
    rw [hring]
    refine ⟨fun j hj hne => ?_, hfresh⟩
    obtain ⟨i, hi, rfl⟩ := Ring.exists_shift s.log.length hj
    rcases h.slot_cases hi (by rw [hb]; exact fun hc => hne (Option.some.inj hc).symm)
      with h0 | ⟨_, hx⟩
    · rw [h0]
      exact hpos
    · exact hfresh _ (List.mem_of_getElem? hx)

/-- Commit order equals stamp order in every state of a run in which the writers
take `obj_lock` in the order in which they read the clock. -/
theorem ordered_of_guarded (h : (lts cfg).Guarded LocksInClockOrder s) : Ordered cfg s :=
  (h.invariant (I := Inv cfg) (fun s h0 => by cases h0; exact inv_init cfg)
    fun _ _ _ hi hg hs => step_inv hi hg hs).ordered

/-! ## Schedules -/

def exampleCfg : Cfg where
  historySize := 2
  simmode := false
  historySize_pos := by decide

/-- From `obj_lock` to its release. -/
def commitSteps (w : Nat) : List Label := [.lock w, .watch w false] ++ List.replicate 6 (.next w)

/-- Two writers, the one that reads the clock first also locks first. -/
theorem ordered_of_guarded_two : ∃ s, (lts exampleCfg).Guarded LocksInClockOrder s ∧
    Ordered exampleCfg s ∧ s.log = [1, 2] := by
  obtain ⟨s, hr, hp⟩ := (lts exampleCfg).exists_of_execGuarded (G := LocksInClockOrder)
    (g := fun s l => decide (LocksInClockOrder s l)) (fun _ _ => of_decide_eq_true)
    ([.clock 0 1, .clock 1 2, .lookup 1 true, .lookup 0 true] ++ commitSteps 0 ++
      commitSteps 1)
    (fun s => decide (s.log = [1, 2])) (s := State.init) rfl (by decide +kernel)
  exact ⟨s, hr, ordered_of_guarded hr, of_decide_eq_true hp⟩

/-- Writer 0 reads the clock before writer 1 and takes `obj_lock` after it: the
older stamp is committed last, and `history_slot` names it. -/
theorem exists_unordered : ∃ s, (lts exampleCfg).Reachable s ∧ ¬ Ordered exampleCfg s := by
  obtain ⟨s, hr, hp⟩ := (lts exampleCfg).exists_of_exec
    ([.clock 0 1, .clock 1 2, .lookup 1 true, .lookup 0 true] ++ commitSteps 1 ++
      commitSteps 0)
    (fun s => decide (s.holder = none ∧ s.log = [2, 1] ∧ s.historySlot = 1 ∧
      s.ring 1 = 1)) (s := State.init) rfl (by decide +kernel)
  obtain ⟨hfree, hlog, hslot, hring⟩ := of_decide_eq_true hp
  refine ⟨s, hr, fun h => ?_⟩
  rcases h.latest 2 (by rw [hlog]; decide) with ⟨w, _, hw, _⟩ | hle
  · rw [hfree] at hw
    cases hw
  · rw [hslot] at hle
    change 2 ≤ s.ring 1 at hle
    omega

end KogmoRtdb.CommitOrder
