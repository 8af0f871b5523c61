import KogmoRtdb.Notify.WatchedSlot

/-!
# The rounds of a waiter

What a call of `kogmo_rtdb_obj_readdata_waitnext` knows of its slot in which place of its loop
(`InLoop`). In a round that begins after the deletion of the object it gets no further than to the
look for a deletion (`LoopPc.early`), and in no round after the first is it refused to read. Others
leave this knowledge alone (`InCall.change`), and the call's own steps keep it up
(`Waitnext.inCall`).
-/

namespace KogmoRtdb

/-! ## What a waiter knows -/

def LoopPc.leaves : LoopPc → Bool
  | .leave _ | .timedOut _ | .blocked true | .woken true | .unlocked true => true
  | _ => false

/-- The slot that a call of `waitnext` still goes by. -/
def Pc.watches : Pc → Option Nat
  | .waitnext _ (.flags i) => some i
  | .waitnext _ (.loop l pc) => if pc.leaves then none else some l.i
  | _ => none

/-- In a round that begins after the deletion the loop gets no further. -/
def LoopPc.early : LoopPc → Bool
  | .lookup | .checks _ | .histSlot _ | .test .. | .deletedTs .. | .deletedTest | .leave _ => true
  | _ => false

/-- The look for a deletion is behind, and the loop may come to wait. -/
def LoopPc.decided : LoopPc → Bool
  | .scanHi .. | .scanLo .. | .finLo .. | .finHi .. | .stale .. | .retSize .. | .wait _ => true
  | _ => false

/-- The slot that `readdata` works on. -/
def LoopPc.slot? : LoopPc → Option Nat
  | .checks j | .histSlot j | .test j _ | .deletedTs j _ | .scanHi j _ | .scanLo j _ _
  | .finLo j _ _ | .finHi j _ _ _ | .stale j _ _ | .retSize j _ _ => some j
  | _ => none

/-- In this round `readdata` has not refused to read. -/
def LoopPc.permitted : LoopPc → Bool
  | .prepare | .lookup | .checks _ | .leave _ => false
  | _ => true

/-- `readdata` does not answer with `-KOGMO_RTDB_ERR_NOPERM`. -/
def ObjInfo.Permits (info : ObjInfo) (h : Handle) : Prop :=
  info.bufferIdx = 0 ∨ info.readDenied h = false

def WaitPc.late : WaitPc → Bool
  | .loop l _ => l.late
  | _ => false

structure Round (dead : List ObjId) (m : Nat → ObjInfo) (c : Waitnext) (l : WaitLoop)
    (pc : LoopPc) : Prop where
  slot : SlotOf dead m c.oid l.i
  looks : ∀ j, pc.slot? = some j → j = l.i
  permit : l.again = true ∨ pc.permitted = true → (m l.i).oid = c.oid → (m l.i).Permits c.h
  checks : ∀ j, pc = .checks j → l.again = true → (m l.i).Permits c.h

structure InLoop (dead : List ObjId) (m : Nat → ObjInfo) (c : Waitnext) (l : WaitLoop)
    (pc : LoopPc) : Prop where
  late : l.late = true → c.oid ∈ dead ∧ pc.early = true
  left : ∀ ret, pc = .leave ret → l.again = true → l.late = true → ret = some (-Err.notFound.code)
  round : pc.leaves = false → Round dead m c l pc

def InCall (dead : List ObjId) (m : Nat → ObjInfo) (c : Waitnext) : WaitPc → Prop
  | .flags i => SlotOf dead m c.oid i
  | .loop l pc => InLoop dead m c l pc
  | _ => True

section Waiter

variable {dead dead' : List ObjId} {m m' : Nat → ObjInfo} {entered : Option Nat} {c : Waitnext}
  {l : WaitLoop} {pc pc' : LoopPc}

theorem Round.change (hc : TableChange dead m dead' m' entered) (ht : TableOk dead m)
    (h0 : c.oid ≠ 0) (hentered : entered ≠ some l.i) (h : Round dead m c l pc) :
    Round dead' m' c l pc := by
  obtain ⟨hoid, hidx, hdenied⟩ := h.slot.entry hc h0 hentered
  have hpermits : (m l.i).Permits c.h → (m' l.i).Permits c.h := by
    unfold ObjInfo.Permits
    rw [hidx, hdenied]
    exact id
  exact ⟨h.slot.change hc ht h0 hentered, h.looks, fun hp heq => hpermits (h.permit hp (hoid heq)),
    fun j hj hagain => hpermits (h.checks j hj hagain)⟩

theorem InCall.change {pc : WaitPc} (hc : TableChange dead m dead' m' entered)
    (ht : TableOk dead m) (h0 : c.oid ≠ 0)
    (hentered : ∀ i, entered = some i → (Pc.waitnext c pc).watches ≠ some i)
    (h : InCall dead m c pc) : InCall dead' m' c pc := by
  cases pc with
  | flags i =>
      have h : SlotOf dead m c.oid i := h
      exact h.change hc ht h0 fun heq => hentered i heq rfl
  | loop l pc =>
      refine ⟨fun hlate => ⟨hc.dead_mono (h.late hlate).1, (h.late hlate).2⟩, h.left, fun hl => ?_⟩
      refine (h.round hl).change hc ht h0 fun heq => hentered l.i heq ?_
      simp [Pc.watches, hl]
  | _ => trivial

namespace InLoop

theorem next (h : InLoop dead m c l pc) (hpc : pc.leaves = false)
    (hlate : l.late = true → pc'.early = true) (hleave : ∀ ret, pc' ≠ .leave ret)
    (hslot : ∀ j, pc'.slot? = some j → pc.slot? = some j)
    (hpermit : pc'.permitted = true → pc.permitted = true) (hchecks : ∀ j, pc' ≠ .checks j) :
    InLoop dead m c l pc' where
  late hl := ⟨(h.late hl).1, hlate hl⟩
  left ret hret := absurd hret (hleave ret)
  round _ :=
    { slot := (h.round hpc).slot
      looks := fun j hj => (h.round hpc).looks j (hslot j hj)
      permit := fun hp => (h.round hpc).permit (hp.imp_right hpermit)
      checks := fun j hj => absurd hj (hchecks j) }

theorem leave {ret : Option Int} (h : InLoop dead m c l pc)
    (hret : l.again = true → l.late = true → ret = some (-Err.notFound.code)) :
    InLoop dead m c l (.leave ret) where
  late hl := ⟨(h.late hl).1, rfl⟩
  left ret' heq hagain hl := by
    cases heq
    exact hret hagain hl
  round hl := by cases hl

theorem not_late (h : InLoop dead m c l pc) (hpc : pc.early = false) : l.late = false := by
  by_contra hl
  have hearly := (h.late (by simpa using hl)).2
  rw [hpc] at hearly
  cases hearly

end InLoop

/-! ### `readdata` in the loop -/

theorem Waitnext.fail_notFound (c : Waitnext) : c.fail .notFound = .deletedTest := by
  unfold Waitnext.fail Waitnext.judge
  rw [if_neg fun h => absurd h.1 (by decide), if_neg fun h => h.2 rfl, if_pos rfl]

theorem Waitnext.fail_of_ne (c : Waitnext) {e : Err} (he : e ≠ .notFound) :
    c.fail e = .leave (some (-e.code)) := by
  have hcode : -e.code ≠ -Err.notFound.code := by cases e <;> first | decide | exact absurd rfl he
  have hneg := e.neg_code_neg
  unfold Waitnext.fail Waitnext.judge
  rw [if_neg fun h => absurd h.1 (Int.not_le.mpr hneg), if_pos ⟨hneg, hcode⟩]

/-- An answer of `readdata` ends the call, or the loop looks for a deletion, or waits. -/
theorem Waitnext.judge_cases (c : Waitnext) (ret : Int) (ts : Timestamp) :
    (∃ r, c.judge ret ts = .leave r) ∨ c.judge ret ts = .deletedTest ∨
      c.judge ret ts = .wait ret := by
  unfold Waitnext.judge
  split
  · exact Or.inl ⟨_, rfl⟩
  · split
    · exact Or.inl ⟨_, rfl⟩
    · split
      · exact Or.inr (Or.inl rfl)
      · exact Or.inr (Or.inr rfl)

namespace InLoop

variable {db : Db} {now : Timestamp}

theorem notFound (h : InLoop dead m c l pc) (hpc : pc.leaves = false)
    (hpermit : pc.permitted = true) : InLoop dead m c l (c.fail .notFound) := by
  rw [c.fail_notFound]
  exact h.next hpc (fun _ => rfl) (fun _ hret => by cases hret) (fun _ hj => by cases hj)
    (fun _ => hpermit) fun _ hj => by cases hj

/-- Any other error ends the call; after a deletion there is none. -/
theorem error {e : Err} (h : InLoop dead m c l pc) (hpc : pc.early = false)
    (he : e ≠ .notFound) : InLoop dead m c l (c.fail e) := by
  rw [c.fail_of_ne he]
  refine h.leave fun _ hl => ?_
  rw [h.not_late hpc] at hl
  cases hl

theorem lookup [Rounding] (h : InLoop dead db.objmeta c l .lookup) :
    InLoop dead db.objmeta c l (c.look db now .lookup) := by
  obtain ⟨hslot, -, hpermit, -⟩ := h.round rfl
  simp only [Waitnext.look]
  split
  · rename_i hnone
    rw [c.fail_notFound]
    refine ⟨fun hl => ⟨(h.late hl).1, rfl⟩, (fun _ hret => by cases hret), fun _ => ?_⟩
    refine ⟨hslot, (fun _ hj => by cases hj), fun _ hoid => ?_, fun _ hj => by cases hj⟩
    exact absurd (decide_eq_true hoid)
      (List.find?_eq_none.mp hnone l.i (List.mem_range.mpr hslot.lt))
  · rename_i j hj
    obtain ⟨hlt, hoid⟩ := Db.findmetaById_some hj
    have hji := hslot.only j hlt hoid
    refine ⟨fun hl => ⟨(h.late hl).1, rfl⟩, (fun _ hret => by cases hret), fun _ => ?_⟩
    refine ⟨hslot, fun _ heq => ?_, fun hp => ?_, fun _ _ hagain => ?_⟩
    · cases heq
      exact hji
    · exact hpermit (hp.imp_right fun hp => by cases hp)
    · exact hpermit (Or.inl hagain) (by rw [← hji]; exact hoid)

theorem checks [Rounding] {j : Nat} (h : InLoop dead db.objmeta c l (.checks j)) :
    InLoop dead db.objmeta c l (c.look db now (.checks j)) := by
  obtain ⟨hslot, hlooks, -, hchecks⟩ := h.round rfl
  obtain rfl := hlooks j rfl
  have hon {pc' : LoopPc} (hpermits : (db.objmeta l.i).Permits c.h) (hearly : pc'.early = true)
      (hleave : ∀ ret, pc' ≠ .leave ret) (hj : ∀ j, pc'.slot? = some j → j = l.i)
      (hne : ∀ j, pc' ≠ .checks j) : InLoop dead db.objmeta c l pc' :=
    ⟨fun hl => ⟨(h.late hl).1, hearly⟩, fun ret hret => absurd hret (hleave ret), fun _ =>
      ⟨hslot, hj, fun _ _ => hpermits, fun j hj => absurd hj (hne j)⟩⟩
  simp only [Waitnext.look]
  split
  · rename_i hidx
    rw [c.fail_notFound]
    exact hon (Or.inl hidx) rfl (fun _ hret => by cases hret) (fun _ hj => by cases hj)
      fun _ hj => by cases hj
  · rename_i hidx
    split
    · rename_i hdenied
      rw [c.fail_of_ne (by decide)]
      refine h.leave fun hagain _ => ?_
      rcases hchecks l.i rfl hagain with hzero | hfalse
      · exact absurd hzero hidx
      · rw [hfalse] at hdenied
        cases hdenied
    · rename_i hdenied
      refine hon (Or.inr (by simpa using hdenied)) rfl (fun _ hret => by cases hret)
        (fun j hj => ?_) fun _ hj => by cases hj
      cases hj
      rfl

theorem deletedTs [Rounding] {j : Nat} {k : Int} (h : InLoop dead db.objmeta c l (.deletedTs j k))
    (ht : TableOk dead db.objmeta) (h0 : c.oid ≠ 0) :
    InLoop dead db.objmeta c l (c.look db now (.deletedTs j k)) := by
  obtain ⟨hslot, hlooks, -, -⟩ := h.round rfl
  obtain rfl := hlooks j rfl
  simp only [Waitnext.look]
  split
  · exact h.notFound rfl rfl
  · rename_i hdel
    refine h.next rfl (fun hl => ?_) (fun _ hret => by cases hret) (fun j hj => hj) (fun _ => rfl)
      fun _ hj => by cases hj
    exact absurd (hslot.deletedTs ht h0 (h.late hl).1) hdel

/-- Past the look for a deletion the round began before it. -/
theorem decided (h : InLoop dead m c l pc) (hpc : pc.decided = true) (hpc' : pc'.decided = true)
    (hslot : ∀ j, pc'.slot? = some j → pc.slot? = some j) : InLoop dead m c l pc' := by
  have hlate : l.late = false := by
    refine h.not_late ?_
    cases pc <;> first | rfl | cases hpc
  refine h.next ?_ (fun hl => ?_) (fun ret hret => ?_) hslot (fun _ => ?_) fun j hj => ?_
  · cases pc <;> first | rfl | cases hpc
  · rw [hlate] at hl
    cases hl
  · rw [hret] at hpc'
    cases hpc'
  · cases pc <;> first | rfl | cases hpc
  · rw [hj] at hpc'
    cases hpc'

theorem retSize {j : Nat} {k : Int} {ts : Timestamp}
    (h : InLoop dead m c l (.retSize j k ts)) (ret : Int) :
    InLoop dead m c l (c.judge ret ts) := by
  rcases c.judge_cases ret ts with ⟨r, heq⟩ | heq | heq
  · rw [heq]
    refine h.leave fun _ hl => ?_
    rw [h.not_late rfl] at hl
    cases hl
  · rw [heq]
    exact h.next rfl (fun _ => rfl) (fun _ hret => by cases hret) (fun _ hj => by cases hj)
      (fun _ => rfl) fun _ hj => by cases hj
  · rw [heq]
    exact h.decided rfl rfl fun _ hj => by cases hj

/-- Each load of `readdata` keeps what the waiter knows. -/
theorem look [Rounding] (h : InLoop dead db.objmeta c l pc) (ht : TableOk dead db.objmeta)
    (h0 : c.oid ≠ 0) : InLoop dead db.objmeta c l (c.look db now pc) := by
  cases pc with
  | lookup => exact h.lookup
  | checks j => exact h.checks
  | histSlot j =>
      simp only [Waitnext.look]
      split
      · exact h.notFound rfl rfl
      · exact h.next rfl (fun _ => rfl) (fun _ hret => by cases hret) (fun _ hj => hj)
          (fun _ => rfl) fun _ hj => by cases hj
  | test j k =>
      simp only [Waitnext.look]
      split
      · exact h.notFound rfl rfl
      · exact h.next rfl (fun _ => rfl) (fun _ hret => by cases hret) (fun _ hj => hj)
          (fun _ => rfl) fun _ hj => by cases hj
  | deletedTs j k => exact h.deletedTs ht h0
  | scanHi j k | scanLo j k hi | finLo j k ts => exact h.decided rfl rfl fun _ hj => hj
  | finHi j k ts lo =>
      simp only [Waitnext.look]
      split
      · exact h.error rfl (by decide)
      · exact h.decided rfl rfl fun _ hj => hj
  | stale j k ts =>
      simp only [Waitnext.look]
      split
      · exact h.error rfl (by decide)
      · exact h.decided rfl rfl fun _ hj => hj
  | retSize j k ts => exact h.retSize _
  | _ => exact h

end InLoop

/-! ### The loop -/

variable {s s' : Shared} {p : Pid} {now : Timestamp}

theorem InLoop.again (h : InLoop dead m c l pc) (hpc : pc.leaves = false)
    (hpermit : pc.permitted = true) (hearly : pc.early = false) :
    InLoop dead m c { l with again := true } .prepare where
  late hl := by
    rw [h.not_late hearly] at hl
    cases hl
  left ret hret := by cases hret
  round _ :=
    { slot := (h.round hpc).slot
      looks := fun _ hj => by cases hj
      permit := fun _ => (h.round hpc).permit (Or.inr hpermit)
      checks := fun _ hj => by cases hj }

theorem InLoop.woken (h : InLoop dead m c l pc) (hearly : pc.early = false)
    (hleave : ∀ ret, pc' ≠ .leave ret) (hslot : pc'.slot? = none)
    (hpc : pc'.leaves = false → pc.leaves = false ∧ pc.permitted = true) :
    InLoop dead m c l pc' where
  late hl := by
    rw [h.not_late hearly] at hl
    cases hl
  left ret hret := absurd hret (hleave ret)
  round hl :=
    { slot := (h.round (hpc hl).1).slot
      looks := fun j hj => by
        rw [hslot] at hj
        cases hj
      permit := fun _ => (h.round (hpc hl).1).permit (Or.inr (hpc hl).2)
      checks := fun j hj => by
        rw [hj] at hslot
        cases hslot }

theorem Waitnext.inCall_loop [Rounding] (ht : TableOk s.deleted s.db.objmeta) (h0 : c.oid ≠ 0)
    (h : InLoop s.deleted s.db.objmeta c l pc) {pc' : WaitPc}
    (hs : c.loopStep p s now l pc = some (s', pc')) :
    InCall s.deleted s.db.objmeta c pc' := by
  cases pc with
  | prepare =>
      have hnew : InLoop s.deleted s.db.objmeta c
          { l with late := decide (c.oid ∈ s.deleted) } .lookup := by
        refine ⟨fun hl => ⟨of_decide_eq_true hl, rfl⟩, (fun _ hret => by cases hret), fun _ => ?_⟩
        obtain ⟨hslot, -, hpermit, -⟩ := h.round rfl
        exact ⟨hslot, (fun _ hj => by cases hj), hpermit, fun _ hj => by cases hj⟩
      simp only [Waitnext.loopStep] at hs
      split at hs
      · cases hs
        exact hnew
      · obtain ⟨t, -, heq⟩ := Option.map_eq_some_iff.mp hs
        cases heq
        exact hnew
  | deletedTest =>
      simp only [Waitnext.loopStep] at hs
      split at hs
      · cases hs
        exact h.leave fun _ _ => rfl
      · rename_i hdel
        cases hs
        refine h.next rfl (fun hl => ?_) (fun _ hret => by cases hret) (fun _ hj => by cases hj)
          (fun _ => rfl) fun _ hj => by cases hj
        exact absurd ((h.round rfl).slot.deletedTs ht h0 (h.late hl).1) hdel
  | leave ret =>
      cases hs
      cases ret <;> trivial
  | wait ret =>
      simp only [Waitnext.loopStep] at hs
      split at hs
      · split at hs <;> cases hs
        · exact h.woken rfl (fun _ hret => by cases hret) rfl fun hl => by cases hl
        · exact h.again rfl rfl rfl
      · obtain ⟨t, -, heq⟩ := Option.map_eq_some_iff.mp hs
        cases heq
        exact h.woken rfl (fun _ hret => by cases hret) rfl fun _ => ⟨rfl, rfl⟩
  | blocked timedOut =>
      simp only [Waitnext.loopStep] at hs
      split at hs
      · cases hs
      · obtain ⟨t, -, heq⟩ := Option.map_eq_some_iff.mp hs
        cases heq
        refine h.woken rfl (fun _ hret => by cases hret) rfl fun hl => ?_
        cases timedOut
        · exact ⟨rfl, rfl⟩
        · cases hl
  | woken timedOut =>
      cases hs
      refine h.woken rfl (fun _ hret => by cases hret) rfl fun hl => ?_
      cases timedOut
      · exact ⟨rfl, rfl⟩
      · cases hl
  | unlocked timedOut =>
      simp only [Waitnext.loopStep] at hs
      cases timedOut
      · cases hs
        exact h.again rfl rfl rfl
      · cases hs
        exact h.woken rfl (fun _ hret => by cases hret) rfl fun hl => by cases hl
  | timedOut ret =>
      cases hs
      trivial
  | _ =>
      cases hs
      exact h.look ht h0

/-- Only the beginning of a round tells whether it is late. -/
theorem Waitnext.late_step [Rounding] {pc pc' : WaitPc} (h : pc.late = true → c.oid ∈ s.deleted)
    (hs : c.step p s now pc = some (s', pc')) (hlate : pc'.late = true) : c.oid ∈ s'.deleted := by
  rw [(Waitnext.onlyLocks hs).deleted]
  cases pc with
  | find =>
      simp only [Waitnext.step] at hs
      split at hs <;> cases hs <;> cases hlate
  | flags i =>
      cases hs
      cases hlate
  | final =>
      cases hs
      cases hlate
  | done ret => cases hs
  | loop l pc =>
      cases pc with
      | prepare =>
          simp only [Waitnext.step, Waitnext.loopStep] at hs
          split at hs
          · cases hs
            exact of_decide_eq_true hlate
          · obtain ⟨t, -, heq⟩ := Option.map_eq_some_iff.mp hs
            cases heq
            exact of_decide_eq_true hlate
      | deletedTest =>
          simp only [Waitnext.step, Waitnext.loopStep] at hs
          split at hs <;> cases hs <;> exact h hlate
      | leave ret =>
          cases hs
          cases ret <;> cases hlate
      | wait ret =>
          simp only [Waitnext.step, Waitnext.loopStep] at hs
          split at hs
          · split at hs <;> cases hs <;> exact h hlate
          · obtain ⟨t, -, heq⟩ := Option.map_eq_some_iff.mp hs
            cases heq
            exact h hlate
      | blocked timedOut =>
          simp only [Waitnext.step, Waitnext.loopStep] at hs
          split at hs
          · cases hs
          · obtain ⟨t, -, heq⟩ := Option.map_eq_some_iff.mp hs
            cases heq
            exact h hlate
      | unlocked timedOut =>
          simp only [Waitnext.step, Waitnext.loopStep] at hs
          split at hs <;> cases hs <;> exact h hlate
      | timedOut ret =>
          cases hs
          cases hlate
      | _ =>
          cases hs
          exact h hlate

theorem Waitnext.inCall [Rounding] (ht : TableOk s.deleted s.db.objmeta) (h0 : c.oid ≠ 0)
    {pc pc' : WaitPc}
    (h : InCall s.deleted s.db.objmeta c pc) (hs : c.step p s now pc = some (s', pc')) :
    InCall s'.deleted s'.db.objmeta c pc' := by
  have hlocks := Waitnext.onlyLocks hs
  rw [hlocks.db, hlocks.deleted]
  cases pc with
  | find =>
      simp only [Waitnext.step] at hs
      split at hs
      · cases hs
        trivial
      · rename_i i hi
        cases hs
        obtain ⟨hlt, hoid⟩ := Db.findmetaById_some hi
        exact SlotOf.of_find ht h0 hlt hoid
  | flags i =>
      cases hs
      have hslot : SlotOf s.deleted s.db.objmeta c.oid i := h
      exact ⟨(fun hl => by cases hl), (fun _ hret => by cases hret), fun _ =>
        ⟨hslot, (fun _ hj => by cases hj), (fun hp => by rcases hp with hp | hp <;> cases hp),
          fun _ hj => by cases hj⟩⟩
  | loop l pc => exact c.inCall_loop ht h0 h hs
  | final =>
      cases hs
      trivial
  | done ret => cases hs

end Waiter

end KogmoRtdb
