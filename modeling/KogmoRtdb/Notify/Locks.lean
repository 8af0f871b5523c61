import KogmoRtdb.Notify.System

/-!
# Which locks a thread holds

What a thread holds follows from where it is (`Holds`): `objmeta_lock` inside the critical
sections on the table, an `obj_changenotify_lock` while it looks for new data or tells
the waiters. A thread's own step keeps this (`Holds.move`), and so does every
step of another, which cannot take a lock away (`Holds.other`).

A thread may hold `objmeta_lock` outside a critical section as well, after an insert
that has found no slot.
-/

namespace KogmoRtdb

/-! ## Locks by program counter -/

def SearchPc.locked : SearchPc → Bool
  | .search | .leave _ | .wait | .woken _ => true
  | _ => false

def InsertPc.locked : InsertPc → Bool
  | .lock | .alloc | .relock | .freeClash | .done _ => false
  | _ => true

def DeletePc.locked : DeletePc → Bool
  | .find | .checks _ | .children _ | .mark _ | .freeBlock _ | .clearOid _ | .broadcastMeta _
  | .unlockMeta _ | .read _ | .readUnlock .. | .release _ => true
  | _ => false

def PurgePc.locked : PurgePc → Bool
  | .lock _ | .done => false
  | _ => true

/-- The thread holds `objmeta_lock`. -/
def Pc.locksObjmeta : Pc → Bool
  | .searchWait _ pc => pc.locked
  | .insert _ pc => pc.locked
  | .delete _ pc => pc.locked
  | .purge _ pc => pc.locked
  | _ => false

def LoopPc.locked : LoopPc → Bool
  | .prepare | .blocked _ | .unlocked _ | .timedOut _ => false
  | _ => true

def PutPc.locked : PutPc → Bool
  | .valLow | .valHigh | .publish | .unlockObj | .broadcast | .unlock => true
  | _ => false

/-- The slot whose `obj_changenotify_lock` the thread holds. -/
def Pc.locksNotify : Pc → Option Nat
  | .waitnext _ (.loop l pc) => if pc.locked && !l.noNotifies then some l.i else none
  | .write _ (.put t pc) => if pc.locked && !t.noNotifies then some t.i else none
  | .delete _ (.broadcast i) => some i
  | .delete _ (.unlock i) => some i
  | _ => none

/-- The thread is blocked in the wait on `objmeta_changenotify`, unless it has been woken. -/
def Pc.blockedMeta : Pc → Bool
  | .searchWait _ (.blocked false) => true
  | _ => false

/-- The slot on whose `obj_changenotify` the thread is blocked, unless it has been woken. -/
def Pc.blockedOn : Pc → Option Nat
  | .waitnext _ (.loop l (.blocked false)) => some l.i
  | _ => none

/-- What thread `p` at `pc` holds. -/
structure Holds (p : Pid) (s : Shared) (pc : Pc) : Prop where
  objmeta : pc.locksObjmeta = true → s.objmetaLock.holder = some p
  notify : ∀ i, pc.locksNotify = some i → (s.changenotify i).holder = some p

/-- Where thread `p` at `pc` can be blocked. -/
structure Blocked (p : Pid) (s : Shared) (pc : Pc) : Prop where
  objmeta : s.objmetaLock.waiting p = true → pc.blockedMeta = true
  notify : ∀ i, (s.changenotify i).waiting p = true → pc.blockedOn = some i

/-- The locks change by a step of thread `p` to `pc'`. -/
structure LocksBy (p : Pid) (pc' : Pc) (s s' : Shared) : Prop where
  objmeta : Monitor.StepBy p (pc'.blockedMeta = true) s.objmetaLock s'.objmetaLock
  notify : ∀ i, Monitor.StepBy p (pc'.blockedOn = some i) (s.changenotify i) (s'.changenotify i)

variable {env : Env} {s s' : Shared} {p q : Pid} {pc pc' : Pc} {i : Nat}

theorem Holds.other {qc : Pc} (h : Holds q s qc) (hby : LocksBy p pc' s s') (hq : q ≠ p) :
    Holds q s' qc where
  objmeta hpc := (hby.objmeta.holder q hq).mpr (h.objmeta hpc)
  notify i hpc := ((hby.notify i).holder q hq).mpr (h.notify i hpc)

theorem Blocked.other {qc : Pc} (h : Blocked q s qc) (hby : LocksBy p pc' s s') (hq : q ≠ p) :
    Blocked q s' qc where
  objmeta hw := h.objmeta (hby.objmeta.waiting_of_ne hq hw)
  notify i hw := h.notify i ((hby.notify i).waiting_of_ne hq hw)

/-! ## The operations on the locks -/

namespace LocksBy

theorem of_eq (h1 : s'.objmetaLock = s.objmetaLock) (h2 : s'.changenotify = s.changenotify) :
    LocksBy p pc' s s' := by
  refine ⟨?_, fun i => ?_⟩
  · rw [h1]
    exact .refl
  · rw [h2]
    exact .refl

theorem refl : LocksBy p pc' s s := of_eq rfl rfl

theorem setNotify {m : Monitor Pid}
    (h : Monitor.StepBy p (pc'.blockedOn = some i) (s.changenotify i) m) :
    LocksBy p pc' s (s.setNotify i m) := by
  refine ⟨.refl, fun j => ?_⟩
  by_cases hj : j = i
  · subst hj
    simpa [Shared.setNotify] using h
  · simpa [Shared.setNotify, Function.update_of_ne hj] using Monitor.StepBy.refl

theorem lockObjmeta (h : s.lockObjmeta p = some s') : LocksBy p pc' s s' := by
  obtain ⟨m, hm, rfl⟩ := Option.map_eq_some_iff.mp h
  exact ⟨.lock hm, fun _ => .refl⟩

theorem unlockObjmeta : LocksBy p pc' s (s.unlockObjmeta p) := ⟨.unlock, fun _ => .refl⟩

theorem waitObjmeta (h : s.waitObjmeta p = some s') (hblocks : pc'.blockedMeta = true) :
    LocksBy p pc' s s' := by
  obtain ⟨m, hm, rfl⟩ := Option.map_eq_some_iff.mp h
  exact ⟨.wait hm hblocks, fun _ => .refl⟩

theorem broadcastObjmeta : LocksBy p pc' s s.broadcastObjmeta := ⟨.broadcast, fun _ => .refl⟩

theorem wakeObjmeta : LocksBy p pc' s (s.wakeObjmeta p) := ⟨.wake, fun _ => .refl⟩

theorem lockNotify (h : s.lockNotify p i = some s') : LocksBy p pc' s s' := by
  obtain ⟨m, hm, rfl⟩ := Option.map_eq_some_iff.mp h
  exact setNotify (.lock hm)

theorem unlockNotify : LocksBy p pc' s (s.unlockNotify p i) := setNotify .unlock

theorem waitNotify (h : s.waitNotify p i = some s') (hblocks : pc'.blockedOn = some i) :
    LocksBy p pc' s s' := by
  obtain ⟨m, hm, rfl⟩ := Option.map_eq_some_iff.mp h
  exact setNotify (.wait hm hblocks)

theorem broadcastNotify : LocksBy p pc' s (s.broadcastNotify i) := setNotify .broadcast

theorem wakeNotify : LocksBy p pc' s (s.wakeNotify p i) := setNotify .wake

theorem lockObj (h : s.lockObj p i = some s') : LocksBy p pc' s s' := by
  obtain ⟨m, hm, rfl⟩ := Option.map_eq_some_iff.mp h
  exact of_eq rfl rfl

end LocksBy

theorem holder_lockObjmeta (h : s.lockObjmeta p = some s') : s'.objmetaLock.holder = some p := by
  obtain ⟨m, hm, rfl⟩ := Option.map_eq_some_iff.mp h
  exact Monitor.holder_of_lock hm

theorem holder_lockNotify (h : s.lockNotify p i = some s') :
    (s'.changenotify i).holder = some p := by
  obtain ⟨m, hm, rfl⟩ := Option.map_eq_some_iff.mp h
  simpa [Shared.setNotify] using Monitor.holder_of_lock hm

/-! ## The steps of a thread -/

/-- A thread keeps its locks over a step, and holds what it should afterwards. -/
def KeepsLocks (p : Pid) (s : Shared) (pc : Pc) (s' : Shared) (pc' : Pc) : Prop :=
  Holds p s pc → Holds p s' pc' ∧ LocksBy p pc' s s'

theorem KeepsLocks.of_eq (h1 : s'.objmetaLock = s.objmetaLock)
    (h2 : s'.changenotify = s.changenotify) (hm : pc'.locksObjmeta = true → pc.locksObjmeta = true)
    (hn : ∀ i, pc'.locksNotify = some i → pc.locksNotify = some i) :
    KeepsLocks p s pc s' pc' := by
  intro h
  refine ⟨⟨fun hpc => ?_, fun i hpc => ?_⟩, .of_eq h1 h2⟩
  · rw [h1]
    exact h.objmeta (hm hpc)
  · rw [h2]
    exact h.notify i (hn i hpc)

theorem KeepsLocks.of_none (hby : LocksBy p pc' s s') (hm : pc'.locksObjmeta = false)
    (hn : pc'.locksNotify = none) : KeepsLocks p s pc s' pc' :=
  fun _ => ⟨⟨fun h => by simp [hm] at h, fun i h => by simp [hn] at h⟩, hby⟩

theorem KeepsLocks.lockNotify (h : s.lockNotify p i = some s') (hm : pc'.locksObjmeta = false)
    (hn : ∀ j, pc'.locksNotify = some j → j = i) : KeepsLocks p s pc s' pc' := by
  refine fun _ => ⟨⟨fun hpc => by simp [hm] at hpc, fun j hj => ?_⟩, .lockNotify h⟩
  rw [hn j hj]
  exact holder_lockNotify h

theorem KeepsLocks.lockObjmeta (h : s.lockObjmeta p = some s') (hn : pc'.locksNotify = none) :
    KeepsLocks p s pc s' pc' :=
  fun _ => ⟨⟨fun _ => holder_lockObjmeta h, fun i hi => by simp [hn] at hi⟩, .lockObjmeta h⟩

theorem KeepsLocks.loop {c : Waitnext} {l : WaitLoop} {pc pc' : LoopPc}
    (h : pc'.locked = true → pc.locked = true) :
    KeepsLocks p s (.waitnext c (.loop l pc)) s (.waitnext c (.loop l pc')) := by
  refine .of_eq rfl rfl id fun i hi => ?_
  simp only [Pc.locksNotify, Bool.and_eq_true] at hi ⊢
  split at hi
  · rename_i hpc
    rw [if_pos ⟨h hpc.1, hpc.2⟩]
    exact hi
  · cases hi

theorem Waitnext.keepsLocks_loop [Rounding] {c : Waitnext} {now : Timestamp} {l : WaitLoop}
    {pc : LoopPc} {pc' : WaitPc} (h : c.loopStep p s now l pc = some (s', pc')) :
    KeepsLocks p s (.waitnext c (.loop l pc)) s' (.waitnext c pc') := by
  cases pc with
  | prepare =>
      simp only [Waitnext.loopStep] at h
      split at h
      · rename_i hno
        cases h
        exact .of_none .refl rfl (by simp [Pc.locksNotify, hno])
      · obtain ⟨t, ht, heq⟩ := Option.map_eq_some_iff.mp h
        cases heq
        refine .lockNotify ht rfl fun j hj => ?_
        simp only [Pc.locksNotify] at hj
        split at hj <;> cases hj
        rfl
  | deletedTest =>
      simp only [Waitnext.loopStep] at h
      split at h <;> cases h <;> exact .loop fun _ => rfl
  | leave ret =>
      simp only [Waitnext.loopStep] at h
      cases h
      refine .of_none ?_ (by cases ret <;> rfl) (by cases ret <;> rfl)
      by_cases hno : l.noNotifies = true
      · rw [if_pos hno]
        exact .refl
      · rw [if_neg hno]
        exact .unlockNotify
  | wait ret =>
      simp only [Waitnext.loopStep] at h
      split at h
      · split at h
        · cases h
          exact .loop fun hpc => by simp [LoopPc.locked] at hpc
        · cases h
          exact .of_none .refl rfl (by simp [Pc.locksNotify, LoopPc.locked])
      · obtain ⟨t, ht, heq⟩ := Option.map_eq_some_iff.mp h
        cases heq
        exact .of_none (.waitNotify ht rfl) rfl (by simp [Pc.locksNotify, LoopPc.locked])
  | blocked timedOut =>
      simp only [Waitnext.loopStep] at h
      split at h
      · cases h
      · obtain ⟨t, ht, heq⟩ := Option.map_eq_some_iff.mp h
        cases heq
        refine .lockNotify ht rfl fun j hj => ?_
        simp only [Pc.locksNotify] at hj
        split at hj <;> cases hj
        rfl
  | woken timedOut =>
      cases h
      exact .of_none .unlockNotify rfl (by simp [Pc.locksNotify, LoopPc.locked])
  | unlocked timedOut =>
      simp only [Waitnext.loopStep] at h
      split at h
      · cases h
        exact .loop fun hpc => by simp [LoopPc.locked] at hpc
      · cases h
        exact .of_none .refl rfl (by simp [Pc.locksNotify, LoopPc.locked])
  | timedOut ret =>
      cases h
      exact .of_none .unlockNotify rfl rfl
  | _ =>
      cases h
      exact .loop fun _ => rfl

theorem Waitnext.keepsLocks [Rounding] {c : Waitnext} {now : Timestamp} {pc pc' : WaitPc}
    (h : c.step p s now pc = some (s', pc')) :
    KeepsLocks p s (.waitnext c pc) s' (.waitnext c pc') := by
  cases pc with
  | find =>
      simp only [Waitnext.step] at h
      split at h <;> cases h <;> exact .of_none .refl rfl rfl
  | flags i =>
      cases h
      exact .of_none .refl rfl (by simp [Pc.locksNotify, LoopPc.locked])
  | loop l pc => exact keepsLocks_loop h
  | final =>
      cases h
      exact .of_none .refl rfl rfl
  | done ret => cases h

theorem SearchWait.keepsLocks {c : SearchWait} {pc pc' : SearchPc}
    (h : c.step env p s pc = some (s', pc')) :
    KeepsLocks p s (.searchWait c pc) s' (.searchWait c pc') := by
  cases pc with
  | prepare =>
      obtain ⟨t, ht, heq⟩ := Option.map_eq_some_iff.mp h
      cases heq
      exact .lockObjmeta ht rfl
  | search =>
      cases h
      exact .of_eq rfl rfl (fun _ => rfl) fun _ h => h
  | leave ret =>
      cases h
      exact .of_none .unlockObjmeta rfl rfl
  | wait =>
      obtain ⟨t, ht, heq⟩ := Option.map_eq_some_iff.mp h
      cases heq
      exact .of_none (.waitObjmeta ht rfl) rfl rfl
  | blocked timedOut =>
      simp only [SearchWait.step] at h
      split at h
      · cases h
      · obtain ⟨t, ht, heq⟩ := Option.map_eq_some_iff.mp h
        cases heq
        exact .lockObjmeta ht rfl
  | woken timedOut =>
      cases h
      exact .of_none .unlockObjmeta rfl rfl
  | unlocked timedOut =>
      cases h
      exact .of_none .refl (by cases timedOut <;> rfl) (by cases timedOut <;> rfl)
  | timedOut =>
      cases h
      exact .of_none .unlockObjmeta rfl rfl
  | done ret => cases h

theorem KeepsLocks.put {c : WriteCall} {t : Put} {pc pc' : PutPc}
    (h1 : s'.objmetaLock = s.objmetaLock) (h2 : s'.changenotify = s.changenotify)
    (h : pc'.locked = true → pc.locked = true ∨ t.noNotifies = true) :
    KeepsLocks p s (.write c (.put t pc)) s' (.write c (.put t pc')) := by
  refine .of_eq h1 h2 id fun i hi => ?_
  simp only [Pc.locksNotify, Bool.and_eq_true] at hi ⊢
  split at hi
  · rename_i hpc
    rcases h hpc.1 with h | h
    · rw [if_pos ⟨h, hpc.2⟩]
      exact hi
    · simp [h] at hpc
  · cases hi

theorem Put.toValidate_locked (t : Put) (h : t.toValidate.locked = true) : t.noNotifies = true := by
  unfold Put.toValidate at h
  split at h
  · assumption
  · cases h

theorem Put.keepsLocks {c : WriteCall} {t : Put} {pc : PutPc} {pc' : WritePc}
    (h : t.step p s pc = some (s', pc')) :
    KeepsLocks p s (.write c (.put t pc)) s' (.write c pc') := by
  cases pc with
  | invLow =>
      simp only [Put.step] at h
      cases h
      split
      · exact .of_none (.of_eq rfl rfl) rfl rfl
      · exact .put rfl rfl fun hpc => by cases hpc
  | copy n =>
      simp only [Put.step] at h
      split at h <;> cases h <;> exact .put rfl rfl fun hpc => by cases hpc
  | dataTest =>
      cases h
      refine .put rfl rfl fun hpc => ?_
      split at hpc
      · cases hpc
      · exact Or.inr (t.toValidate_locked hpc)
  | dataHigh =>
      cases h
      exact .put rfl rfl fun hpc => Or.inr (t.toValidate_locked hpc)
  | prepare =>
      obtain ⟨u, hu, heq⟩ := Option.map_eq_some_iff.mp h
      cases heq
      refine .lockNotify hu rfl fun j hj => ?_
      simp only [Pc.locksNotify] at hj
      split at hj <;> cases hj
      rfl
  | unlockObj =>
      simp only [Put.step, Option.some.injEq, Prod.mk.injEq] at h
      obtain ⟨hs, hpc⟩ := h
      have hlocks : s'.objmetaLock = s.objmetaLock ∧ s'.changenotify = s.changenotify := by
        rw [← hs]
        split <;> exact ⟨rfl, rfl⟩
      rw [← hpc]
      split
      · exact .of_none (.of_eq hlocks.1 hlocks.2) rfl rfl
      · exact .put hlocks.1 hlocks.2 fun _ => Or.inl rfl
  | broadcast =>
      cases h
      refine fun hh => ⟨⟨fun hpc => (by cases hpc), fun j hj => ?_⟩, .broadcastNotify⟩
      have hheld := hh.notify j hj
      simp only [Pc.locksNotify] at hj
      split at hj <;> cases hj
      simpa [Shared.broadcastNotify, Shared.setNotify, Monitor.broadcast] using hheld
  | unlock =>
      cases h
      exact .of_none .unlockNotify rfl rfl
  | valLow | valHigh | publish =>
      cases h
      exact .put rfl rfl fun _ => Or.inl rfl
  | _ =>
      cases h
      exact .put rfl rfl fun hpc => by cases hpc

theorem WriteCall.keepsLocks [Rounding] {c : WriteCall} {pc pc' : WritePc}
    (h : c.step p s pc = some (s', pc')) : KeepsLocks p s (.write c pc) s' (.write c pc') := by
  cases pc with
  | find =>
      simp only [WriteCall.step] at h
      split at h <;> cases h <;> exact .of_none .refl rfl rfl
  | checks i =>
      cases h
      refine .of_none .refl rfl ?_
      rcases c.checks_cases (s.db.objmeta i) i with ⟨ret, h⟩ | ⟨-, -, h | h | h⟩ <;> rw [h] <;> rfl
  | lockObj i =>
      obtain ⟨t, ht, heq⟩ := Option.map_eq_some_iff.mp h
      cases heq
      exact .of_none (.lockObj ht) rfl rfl
  | watch i =>
      simp only [WriteCall.step] at h
      cases h
      refine .of_none .refl rfl ?_
      split <;> rfl
  | refuse i =>
      simp only [WriteCall.step] at h
      cases h
      refine .of_none ?_ rfl rfl
      split
      · exact .of_eq rfl rfl
      · exact .refl
  | choose i =>
      cases h
      refine .of_none .refl rfl ?_
      unfold WriteCall.choose
      cases c with
      | ptrCommit h oid dataPtr size ts => dsimp only; split <;> rfl
      | _ => rfl
  | put t pc => exact t.keepsLocks h
  | filling i addr sizeMax => cases h
  | done ret => cases h

theorem InsertCall.keepsLocks [Rounding] {c c' : InsertCall} {pc pc' : InsertPc}
    (h : c.step env p s pc = some (s', c', pc')) :
    KeepsLocks p s (.insert c pc) s' (.insert c' pc') := by
  cases pc with
  | lock =>
      obtain ⟨t, ht, heq⟩ := Option.map_eq_some_iff.mp h
      cases heq
      exact .lockObjmeta ht rfl
  | relock =>
      obtain ⟨t, ht, heq⟩ := Option.map_eq_some_iff.mp h
      cases heq
      exact .lockObjmeta ht rfl
  | unlock | unlockClash | release ret =>
      cases h
      exact .of_none .unlockObjmeta rfl rfl
  | alloc =>
      simp only [InsertCall.step] at h
      repeat' split at h
      all_goals
        cases h
        exact .of_none (.of_eq rfl rfl) rfl rfl
  | freeClash =>
      simp only [InsertCall.step] at h
      cases h
      refine .of_none ?_ rfl rfl
      split
      · exact .of_eq rfl rfl
      · exact .refl
  | freeNoOid =>
      simp only [InsertCall.step, Option.some.injEq, Prod.mk.injEq] at h
      obtain ⟨hs, rfl, rfl⟩ := h
      have hlocks : s'.objmetaLock = s.objmetaLock ∧ s'.changenotify = s.changenotify := by
        rw [← hs]
        split <;> exact ⟨rfl, rfl⟩
      exact .of_eq hlocks.1 hlocks.2 (fun _ => rfl) fun _ h => h
  | broadcast oid =>
      cases h
      refine fun hh => ⟨⟨fun _ => ?_, fun i hi => (by cases hi)⟩, .broadcastObjmeta⟩
      exact hh.objmeta rfl
  | done ret => cases h
  | _ =>
      simp only [InsertCall.step] at h
      repeat' split at h
      all_goals
        cases h
        refine .of_eq rfl rfl (fun _ => rfl) fun _ h => ?_
        cases h

theorem DeleteCall.keepsLocks {c c' : DeleteCall} {now : Timestamp} {pc pc' : DeletePc}
    (h : c.step env p s now pc = some (s', c', pc')) :
    KeepsLocks p s (.delete c pc) s' (.delete c' pc') := by
  cases pc with
  | lock | readLock oid =>
      obtain ⟨t, ht, heq⟩ := Option.map_eq_some_iff.mp h
      cases heq
      exact .lockObjmeta ht rfl
  | freeBlock i =>
      cases h
      have hlocks : (s.freeBlock i).objmetaLock = s.objmetaLock ∧
          (s.freeBlock i).changenotify = s.changenotify := by
        unfold Shared.freeBlock
        split <;> exact ⟨rfl, rfl⟩
      exact .of_eq hlocks.1 hlocks.2 (fun _ => rfl) fun _ h => (by cases h)
  | broadcastMeta i =>
      cases h
      refine fun hh => ⟨⟨fun _ => ?_, fun j hj => (by cases hj)⟩, .broadcastObjmeta⟩
      exact hh.objmeta rfl
  | unlockMeta i =>
      cases h
      exact .of_none .unlockObjmeta rfl rfl
  | prepare i =>
      obtain ⟨t, ht, heq⟩ := Option.map_eq_some_iff.mp h
      cases heq
      exact .lockNotify ht rfl fun j hj => (Option.some.inj hj).symm
  | broadcast i =>
      cases h
      refine fun hh => ⟨⟨fun hpc => (by cases hpc), fun j hj => ?_⟩, .broadcastNotify⟩
      have hheld := hh.notify j hj
      cases hj
      simpa [Shared.broadcastNotify, Shared.setNotify, Monitor.broadcast] using hheld
  | unlock i =>
      cases h
      exact .of_none .unlockNotify rfl rfl
  | next =>
      simp only [DeleteCall.step] at h
      split at h <;> cases h <;> exact .of_none .refl rfl rfl
  | readUnlock oid parentDelete =>
      cases h
      refine .of_none .unlockObjmeta ?_ ?_ <;> cases parentDelete <;> rfl
  | release ret =>
      simp only [DeleteCall.step, Option.some.injEq, Prod.mk.injEq] at h
      obtain ⟨rfl, rfl, rfl⟩ := h
      refine .of_none .unlockObjmeta ?_ ?_ <;> split <;> rfl
  | done ret => cases h
  | _ =>
      simp only [DeleteCall.step] at h
      repeat' split at h
      all_goals
        cases h
        refine .of_eq rfl rfl (fun _ => rfl) fun _ h => ?_
        cases h

theorem PurgeCall.keepsLocks [Rounding] {c : PurgeCall} {pc pc' : PurgePc}
    (h : c.step p s pc = some (s', pc')) : KeepsLocks p s (.purge c pc) s' (.purge c pc') := by
  cases pc with
  | lock i =>
      obtain ⟨t, ht, heq⟩ := Option.map_eq_some_iff.mp h
      cases heq
      exact .lockObjmeta ht rfl
  | test i =>
      simp only [PurgeCall.step] at h
      split at h
      · cases h
        exact .of_eq rfl rfl (fun _ => rfl) fun _ h => (by split at h <;> cases h)
      · cases h
        exact .of_eq rfl rfl (fun _ => rfl) fun _ h => (by cases h)
  | freeBlock i =>
      cases h
      have hlocks : (s.freeBlock i).objmetaLock = s.objmetaLock ∧
          (s.freeBlock i).changenotify = s.changenotify := by
        unfold Shared.freeBlock
        split <;> exact ⟨rfl, rfl⟩
      exact .of_eq hlocks.1 hlocks.2 (fun _ => rfl) fun _ h => (by cases h)
  | clearOid i =>
      cases h
      exact .of_eq rfl rfl (fun _ => rfl) fun _ h => (by cases h)
  | broadcast i =>
      cases h
      refine fun hh => ⟨⟨fun _ => ?_, fun j hj => (by cases hj)⟩, .broadcastObjmeta⟩
      exact hh.objmeta rfl
  | unlock i | release =>
      cases h
      exact .of_none .unlockObjmeta rfl rfl
  | done => cases h

theorem Holds.move [Rounding] {l : Label} (h : Holds l.pid s pc)
    (hm : l.move env s pc = some (s', pc')) : Holds l.pid s' pc' ∧ LocksBy l.pid pc' s s' := by
  refine (?_ : KeepsLocks l.pid s pc s' pc') h
  cases l with
  | start p call now =>
      simp only [Label.move] at hm
      split at hm
      · cases hm
        cases call with
        | insert h metadata => refine .of_none .refl ?_ rfl; dsimp only [Start.enter]; split <;> rfl
        | _ => exact .of_none .refl rfl rfl
      · cases hm
  | next p now =>
      cases pc with
      | idle => cases hm
      | waitnext c pc =>
          obtain ⟨⟨t, pc₁⟩, hstep, heq⟩ := Option.map_eq_some_iff.mp hm
          cases heq
          exact c.keepsLocks hstep
      | searchWait c pc =>
          obtain ⟨⟨t, pc₁⟩, hstep, heq⟩ := Option.map_eq_some_iff.mp hm
          cases heq
          exact c.keepsLocks hstep
      | write c pc =>
          obtain ⟨⟨t, pc₁⟩, hstep, heq⟩ := Option.map_eq_some_iff.mp hm
          cases heq
          exact c.keepsLocks hstep
      | insert c pc =>
          obtain ⟨⟨t, c₁, pc₁⟩, hstep, heq⟩ := Option.map_eq_some_iff.mp hm
          cases heq
          exact c.keepsLocks hstep
      | delete c pc =>
          obtain ⟨⟨t, c₁, pc₁⟩, hstep, heq⟩ := Option.map_eq_some_iff.mp hm
          cases heq
          exact c.keepsLocks hstep
      | purge c pc =>
          obtain ⟨⟨t, pc₁⟩, hstep, heq⟩ := Option.map_eq_some_iff.mp hm
          cases heq
          exact c.keepsLocks hstep
  | wake p timedOut =>
      simp only [Label.move, Pc.wake] at hm
      split at hm
      · split at hm <;> cases hm
        exact .of_none .wakeNotify rfl (by simp [Pc.locksNotify, LoopPc.locked])
      · split at hm <;> cases hm
        exact .of_none .wakeObjmeta rfl rfl
      · cases hm
  | fill p n v =>
      cases pc with
      | write c pc =>
          obtain ⟨t, ht, heq⟩ := Option.map_eq_some_iff.mp hm
          cases heq
          cases pc with
          | filling i addr sizeMax =>
              simp only [fillWord] at ht
              split at ht <;> cases ht
              exact .of_none (.of_eq rfl rfl) rfl rfl
          | _ => cases ht
      | _ => cases hm

theorem Blocked.move [Rounding] {l : Label} (h : Blocked l.pid s pc)
    (hm : l.move env s pc = some (s', pc')) (hby : LocksBy l.pid pc' s s') :
    Blocked l.pid s' pc' := by
  refine ⟨fun hw => ?_, fun i hw => ?_⟩
  · rcases hby.objmeta.waiting _ hw with hw0 | hb
    · have hblocked := h.objmeta hw0
      unfold Pc.blockedMeta at hblocked
      split at hblocked
      · rename_i c
        exfalso
        cases l with
        | start p call now => cases hm
        | next p now =>
            obtain ⟨⟨t, pc₁⟩, hstep, -⟩ := Option.map_eq_some_iff.mp hm
            have hw0 : s.objmetaLock.waiting p = true := hw0
            simp only [SearchWait.step, if_pos hw0] at hstep
            cases hstep
        | wake p timedOut =>
            simp only [Label.move, Pc.wake] at hm
            split at hm <;> cases hm
            have hw : (s.objmetaLock.wake p).waiting p = true := hw
            rw [Monitor.waiting_wake] at hw
            cases hw
        | fill p n v => cases hm
      · cases hblocked
    · exact hb.2
  · rcases (hby.notify i).waiting _ hw with hw0 | hb
    · have hblocked := h.notify i hw0
      unfold Pc.blockedOn at hblocked
      split at hblocked
      · rename_i c w
        cases hblocked
        exfalso
        cases l with
        | start p call now => cases hm
        | next p now =>
            obtain ⟨⟨t, pc₁⟩, hstep, -⟩ := Option.map_eq_some_iff.mp hm
            have hw0 : (s.changenotify w.i).waiting p = true := hw0
            simp only [Waitnext.step, Waitnext.loopStep, if_pos hw0] at hstep
            cases hstep
        | wake p timedOut =>
            simp only [Label.move, Pc.wake] at hm
            split at hm <;> cases hm
            have hw : ((s.wakeNotify p w.i).changenotify w.i).waiting p = true := hw
            simp [Shared.wakeNotify, Shared.setNotify] at hw
        | fill p n v => cases hm
      · cases hblocked
    · exact hb.2

/-! ## Runs -/

/-- What the threads hold and where they are blocked, in every state of a run. -/
structure LocksInv (t : Threads) : Prop where
  holds : ∀ p, Holds p t.shared (t.pc p)
  blocked : ∀ p, Blocked p t.shared (t.pc p)
  started : ∀ p, t.pc p ≠ .idle → p ∈ t.started

theorem LocksInv.initial [Rounding] {heapSize : Int} {t : Threads}
    (h : (threadsLts env heapSize).init t) : LocksInv t := by
  cases h
  exact ⟨fun p => ⟨(fun h => by cases h), fun i h => by cases h⟩,
    fun p => ⟨(fun h => by cases h), fun i h => by cases h⟩, fun p h => absurd rfl h⟩

theorem LocksInv.locksBy [Rounding] {t : Threads} {l : Label} (h : LocksInv t)
    (hm : l.move env t.shared (t.pc l.pid) = some (s', pc')) : LocksBy l.pid pc' t.shared s' :=
  (Holds.move (h.holds l.pid) hm).2

theorem LocksInv.move [Rounding] {t : Threads} {l : Label} (h : LocksInv t)
    (hm : l.move env t.shared (t.pc l.pid) = some (s', pc')) : LocksInv (t.moved l s' pc') := by
  obtain ⟨hholds, hby⟩ := Holds.move (h.holds l.pid) hm
  refine ⟨fun q => ?_, fun q => ?_, fun q hq => ?_⟩
  · by_cases hql : q = l.pid
    · rw [hql, Threads.moved_pc_self]
      exact hholds
    · rw [Threads.moved_pc_of_ne hql]
      exact (h.holds q).other hby hql
  · by_cases hql : q = l.pid
    · rw [hql, Threads.moved_pc_self]
      exact (h.blocked l.pid).move hm hby
    · rw [Threads.moved_pc_of_ne hql]
      exact (h.blocked q).other hby hql
  · by_cases hql : q = l.pid
    · rw [hql]
      by_cases hidle : t.pc l.pid = .idle
      · rw [hidle] at hm
        exact l.move_idle hm t.started
      · exact l.mem_starts (h.started l.pid hidle)
    · rw [Threads.moved_pc_of_ne hql] at hq
      exact l.mem_starts (h.started q hq)

theorem LocksInv.of_reachable [Rounding] {heapSize : Int} {t : Threads}
    (h : (threadsLts env heapSize).Reachable t) : LocksInv t := by
  refine h.invariant (fun _ => LocksInv.initial) fun t l t' ih hs => ?_
  obtain ⟨s, pc, hmove, rfl⟩ := threadsLts_step hs
  exact ih.move hmove

/-- Two threads do not hold `objmeta_lock` at once. -/
theorem LocksInv.eq_of_locksObjmeta {t : Threads} (h : LocksInv t)
    (hp : (t.pc p).locksObjmeta = true) (hq : (t.pc q).locksObjmeta = true) : p = q := by
  have hheld := (h.holds p).objmeta hp
  rw [(h.holds q).objmeta hq] at hheld
  exact (Option.some.inj hheld).symm

end KogmoRtdb
