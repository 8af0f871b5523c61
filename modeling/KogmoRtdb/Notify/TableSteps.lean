import KogmoRtdb.Notify.Locks

/-!
# What the steps do to the table

Most steps of the threads leave the table alone, or set an object's history slot. The others
are few (`TableStep`): a delete marks an object, a delete or a purge clears a slot, an insert
enters its metadata, and an insert sets the oid. `Label.tableStep` says so once for all calls.
-/

namespace KogmoRtdb

variable {env : Env} {s s' : Shared} {p : Pid} {pc pc' : Pc}

/-! ## The locks -/

structure OnlyLocks (s s' : Shared) : Prop where
  db : s'.db = s.db
  heapLog : s'.heapLog = s.heapLog
  deleted : s'.deleted = s.deleted

namespace OnlyLocks

theorem refl : OnlyLocks s s := ⟨rfl, rfl, rfl⟩

theorem lockObjmeta (h : s.lockObjmeta p = some s') : OnlyLocks s s' := by
  obtain ⟨m, -, rfl⟩ := Option.map_eq_some_iff.mp h
  exact ⟨rfl, rfl, rfl⟩

theorem waitObjmeta (h : s.waitObjmeta p = some s') : OnlyLocks s s' := by
  obtain ⟨m, -, rfl⟩ := Option.map_eq_some_iff.mp h
  exact ⟨rfl, rfl, rfl⟩

theorem lockNotify {i : Nat} (h : s.lockNotify p i = some s') : OnlyLocks s s' := by
  obtain ⟨m, -, rfl⟩ := Option.map_eq_some_iff.mp h
  exact ⟨rfl, rfl, rfl⟩

theorem waitNotify {i : Nat} (h : s.waitNotify p i = some s') : OnlyLocks s s' := by
  obtain ⟨m, -, rfl⟩ := Option.map_eq_some_iff.mp h
  exact ⟨rfl, rfl, rfl⟩

theorem lockObj {i : Nat} (h : s.lockObj p i = some s') : OnlyLocks s s' := by
  obtain ⟨m, -, rfl⟩ := Option.map_eq_some_iff.mp h
  exact ⟨rfl, rfl, rfl⟩

end OnlyLocks

/-! ## The calls that wait -/

theorem Waitnext.onlyLocks [Rounding] {c : Waitnext} {now : Timestamp} {pc pc' : WaitPc}
    (h : c.step p s now pc = some (s', pc')) : OnlyLocks s s' := by
  cases pc with
  | find =>
      simp only [Waitnext.step] at h
      split at h <;> cases h <;> exact .refl
  | flags i =>
      cases h
      exact .refl
  | final =>
      cases h
      exact .refl
  | done ret => cases h
  | loop w pc =>
      cases pc with
      | prepare =>
          simp only [Waitnext.step, Waitnext.loopStep] at h
          split at h
          · cases h
            exact .refl
          · obtain ⟨t, ht, heq⟩ := Option.map_eq_some_iff.mp h
            cases heq
            exact .lockNotify ht
      | deletedTest =>
          simp only [Waitnext.step, Waitnext.loopStep] at h
          split at h <;> cases h <;> exact .refl
      | leave ret =>
          cases h
          split
          · exact .refl
          · exact ⟨rfl, rfl, rfl⟩
      | wait ret =>
          simp only [Waitnext.step, Waitnext.loopStep] at h
          split at h
          · split at h <;> cases h <;> exact .refl
          · obtain ⟨t, ht, heq⟩ := Option.map_eq_some_iff.mp h
            cases heq
            exact .waitNotify ht
      | blocked timedOut =>
          simp only [Waitnext.step, Waitnext.loopStep] at h
          split at h
          · cases h
          · obtain ⟨t, ht, heq⟩ := Option.map_eq_some_iff.mp h
            cases heq
            exact .lockNotify ht
      | unlocked timedOut =>
          simp only [Waitnext.step, Waitnext.loopStep] at h
          split at h <;> cases h <;> exact .refl
      | _ =>
          cases h
          exact ⟨rfl, rfl, rfl⟩

theorem SearchWait.onlyLocks {c : SearchWait} {pc pc' : SearchPc}
    (h : c.step env p s pc = some (s', pc')) : OnlyLocks s s' := by
  cases pc with
  | prepare =>
      obtain ⟨t, ht, heq⟩ := Option.map_eq_some_iff.mp h
      cases heq
      exact .lockObjmeta ht
  | wait =>
      obtain ⟨t, ht, heq⟩ := Option.map_eq_some_iff.mp h
      cases heq
      exact .waitObjmeta ht
  | blocked timedOut =>
      simp only [SearchWait.step] at h
      split at h
      · cases h
      · obtain ⟨t, ht, heq⟩ := Option.map_eq_some_iff.mp h
        cases heq
        exact .lockObjmeta ht
  | done ret => cases h
  | _ =>
      cases h
      exact ⟨rfl, rfl, rfl⟩

/-! ## The table -/

/-- The metadata are the same but for the history slot. -/
def ObjInfo.Alike (info info' : ObjInfo) : Prop :=
  info' = { info with historySlot := info'.historySlot }

namespace ObjInfo.Alike

variable {info info' : ObjInfo}

theorem refl (info : ObjInfo) : info.Alike info := rfl

theorem oid (h : info.Alike info') : info'.oid = info.oid := by
  unfold ObjInfo.Alike at h
  rw [h]

theorem deletedTs (h : info.Alike info') : info'.deletedTs = info.deletedTs := by
  unfold ObjInfo.Alike at h
  rw [h]

end ObjInfo.Alike

/-- A field that is the same in the new entry is the same in the whole table. -/
theorem field_update {β : Type} (f : ObjInfo → β) {m : Nat → ObjInfo} {i : Nat} {info : ObjInfo}
    (h : f info = f (m i)) (j : Nat) : f (Function.update m i info j) = f (m j) := by
  by_cases hj : j = i
  · rw [hj, Function.update_self, h]
  · rw [Function.update_of_ne hj]

def Pc.clears : Pc → Option Nat
  | .delete _ (.clearOid i) => some i
  | .purge _ (.clearOid i) => some i
  | _ => none

inductive TableStep (l : Label) (s : Shared) (pc : Pc) (s' : Shared) : Prop where
  | keep (htable : ∀ j, (s.db.objmeta j).Alike (s'.db.objmeta j)) (hdel : s'.deleted = s.deleted)
  | mark {p : Pid} {now : Timestamp} {c : DeleteCall} {i : Nat} (hl : l = .next p now)
      (hpc : pc = .delete c (.mark i))
      (htable : s'.db.objmeta = Function.update s.db.objmeta i
        { s.db.objmeta i with deletedProc := c.h.procOid, deletedTs := now })
      (hdel : s'.deleted = (s.db.objmeta i).oid :: s.deleted)
  | clear {i : Nat} (hpc : pc.clears = some i)
      (htable : s'.db.objmeta = Function.update s.db.objmeta i { s.db.objmeta i with oid := 0 })
      (hdel : s'.deleted = s.deleted)
  | enter {p : Pid} {now : Timestamp} {c : InsertCall} {i : Nat} (hl : l = .next p now)
      (hpc : pc = .insert c (.enter i))
      (htable : s'.db.objmeta = Function.update s.db.objmeta i c.metadata)
      (hdel : s'.deleted = s.deleted)
  | setOid {p : Pid} {now : Timestamp} {c : InsertCall} {i : Nat} {oid parentOid : ObjId}
      (hl : l = .next p now) (hpc : pc = .insert c (.setOid i oid))
      (htable : s'.db.objmeta = Function.update s.db.objmeta i
        { s.db.objmeta i with parentOid := parentOid, oid := oid })
      (hdel : s'.deleted = s.deleted)

namespace TableStep

variable {l : Label}

theorem of_objmeta (h : s'.db.objmeta = s.db.objmeta) (hdel : s'.deleted = s.deleted) :
    TableStep l s pc s' :=
  .keep (fun j => by rw [h]; exact .refl _) hdel

theorem of_locks (h : OnlyLocks s s') : TableStep l s pc s' :=
  of_objmeta (by rw [h.db]) h.deleted

theorem refl : TableStep l s pc s := of_locks .refl

end TableStep

theorem WriteCall.tableStep [Rounding] {c : WriteCall} {pc pc' : WritePc} {l : Label} {q : Pc}
    (h : c.step p s pc = some (s', pc')) : TableStep l s q s' := by
  cases pc with
  | find =>
      simp only [WriteCall.step] at h
      split at h <;> cases h <;> exact .refl
  | lockObj i =>
      obtain ⟨t, ht, heq⟩ := Option.map_eq_some_iff.mp h
      cases heq
      exact .of_locks (.lockObj ht)
  | refuse i =>
      cases h
      split
      · exact .of_objmeta rfl rfl
      · exact .refl
  | put t pc =>
      cases pc with
      | copy n =>
          simp only [WriteCall.step, Put.step] at h
          split at h <;> cases h <;> exact .of_objmeta rfl rfl
      | prepare =>
          obtain ⟨u, hu, heq⟩ := Option.map_eq_some_iff.mp h
          cases heq
          exact .of_locks (.lockNotify hu)
      | publish =>
          cases h
          refine .keep (fun j => ?_) rfl
          by_cases hj : j = t.i
          · rw [hj]
            show (s.db.objmeta t.i).Alike ((s.db.setMeta t.i _).objmeta t.i)
            rw [Db.setMeta_objmeta_self]
            rfl
          · show (s.db.objmeta j).Alike ((s.db.setMeta t.i _).objmeta j)
            rw [Db.setMeta_objmeta_ne hj]
            exact .refl _
      | unlockObj =>
          simp only [WriteCall.step, Put.step, Option.some.injEq, Prod.mk.injEq] at h
          obtain ⟨rfl, -⟩ := h
          split
          · exact .of_objmeta rfl rfl
          · exact .refl
      | _ =>
          cases h
          exact .of_objmeta rfl rfl
  | filling i addr sizeMax => cases h
  | done ret => cases h
  | _ =>
      cases h
      exact .refl

theorem Shared.freeBlock_db (s : Shared) (i : Nat) :
    (s.freeBlock i).db.objmeta = s.db.objmeta ∧ (s.freeBlock i).deleted = s.deleted := by
  unfold Shared.freeBlock
  split <;> exact ⟨rfl, rfl⟩

theorem InsertCall.tableStep [Rounding] {c c' : InsertCall} {now : Timestamp} {pc pc' : InsertPc}
    {q : Pid} (h : c.step env p s pc = some (s', c', pc')) :
    TableStep (.next q now) s (.insert c pc) s' := by
  cases pc with
  | lock | relock =>
      obtain ⟨t, ht, heq⟩ := Option.map_eq_some_iff.mp h
      cases heq
      exact .of_locks (.lockObjmeta ht)
  | enter i =>
      cases h
      exact .enter rfl rfl rfl rfl
  | setOid i oid =>
      cases h
      exact .setOid rfl rfl rfl rfl
  | freeClash | freeNoOid =>
      simp only [InsertCall.step] at h
      cases h
      split <;> exact .of_objmeta rfl rfl
  | done ret => cases h
  | _ =>
      simp only [InsertCall.step] at h
      repeat' split at h
      all_goals
        cases h
        exact .of_objmeta rfl rfl

theorem DeleteCall.tableStep {c c' : DeleteCall} {now : Timestamp} {pc pc' : DeletePc} {q : Pid}
    (h : c.step env p s now pc = some (s', c', pc')) :
    TableStep (.next q now) s (.delete c pc) s' := by
  cases pc with
  | lock | readLock oid =>
      obtain ⟨t, ht, heq⟩ := Option.map_eq_some_iff.mp h
      cases heq
      exact .of_locks (.lockObjmeta ht)
  | prepare i =>
      obtain ⟨t, ht, heq⟩ := Option.map_eq_some_iff.mp h
      cases heq
      exact .of_locks (.lockNotify ht)
  | mark i =>
      cases h
      exact .mark rfl rfl rfl rfl
  | freeBlock i =>
      cases h
      exact .of_objmeta (s.freeBlock_db i).1 (s.freeBlock_db i).2
  | clearOid i =>
      cases h
      exact .clear rfl rfl rfl
  | done ret => cases h
  | _ =>
      simp only [DeleteCall.step] at h
      repeat' split at h
      all_goals
        cases h
        exact .of_objmeta rfl rfl

theorem PurgeCall.tableStep [Rounding] {c : PurgeCall} {pc pc' : PurgePc} {l : Label}
    (h : c.step p s pc = some (s', pc')) : TableStep l s (.purge c pc) s' := by
  cases pc with
  | lock i =>
      obtain ⟨t, ht, heq⟩ := Option.map_eq_some_iff.mp h
      cases heq
      exact .of_locks (.lockObjmeta ht)
  | test i =>
      simp only [PurgeCall.step] at h
      split at h <;> cases h <;> exact .refl
  | freeBlock i =>
      cases h
      exact .of_objmeta (s.freeBlock_db i).1 (s.freeBlock_db i).2
  | clearOid i =>
      cases h
      exact .clear rfl rfl rfl
  | done => cases h
  | _ =>
      cases h
      exact .of_objmeta rfl rfl

theorem Label.tableStep [Rounding] {l : Label} (h : l.move env s pc = some (s', pc')) :
    TableStep l s pc s' := by
  cases l with
  | start p call now =>
      simp only [Label.move] at h
      split at h <;> cases h
      exact .refl
  | next p now =>
      cases pc with
      | idle => cases h
      | waitnext c pc =>
          obtain ⟨⟨t, pc₁⟩, hstep, heq⟩ := Option.map_eq_some_iff.mp h
          cases heq
          exact .of_locks (c.onlyLocks hstep)
      | searchWait c pc =>
          obtain ⟨⟨t, pc₁⟩, hstep, heq⟩ := Option.map_eq_some_iff.mp h
          cases heq
          exact .of_locks (c.onlyLocks hstep)
      | write c pc =>
          obtain ⟨⟨t, pc₁⟩, hstep, heq⟩ := Option.map_eq_some_iff.mp h
          cases heq
          exact c.tableStep hstep
      | insert c pc =>
          obtain ⟨⟨t, c₁, pc₁⟩, hstep, heq⟩ := Option.map_eq_some_iff.mp h
          cases heq
          exact c.tableStep hstep
      | delete c pc =>
          obtain ⟨⟨t, c₁, pc₁⟩, hstep, heq⟩ := Option.map_eq_some_iff.mp h
          cases heq
          exact c.tableStep hstep
      | purge c pc =>
          obtain ⟨⟨t, pc₁⟩, hstep, heq⟩ := Option.map_eq_some_iff.mp h
          cases heq
          exact c.tableStep hstep
  | wake p timedOut =>
      simp only [Label.move, Pc.wake] at h
      split at h
      · split at h <;> cases h
        exact .of_objmeta rfl rfl
      · split at h <;> cases h
        exact .of_objmeta rfl rfl
      · cases h
  | fill p n v =>
      cases pc with
      | write c pc =>
          obtain ⟨t, ht, heq⟩ := Option.map_eq_some_iff.mp h
          cases heq
          cases pc with
          | filling i addr sizeMax =>
              simp only [fillWord] at ht
              split at ht <;> cases ht
              exact .of_objmeta rfl rfl
          | _ => cases ht
      | _ => cases h

/-- The table changes under `objmeta_lock`, but for the history slots. -/
theorem TableStep.cases_locked {l : Label} (h : TableStep l s pc s') :
    (∀ j, (s.db.objmeta j).Alike (s'.db.objmeta j)) ∨ pc.locksObjmeta = true := by
  cases h with
  | keep htable => exact Or.inl htable
  | mark hl hpc => exact Or.inr (by rw [hpc]; rfl)
  | clear hpc =>
      unfold Pc.clears at hpc
      split at hpc
      · exact Or.inr rfl
      · exact Or.inr rfl
      · cases hpc
  | enter hl hpc => exact Or.inr (by rw [hpc]; rfl)
  | setOid hl hpc => exact Or.inr (by rw [hpc]; rfl)

end KogmoRtdb
