import KogmoRtdb.Notify.Rounds

/-!
# Waiters of a deleted object

Once an object is deleted, the delete wakes the threads that wait for its data, and they learn of
the deletion from `deleted_ts` in its slot, which says so as long as nobody enters another object
there. That an insert enters none in a slot that a waiter goes by is the condition of this module:
with it no waiter outlives its object (`waitersEnd_of_guarded`), and without it one can wait for
ever (`exists_not_waitersEnd`).

What the waiters know is the subject of the modules before this one. Here the other calls follow
(`Knows`), and the wakeup: a delete owes it from the mark to its broadcast (`Threads.OwesAt`), and
`Monitor.Attended` says that whoever waits in vain can count on it.
-/

namespace KogmoRtdb

/-! ## The statement -/

/-- The slot whose waiters a delete still has to wake. -/
def DeletePc.owes : DeletePc → Option Nat
  | .freeBlock i | .clearOid i | .broadcastMeta i | .unlockMeta i | .prepare i | .broadcast i =>
      some i
  | _ => none

/-- How many steps a round of the loop can still take, if the call ends with it. -/
def LoopPc.rank : LoopPc → Nat
  | .lookup => 6
  | .checks _ => 5
  | .histSlot _ => 4
  | .test .. => 3
  | .deletedTs .. => 2
  | .deletedTest => 1
  | _ => 0

/-- Waiters do not outlive their objects: whoever is blocked although its object has been deleted
will be woken by a thread that has deleted it, and a round that begins after the deletion goes on
without waiting until the call ends with `-KOGMO_RTDB_ERR_NOTFOUND`. -/
structure WaitersEnd [Rounding] (t : Threads) : Prop where
  woken : ∀ p c l timedOut, t.pc p = .waitnext c (.loop l (.blocked timedOut)) →
    (t.shared.changenotify l.i).waiting p = true → c.oid ∈ t.shared.deleted →
    ∃ q d pc, t.pc q = .delete d pc ∧ d.oid = c.oid ∧ pc.owes = some l.i
  ends : ∀ p c l pc, t.pc p = .waitnext c (.loop l pc) → l.again = true → l.late = true →
    ∀ now, ∃ s pc', c.step p t.shared now (.loop l pc) = some (s, pc') ∧
      (pc' = .done (-Err.notFound.code) ∨ ∃ pc'', pc' = .loop l pc'' ∧ pc''.rank < pc.rank)

/-- The condition on a step of an insert or a delete. -/
def Threads.AllowsNext (t : Threads) (now : Timestamp) : Pc → Prop
  | .insert _ (.enter i) => ∀ q ∈ t.started, (t.pc q).watches ≠ some i
  | .insert _ (.setOid _ oid) =>
      oid ∉ t.shared.deleted ∧ t.shared.db.findmetaById oid = none
  | .delete _ (.mark i) => now ≠ 0 ∧ (t.shared.db.objmeta i).oid ≠ 0
  | _ => True

/-- The condition on a run's steps: no insert enters its object in a slot that a waiter goes by,
or takes an oid that has been in use; and no delete is of the oid 0 or at a clock reading of 0. -/
def Threads.Allows (t : Threads) : Label → Prop
  | .next p now => t.AllowsNext now (t.pc p)
  | _ => True

instance (t : Threads) (now : Timestamp) : DecidablePred (t.AllowsNext now)
  | .insert _ (.enter i) =>
      inferInstanceAs (Decidable (∀ q ∈ t.started, (t.pc q).watches ≠ some i))
  | .insert _ (.setOid _ oid) => inferInstanceAs
      (Decidable (oid ∉ t.shared.deleted ∧ t.shared.db.findmetaById oid = none))
  | .delete _ (.mark i) =>
      inferInstanceAs (Decidable (now ≠ 0 ∧ (t.shared.db.objmeta i).oid ≠ 0))
  | .idle | .waitnext .. | .searchWait .. | .write .. | .purge .. => isTrue trivial
  | .insert _ .lock | .insert _ .reuse | .insert _ .unlock | .insert _ .alloc
  | .insert _ .relock | .insert _ .findFree | .insert _ .unique | .insert _ .unlockClash
  | .insert _ .freeClash | .insert _ (.takeOid _) | .insert _ .freeNoOid
  | .insert _ (.broadcast _) | .insert _ (.release _) | .insert _ (.done _) => isTrue trivial
  | .delete _ .lock | .delete _ .find | .delete _ (.checks _) | .delete _ (.children _)
  | .delete _ (.freeBlock _) | .delete _ (.clearOid _) | .delete _ (.broadcastMeta _)
  | .delete _ (.unlockMeta _) | .delete _ (.prepare _) | .delete _ (.broadcast _)
  | .delete _ (.unlock _) | .delete _ .next | .delete _ (.readLock _) | .delete _ (.read _)
  | .delete _ (.readUnlock ..) | .delete _ (.release _) | .delete _ (.done _) => isTrue trivial

instance (t : Threads) : DecidablePred t.Allows
  | .next p now => inferInstanceAs (Decidable (t.AllowsNext now (t.pc p)))
  | .start .. | .wake .. | .fill .. => isTrue trivial

/-! ## What the other calls know -/

/-- The slot in which an insert has entered its metadata. -/
def InsertPc.entered : InsertPc → Option Nat
  | .takeOid i | .setOid i _ => some i
  | _ => none

def DeletePc.found : DeletePc → Option Nat
  | .checks i | .children i | .mark i => some i
  | _ => none

/-- The slot that a delete has marked and will clear. -/
def DeletePc.marked : DeletePc → Option Nat
  | .freeBlock i | .clearOid i => some i
  | _ => none

def PurgePc.due : PurgePc → Option Nat
  | .freeBlock i | .clearOid i => some i
  | _ => none

def Knows (dead : List ObjId) (m : Nat → ObjInfo) : Pc → Prop
  | .waitnext c pc => (c.oid ≠ 0 → InCall dead m c pc) ∧ (pc.late = true → c.oid ∈ dead)
  | .insert c pc => (c.metadata.oid = 0 ∧ c.metadata.deletedTs = 0) ∧
      ∀ i, pc.entered = some i → (m i).oid = 0 ∧ (m i).deletedTs = 0
  | .delete c pc => (∀ i, pc.found = some i → i < objMax ∧ (m i).oid = c.oid) ∧
      ∀ i, pc.marked = some i → i < objMax ∧ (m i).oid ≠ 0 ∧ (m i).deletedTs ≠ 0
  | .purge _ pc => ∀ i, pc.due = some i → i < objMax ∧ (m i).oid ≠ 0 ∧ (m i).deletedTs ≠ 0
  | _ => True

section Others

variable {dead dead' : List ObjId} {m m' : Nat → ObjInfo} {entered : Option Nat} {pc : Pc}

/-- What a thread knows outlives the steps of others: the table is theirs only when it has not
locked it itself. -/
theorem Knows.change (h : Knows dead m pc) (hc : TableChange dead m dead' m' entered)
    (ht : TableOk dead m) (hentered : ∀ i, entered = some i → pc.watches ≠ some i)
    (halike : pc.locksObjmeta = true → ∀ j, (m j).Alike (m' j)) : Knows dead' m' pc := by
  cases pc with
  | waitnext c pc =>
      exact ⟨fun h0 => (h.1 h0).change hc ht h0 hentered, fun hlate => hc.dead_mono (h.2 hlate)⟩
  | insert c pc =>
      refine ⟨h.1, fun i hi => ?_⟩
      have hlocked : pc.locked = true := by cases pc <;> first | rfl | cases hi
      have hinfo := halike hlocked i
      rw [hinfo.oid, hinfo.deletedTs]
      exact h.2 i hi
  | delete c pc =>
      refine ⟨fun i hi => ?_, fun i hi => ?_⟩
      · have hlocked : pc.locked = true := by cases pc <;> first | rfl | cases hi
        rw [(halike hlocked i).oid]
        exact h.1 i hi
      · have hlocked : pc.locked = true := by cases pc <;> first | rfl | cases hi
        have hinfo := halike hlocked i
        rw [hinfo.oid, hinfo.deletedTs]
        exact h.2 i hi
  | purge c pc =>
      intro i hi
      have hlocked : pc.locked = true := by cases pc <;> first | rfl | cases hi
      have hinfo := halike hlocked i
      rw [hinfo.oid, hinfo.deletedTs]
      exact h i hi
  | _ => trivial

end Others

section Moves

variable {env : Env} {s s' : Shared} {p : Pid} {l : Label} {pc pc' : Pc}

/-- A step that meets the condition changes the table as `TableChange` says. -/
theorem TableStep.change {t : Threads} (h : TableStep l t.shared (t.pc l.pid) s')
    (hg : t.Allows l) (hk : Knows t.shared.deleted t.shared.db.objmeta (t.pc l.pid)) :
    ∃ entered, TableChange t.shared.deleted t.shared.db.objmeta s'.deleted s'.db.objmeta entered ∧
      ∀ i, entered = some i → ∀ q ∈ t.started, (t.pc q).watches ≠ some i := by
  cases h with
  | keep htable hdel =>
      rw [hdel]
      exact ⟨none, .keep htable, fun _ hi => by cases hi⟩
  | @mark p now c i hl hpc htable hdel =>
      subst hl
      have hpc : t.pc p = .delete c (.mark i) := hpc
      have hg : t.AllowsNext now (t.pc p) := hg
      rw [Label.pid, hpc] at hk
      rw [hpc] at hg
      rw [htable, hdel]
      exact ⟨none, .mark (hk.1 i rfl).1 hg.1 hg.2, fun _ hi => by cases hi⟩
  | @clear i hpc htable hdel =>
      rw [htable, hdel]
      refine ⟨none, ?_, fun _ hi => by cases hi⟩
      unfold Pc.clears at hpc
      split at hpc
      · rename_i d j hd
        cases hpc
        rw [hd] at hk
        obtain ⟨hlt, hocc, hne⟩ := hk.2 i rfl
        exact .clear hlt hocc hne
      · rename_i d j hd
        cases hpc
        rw [hd] at hk
        obtain ⟨hlt, hocc, hne⟩ := hk i rfl
        exact .clear hlt hocc hne
      · cases hpc
  | @enter p now c i hl hpc htable hdel =>
      subst hl
      have hpc : t.pc p = .insert c (.enter i) := hpc
      have hg : t.AllowsNext now (t.pc p) := hg
      rw [Label.pid, hpc] at hk
      rw [hpc] at hg
      rw [htable, hdel]
      refine ⟨some i, .enter hk.1.1, fun j hj => ?_⟩
      cases hj
      exact hg
  | @setOid p now c i oid parentOid hl hpc htable hdel =>
      subst hl
      have hpc : t.pc p = .insert c (.setOid i oid) := hpc
      have hg : t.AllowsNext now (t.pc p) := hg
      rw [Label.pid, hpc] at hk
      rw [hpc] at hg
      obtain ⟨hfree, hne⟩ := hk.2 i rfl
      rw [htable, hdel]
      refine ⟨none, .setOid hfree hne hg.1 fun j hj heq => ?_, fun _ hi => by cases hi⟩
      exact List.find?_eq_none.mp hg.2 j (List.mem_range.mpr hj) (decide_eq_true heq)

theorem InsertCall.knows [Rounding] {c c' : InsertCall} {pc pc' : InsertPc}
    (hk : Knows s.deleted s.db.objmeta (.insert c pc))
    (h : c.step env p s pc = some (s', c', pc')) :
    Knows s'.deleted s'.db.objmeta (.insert c' pc') := by
  obtain ⟨hmeta, hentered⟩ := hk
  cases pc with
  | lock =>
      obtain ⟨t, -, heq⟩ := Option.map_eq_some_iff.mp h
      cases heq
      exact ⟨hmeta, fun _ hi => by cases hi⟩
  | relock =>
      obtain ⟨t, -, heq⟩ := Option.map_eq_some_iff.mp h
      cases heq
      refine ⟨hmeta, fun _ hi => ?_⟩
      split at hi <;> cases hi
  | reuse =>
      simp only [InsertCall.step] at h
      split at h <;> cases h
      · exact ⟨hmeta, fun _ hi => by cases hi⟩
      · refine ⟨hmeta, fun _ hi => ?_⟩
        split at hi <;> cases hi
  | alloc =>
      simp only [InsertCall.step] at h
      split at h
      · cases h
        exact ⟨hmeta, fun _ hi => by cases hi⟩
      · split at h <;> cases h
        · exact ⟨hmeta, fun _ hi => by cases hi⟩
        · refine ⟨?_, fun _ hi => by cases hi⟩
          dsimp only
          split <;> exact hmeta
  | findFree =>
      simp only [InsertCall.step] at h
      split at h <;> cases h <;> exact ⟨hmeta, fun _ hi => by cases hi⟩
  | unique =>
      simp only [InsertCall.step] at h
      split at h
      · cases h
        exact ⟨hmeta, fun _ hi => by cases hi⟩
      · split at h <;> cases h <;> exact ⟨hmeta, fun _ hi => by cases hi⟩
  | enter i =>
      cases h
      refine ⟨hmeta, fun j hj => ?_⟩
      cases hj
      show ((s.db.setMeta i c.metadata).objmeta i).oid = 0 ∧
        ((s.db.setMeta i c.metadata).objmeta i).deletedTs = 0
      rw [Db.setMeta_objmeta_self]
      exact hmeta
  | takeOid i =>
      cases h
      refine ⟨hmeta, fun j hj => hentered j ?_⟩
      split at hj
      · cases hj
      · exact hj
  | done ret => cases h
  | _ =>
      cases h
      exact ⟨hmeta, fun _ hi => by cases hi⟩

theorem DeleteCall.knows {c c' : DeleteCall} {now : Timestamp} {pc pc' : DeletePc}
    (hg : ∀ i, pc = .mark i → now ≠ 0 ∧ (s.db.objmeta i).oid ≠ 0)
    (hk : Knows s.deleted s.db.objmeta (.delete c pc))
    (h : c.step env p s now pc = some (s', c', pc')) :
    Knows s'.deleted s'.db.objmeta (.delete c' pc') := by
  obtain ⟨hfound, hmarked⟩ := hk
  cases pc with
  | lock | prepare i | readLock oid =>
      obtain ⟨t, -, heq⟩ := Option.map_eq_some_iff.mp h
      cases heq
      exact ⟨(fun _ hi => by cases hi), fun _ hi => by cases hi⟩
  | find =>
      simp only [DeleteCall.step] at h
      split at h
      · cases h
        exact ⟨(fun _ hi => by cases hi), fun _ hi => by cases hi⟩
      · rename_i i hi
        cases h
        refine ⟨fun j hj => ?_, fun _ hj => by cases hj⟩
        cases hj
        exact Db.findmetaById_some hi
  | checks i =>
      simp only [DeleteCall.step] at h
      split at h
      · cases h
        exact ⟨(fun _ hi => by cases hi), fun _ hi => by cases hi⟩
      · split at h <;> cases h
        · exact ⟨(fun _ hi => by cases hi), fun _ hi => by cases hi⟩
        · exact ⟨hfound, fun _ hi => by cases hi⟩
  | children i =>
      cases h
      exact ⟨hfound, fun _ hi => by cases hi⟩
  | mark i =>
      obtain ⟨hlt, -⟩ := hfound i rfl
      obtain ⟨hnow, hocc⟩ := hg i rfl
      cases h
      refine ⟨fun j hj => ?_, fun j hj => ?_⟩
      · split at hj <;> cases hj
      · split at hj <;> cases hj
        show i < objMax ∧ ((s.db.setMeta i _).objmeta i).oid ≠ 0 ∧
          ((s.db.setMeta i _).objmeta i).deletedTs ≠ 0
        rw [Db.setMeta_objmeta_self]
        exact ⟨hlt, hocc, hnow⟩
  | freeBlock i =>
      cases h
      refine ⟨(fun _ hi => by cases hi), fun j hj => ?_⟩
      rw [(s.freeBlock_db i).1]
      exact hmarked j hj
  | next =>
      simp only [DeleteCall.step] at h
      split at h <;> cases h <;> exact ⟨(fun _ hi => by cases hi), fun _ hi => by cases hi⟩
  | read oid =>
      simp only [DeleteCall.step] at h
      split at h <;> cases h <;> exact ⟨(fun _ hi => by cases hi), fun _ hi => by cases hi⟩
  | readUnlock oid parentDelete =>
      cases h
      cases parentDelete <;> exact ⟨(fun _ hi => by cases hi), fun _ hi => by cases hi⟩
  | release ret =>
      cases h
      refine ⟨fun _ hi => ?_, fun _ hi => ?_⟩ <;> split at hi <;> cases hi
  | done ret => cases h
  | _ =>
      cases h
      exact ⟨(fun _ hi => by cases hi), fun _ hi => by cases hi⟩

theorem PurgeCall.knows [Rounding] {c : PurgeCall} {pc pc' : PurgePc}
    (hk : Knows s.deleted s.db.objmeta (.purge c pc)) (h : c.step p s pc = some (s', pc')) :
    Knows s'.deleted s'.db.objmeta (.purge c pc') := by
  cases pc with
  | lock i =>
      obtain ⟨t, -, heq⟩ := Option.map_eq_some_iff.mp h
      cases heq
      exact fun _ hi => by cases hi
  | test i =>
      simp only [PurgeCall.step] at h
      split at h
      · rename_i hlt
        cases h
        intro j hj
        split at hj
        · rename_i hdue
          cases hj
          simp only [Db.purgeDue, Bool.and_eq_true, decide_eq_true_eq] at hdue
          exact ⟨hlt, hdue.1.1.1, hdue.1.1.2⟩
        · cases hj
      · cases h
        exact fun _ hi => by cases hi
  | freeBlock i =>
      cases h
      intro j hj
      rw [(s.freeBlock_db i).1]
      exact hk j hj
  | done => cases h
  | _ =>
      cases h
      exact fun _ hi => by cases hi

theorem Label.knows [Rounding] {t : Threads} (ht : TableOk t.shared.deleted t.shared.db.objmeta)
    (hg : t.Allows l) (hk : Knows t.shared.deleted t.shared.db.objmeta (t.pc l.pid))
    (hm : l.move env t.shared (t.pc l.pid) = some (s', pc')) :
    Knows s'.deleted s'.db.objmeta pc' := by
  generalize hpc : t.pc l.pid = pc at hk hm
  cases l with
  | start p call now =>
      simp only [Label.move] at hm
      split at hm <;> cases hm
      cases call with
      | waitnext c => exact ⟨fun _ => trivial, fun hlate => by cases hlate⟩
      | insert h metadata =>
          refine ⟨⟨rfl, rfl⟩, fun _ hi => ?_⟩
          split at hi <;> cases hi
      | delete => exact ⟨(fun _ hi => by cases hi), fun _ hi => by cases hi⟩
      | purgeObjs => exact fun _ hi => by cases hi
      | _ => trivial
  | next p now =>
      cases pc with
      | idle => cases hm
      | waitnext c pc =>
          obtain ⟨⟨t, pc₁⟩, hstep, heq⟩ := Option.map_eq_some_iff.mp hm
          cases heq
          exact ⟨fun h0 => c.inCall ht h0 (hk.1 h0) hstep, c.late_step hk.2 hstep⟩
      | insert c pc =>
          obtain ⟨⟨t, c₁, pc₁⟩, hstep, heq⟩ := Option.map_eq_some_iff.mp hm
          cases heq
          exact c.knows hk hstep
      | delete c pc =>
          obtain ⟨⟨t, c₁, pc₁⟩, hstep, heq⟩ := Option.map_eq_some_iff.mp hm
          cases heq
          refine c.knows (fun i hi => ?_) hk hstep
          have hg : t.AllowsNext now (t.pc p) := hg
          have hpc : t.pc p = .delete c pc := hpc
          rw [hpc, hi] at hg
          exact hg
      | purge c pc =>
          obtain ⟨⟨t, pc₁⟩, hstep, heq⟩ := Option.map_eq_some_iff.mp hm
          cases heq
          exact c.knows hk hstep
      | searchWait c pc | write c pc =>
          obtain ⟨⟨t, pc₁⟩, -, heq⟩ := Option.map_eq_some_iff.mp hm
          cases heq
          trivial
  | wake p timedOut =>
      simp only [Label.move, Pc.wake] at hm
      split at hm
      · split at hm <;> cases hm
        refine ⟨fun h0 => ?_, hk.2⟩
        exact (hk.1 h0).woken rfl (fun _ hret => by cases hret) rfl fun _ => ⟨rfl, rfl⟩
      · split at hm <;> cases hm
        trivial
      · cases hm
  | fill p n v =>
      cases pc with
      | write c pc =>
          obtain ⟨t, -, heq⟩ := Option.map_eq_some_iff.mp hm
          cases heq
          trivial
      | _ => cases hm

end Moves

/-! ## The wakeup -/

namespace Threads

/-- The thread holds the lock of the slot and may come to wait. -/
def DecidedAt (t : Threads) (i : Nat) (p : Pid) : Prop :=
  ∃ c l pc, t.pc p = .waitnext c (.loop l pc) ∧ l.i = i ∧ l.noNotifies = false ∧ pc.decided = true

/-- The thread goes by the slot, and its object has been deleted. -/
def GoneAt (t : Threads) (i : Nat) (p : Pid) : Prop :=
  ∃ c l pc, t.pc p = .waitnext c (.loop l pc) ∧ l.i = i ∧ c.oid ∈ t.shared.deleted

/-- Thread `q` has deleted the object of `p` and will wake the waiters of the slot. -/
def OwesAt (t : Threads) (i : Nat) (q p : Pid) : Prop :=
  ∃ d pc c pc', t.pc q = .delete d pc ∧ pc.owes = some i ∧ t.pc p = .waitnext c pc' ∧ d.oid = c.oid

end Threads

/-- What holds in every state of a run whose steps meet the condition. -/
structure DeletedInv (t : Threads) : Prop where
  locks : LocksInv t
  table : TableOk t.shared.deleted t.shared.db.objmeta
  knows : ∀ p, Knows t.shared.deleted t.shared.db.objmeta (t.pc p)
  attended : ∀ i, (t.shared.changenotify i).Attended (t.DecidedAt i) (t.GoneAt i) (t.OwesAt i)

section Wakeup

variable {env : Env} {s' : Shared} {t : Threads} {l : Label} {pc' : Pc} {p q r : Pid} {i : Nat}

theorem step_delete [Rounding] {s : Shared} {c : DeleteCall} {pc : DeletePc} {now : Timestamp}
    (h : (Label.next p now).move env s (.delete c pc) = some (s', pc')) :
    ∃ c' pc₁, pc' = .delete c' pc₁ ∧ c.step env p s now pc = some (s', c', pc₁) := by
  obtain ⟨⟨u, c', pc₁⟩, hstep, heq⟩ := Option.map_eq_some_iff.mp h
  cases heq
  exact ⟨c', pc₁, rfl, hstep⟩

/-- A delete pays its debt with its broadcast and not before. -/
theorem DeleteCall.owes_step {s : Shared} {c c' : DeleteCall} {now : Timestamp} {pc pc' : DeletePc}
    (howes : pc.owes = some i) (hne : pc ≠ .broadcast i)
    (h : c.step env p s now pc = some (s', c', pc')) : c'.oid = c.oid ∧ pc'.owes = some i := by
  cases pc with
  | prepare j =>
      obtain ⟨t, -, heq⟩ := Option.map_eq_some_iff.mp h
      cases heq
      exact ⟨rfl, howes⟩
  | broadcast j =>
      cases howes
      exact absurd rfl hne
  | freeBlock j | clearOid j | broadcastMeta j | unlockMeta j =>
      cases h
      exact ⟨rfl, howes⟩
  | _ => cases howes

/-- A delete that marks an object owes its waiters a broadcast. -/
theorem DeleteCall.owes_of_mark {s : Shared} {c c' : DeleteCall} {now : Timestamp} {pc' : DeletePc}
    (h : c.step env p s now (.mark i) = some (s', c', pc')) :
    c'.oid = c.oid ∧ pc'.owes = some i := by
  cases h
  refine ⟨rfl, ?_⟩
  split <;> rfl

def LoopPc.toWait : LoopPc → Bool
  | .blocked false => true
  | pc => pc.decided

/-- The loop decides to wait when it sees no deletion. -/
theorem Waitnext.look_toWait [Rounding] {c : Waitnext} {db : Db} {now : Timestamp} {pc : LoopPc}
    (hpc : ∀ b, pc ≠ .blocked b) (h : (c.look db now pc).toWait = true) :
    pc.decided = true ∧ (c.look db now pc).decided = true ∨
      ∃ j k, pc = .deletedTs j k ∧ (db.objmeta j).deletedTs = 0 := by
  have hnot : (c.fail .notFound).toWait = false := by rw [c.fail_notFound]; rfl
  have hleave {e : Err} (he : e ≠ .notFound) : (c.fail e).toWait = false := by
    rw [c.fail_of_ne he]; rfl
  cases pc with
  | lookup =>
      simp only [Waitnext.look] at h
      split at h
      · exact absurd h (by simp [hnot])
      · cases h
  | checks j =>
      simp only [Waitnext.look] at h
      split at h
      · exact absurd h (by simp [hnot])
      · split at h
        · exact absurd h (by simp [hleave])
        · cases h
  | histSlot j | test j k =>
      simp only [Waitnext.look] at h
      split at h
      · exact absurd h (by simp [hnot])
      · cases h
  | deletedTs j k =>
      simp only [Waitnext.look] at h
      split at h
      · exact absurd h (by simp [hnot])
      · rename_i hdel
        exact Or.inr ⟨j, k, rfl, not_not.mp hdel⟩
  | scanHi | scanLo | finLo => exact Or.inl ⟨rfl, rfl⟩
  | finHi | stale =>
      simp only [Waitnext.look] at h ⊢
      split at h
      · exact absurd h (by simp [hleave])
      · rename_i hif
        rw [if_neg hif]
        exact Or.inl ⟨rfl, rfl⟩
  | retSize j k ts =>
      refine Or.inl ⟨rfl, ?_⟩
      simp only [Waitnext.look] at h ⊢
      rcases c.judge_cases (slotSize db.heap (db.objmeta j) k) ts with ⟨r, heq⟩ | heq | heq <;>
        rw [heq] at h ⊢ <;> first | rfl | cases h
  | blocked b => exact absurd rfl (hpc b)
  | wait ret => exact Or.inl ⟨rfl, rfl⟩
  | _ => cases h

/-- Who is about to wait after the deletion was so before. -/
theorem Waitnext.toWait_step [Rounding] {s : Shared} {c : Waitnext} {now : Timestamp} {w : WaitLoop}
    {pc : WaitPc} {pc' : LoopPc} (ht : TableOk s.deleted s.db.objmeta) (h0 : c.oid ≠ 0)
    (hk : InCall s.deleted s.db.objmeta c pc) (hdead : c.oid ∈ s.deleted)
    (hpc' : pc'.toWait = true) (hno : pc'.decided = true → w.noNotifies = false)
    (h : c.step p s now pc = some (s', .loop w pc')) :
    ∃ pc₀, pc = .loop w pc₀ ∧ pc₀.decided = true ∧ w.noNotifies = false := by
  cases pc with
  | find =>
      simp only [Waitnext.step] at h
      split at h <;> cases h
  | flags i =>
      cases h
      cases hpc'
  | final => cases h
  | done ret => cases h
  | loop w₀ pc =>
      have hk : InLoop s.deleted s.db.objmeta c w₀ pc := hk
      have hlook (hpc : ∀ b, pc ≠ .blocked b) (hw : w₀ = w)
          (hlook : c.look s.db now pc = pc') : ∃ pc₀, WaitPc.loop w₀ pc = .loop w pc₀ ∧
            pc₀.decided = true ∧ w.noNotifies = false := by
        subst hw
        rw [← hlook] at hpc' hno
        rcases c.look_toWait hpc hpc' with ⟨hdec, hdec'⟩ | ⟨j, k, rfl, hzero⟩
        · exact ⟨pc, rfl, hdec, hno hdec'⟩
        · have hround := hk.round rfl
          rw [hround.looks j rfl] at hzero
          exact absurd hzero (hround.slot.deletedTs ht h0 hdead)
      cases pc with
      | prepare =>
          simp only [Waitnext.step, Waitnext.loopStep] at h
          split at h
          · cases h
            cases hpc'
          · obtain ⟨t, -, heq⟩ := Option.map_eq_some_iff.mp h
            cases heq
            cases hpc'
      | deletedTest =>
          have hdel := (hk.round rfl).slot.deletedTs ht h0 hdead
          simp only [Waitnext.step, Waitnext.loopStep] at h
          rw [if_pos hdel] at h
          cases h
          cases hpc'
      | leave ret =>
          simp only [Waitnext.step, Waitnext.loopStep] at h
          cases ret <;> cases h
      | wait ret =>
          simp only [Waitnext.step, Waitnext.loopStep] at h
          split at h
          · split at h <;> cases h <;> cases hpc'
          · rename_i hnotify
            obtain ⟨t, -, heq⟩ := Option.map_eq_some_iff.mp h
            cases heq
            exact ⟨_, rfl, rfl, by simpa using hnotify⟩
      | blocked timedOut =>
          simp only [Waitnext.step, Waitnext.loopStep] at h
          split at h
          · cases h
          · obtain ⟨t, -, heq⟩ := Option.map_eq_some_iff.mp h
            cases heq
            cases hpc'
      | woken timedOut =>
          cases h
          cases hpc'
      | unlocked timedOut =>
          simp only [Waitnext.step, Waitnext.loopStep] at h
          split at h <;> cases h <;> cases hpc'
      | timedOut ret => cases h
      | _ =>
          cases h
          exact hlook (fun _ hb => by cases hb) rfl rfl

theorem DeletedInv.slotOf (h : DeletedInv t) {c : Waitnext} {w : WaitLoop} {pc : LoopPc}
    (hpc : t.pc q = .waitnext c (.loop w pc)) (hwait : pc.toWait = true) (h0 : c.oid ≠ 0) :
    SlotOf t.shared.deleted t.shared.db.objmeta c.oid w.i := by
  have hk := h.knows q
  rw [hpc] at hk
  have hk : InLoop t.shared.deleted t.shared.db.objmeta c w pc := hk.1 h0
  refine (hk.round ?_).slot
  unfold LoopPc.toWait at hwait
  split at hwait
  · rfl
  · cases pc <;> first | rfl | cases hwait

/-- Who is blocked at the slot or has decided to block is on its way to the wait. -/
theorem LocksInv.toWait (h : LocksInv t)
    (hw : (t.shared.changenotify i).waiting q = true ∨ t.DecidedAt i q) :
    ∃ c w pc, t.pc q = .waitnext c (.loop w pc) ∧ w.i = i ∧ pc.toWait = true := by
  rcases hw with hw | ⟨c, w, pc, hpc, hi, -, hdec⟩
  · have hblocked := (h.blocked q).notify i hw
    unfold Pc.blockedOn at hblocked
    split at hblocked
    · rename_i c w hpc
      cases hblocked
      exact ⟨c, w, _, hpc, rfl, rfl⟩
    · cases hblocked
  · refine ⟨c, w, pc, hpc, hi, ?_⟩
    unfold LoopPc.toWait
    split
    · rfl
    · exact hdec

/-- A step that makes the object of a waiter a deleted one is the deletion by a thread that owes
it the wakeup. -/
theorem DeletedInv.gone [Rounding] (h : DeletedInv t) (hg : t.Allows l)
    (hm : l.move env t.shared (t.pc l.pid) = some (s', pc')) (hq : q ≠ l.pid)
    (hw : (t.shared.changenotify i).waiting q = true ∨ t.DecidedAt i q)
    (hgone : (t.moved l s' pc').GoneAt i q) :
    t.GoneAt i q ∨ (t.moved l s' pc').OwesAt i l.pid q := by
  obtain ⟨c, w, pc, hpc, rfl, hwait⟩ := h.locks.toWait hw
  obtain ⟨c', w', pc₁, hpc₁, -, hdead⟩ := hgone
  rw [Threads.moved_pc_of_ne hq, hpc] at hpc₁
  cases hpc₁
  rw [Threads.moved_shared] at hdead
  by_cases hold : c.oid ∈ t.shared.deleted
  · exact Or.inl ⟨c, w, pc, hpc, rfl, hold⟩
  · have hkeep : s'.deleted ≠ t.shared.deleted := by
      intro heq
      rw [heq] at hdead
      exact hold hdead
    have hstep := l.tableStep hm
    cases hstep with
    | @mark p now d k hl hd htable hdel =>
        subst hl
        have hd : t.pc p = .delete d (.mark k) := hd
        have hg : t.AllowsNext now (t.pc p) := hg
        rw [hd] at hg
        have hk := h.knows p
        rw [hd] at hk
        obtain ⟨hlt, hoid⟩ := hk.1 k rfl
        rw [hdel, List.mem_cons] at hdead
        have heq : c.oid = (t.shared.db.objmeta k).oid := hdead.resolve_right hold
        have h0 : c.oid ≠ 0 := by
          rw [heq]
          exact hg.2
        have hki := (h.slotOf hpc hwait h0).only k hlt heq.symm
        rw [Label.pid, hd] at hm
        obtain ⟨d', pc₂, rfl, hdstep⟩ := step_delete hm
        obtain ⟨hdoid, howes⟩ := d.owes_of_mark hdstep
        rw [hki] at howes
        refine Or.inr ⟨d', pc₂, c, .loop w pc, Threads.moved_pc_self, howes, ?_, ?_⟩
        · rw [Threads.moved_pc_of_ne hq, hpc]
        · rw [hdoid, heq, hoid]
    | keep htable hdel => exact absurd hdel hkeep
    | clear hpc htable hdel => exact absurd hdel hkeep
    | enter hl hpc htable hdel => exact absurd hdel hkeep
    | setOid hl hpc htable hdel => exact absurd hdel hkeep

theorem owes_moved [Rounding] (hm : l.move env t.shared (t.pc l.pid) = some (s', pc'))
    (hne : ∀ d, t.pc l.pid ≠ .delete d (.broadcast i)) (hq : q ≠ l.pid) (ho : t.OwesAt i r q) :
    (t.moved l s' pc').OwesAt i r q := by
  obtain ⟨d, pc, c, pc₁, hd, howes, hc, hoid⟩ := ho
  have hc' : (t.moved l s' pc').pc q = .waitnext c pc₁ := by rw [Threads.moved_pc_of_ne hq, hc]
  by_cases hr : r = l.pid
  · subst hr
    rw [hd] at hm
    cases l with
    | start p call now =>
        simp only [Label.move] at hm
        split at hm
        · rename_i hfin
          cases pc <;> cases howes <;> cases hfin
        · cases hm
    | next p now =>
        obtain ⟨d', pc₂, rfl, hstep⟩ := step_delete hm
        have hbc : pc ≠ .broadcast i := fun hbc => hne d (by rw [hd, hbc])
        obtain ⟨hdoid, howes'⟩ := DeleteCall.owes_step howes hbc hstep
        exact ⟨d', pc₂, c, pc₁, Threads.moved_pc_self, howes', hc', hdoid.trans hoid⟩
    | wake p timedOut => cases hm
    | fill p n v => cases hm
  · exact ⟨d, pc, c, pc₁, by rw [Threads.moved_pc_of_ne hr, hd], howes, hc', hoid⟩

/-- Who comes to wait after the deletion of its object was on its way to the wait before. -/
theorem DeletedInv.decided_before [Rounding] (h : DeletedInv t)
    (hm : l.move env t.shared (t.pc l.pid) = some (s', pc'))
    (hw : (s'.changenotify i).waiting l.pid = true ∨ (t.moved l s' pc').DecidedAt i l.pid)
    {c : Waitnext} {w : WaitLoop} {pc : LoopPc} (hpc' : pc' = .waitnext c (.loop w pc))
    (hi : w.i = i) (hwait : pc.toWait = true) (hdead : c.oid ∈ s'.deleted) :
    (∃ pc₀, t.pc l.pid = .waitnext c (.loop w pc₀) ∧ pc₀.decided = true ∧ w.noNotifies = false) ∧
      c.oid ∈ t.shared.deleted := by
  have hno : pc.decided = true → w.noNotifies = false := by
    intro hdec
    rcases hw with hw | ⟨c', w', pc₁, hpc₁, -, hno, -⟩
    · have hblocked := ((h.locks.move hm).blocked l.pid).notify i hw
      rw [Threads.moved_pc_self, hpc'] at hblocked
      unfold Pc.blockedOn at hblocked
      split at hblocked
      · rename_i heq
        cases heq
        cases hdec
      · cases hblocked
    · rw [Threads.moved_pc_self, hpc'] at hpc₁
      cases hpc₁
      exact hno
  cases l with
  | start p call now =>
      simp only [Label.move] at hm
      split at hm
      · rw [hpc'] at hm
        cases call <;> cases hm
      · cases hm
  | next p now =>
      have hk := h.knows p
      generalize hq : t.pc p = qc at hk
      have hm : qc.step env p t.shared now = some (s', pc') := by rw [← hq]; exact hm
      cases qc with
      | waitnext c₀ pc₀ =>
          obtain ⟨⟨u, pc₂⟩, hstep, heq⟩ := Option.map_eq_some_iff.mp hm
          rw [hpc'] at heq
          cases heq
          have hlocks := Waitnext.onlyLocks hstep
          rw [hlocks.deleted] at hdead
          have h0 : c.oid ≠ 0 := fun heq => h.table.zero (by rwa [heq] at hdead)
          obtain ⟨pc₁, rfl, hdec, hno⟩ :=
            c.toWait_step h.table h0 (hk.1 h0) hdead hwait hno hstep
          exact ⟨⟨pc₁, hq, hdec, hno⟩, hdead⟩
      | idle => cases hm
      | searchWait c₀ pc₀ | write c₀ pc₀ | insert c₀ pc₀ | delete c₀ pc₀ | purge c₀ pc₀ =>
          obtain ⟨u, -, heq⟩ := Option.map_eq_some_iff.mp hm
          rw [hpc'] at heq
          cases heq
  | wake p timedOut =>
      exfalso
      simp only [Label.move, Pc.wake] at hm
      split at hm
      · split at hm <;> cases hm
        cases hpc'
        rcases hw with hw | ⟨c', w', pc₁, hpc₁, -, -, hdec⟩
        · rw [← hi] at hw
          have hw : ((t.shared.wakeNotify p w.i).changenotify w.i).waiting p = true := hw
          simp [Shared.wakeNotify, Shared.setNotify] at hw
        · rw [Threads.moved_pc_self] at hpc₁
          cases hpc₁
          cases hdec
      · split at hm <;> cases hm
        cases hpc'
      · cases hm
  | fill p n v =>
      generalize t.pc (Label.fill p n v).pid = qc at hm
      cases qc with
      | write c₀ pc₀ =>
          obtain ⟨u, -, heq⟩ := Option.map_eq_some_iff.mp hm
          rw [hpc'] at heq
          cases heq
      | _ => cases hm

/-- Who comes to wait after the deletion of its object is owed a wakeup. -/
theorem DeletedInv.owed_self [Rounding] (h : DeletedInv t)
    (hm : l.move env t.shared (t.pc l.pid) = some (s', pc'))
    (hw : (s'.changenotify i).waiting l.pid = true ∨ (t.moved l s' pc').DecidedAt i l.pid)
    (hgone : (t.moved l s' pc').GoneAt i l.pid) : ∃ r, (t.moved l s' pc').OwesAt i r l.pid := by
  obtain ⟨c, w, pc, hpc, hi, hwait⟩ := (h.locks.move hm).toWait hw
  obtain ⟨c', w', pc₁, hpc₁, -, hdead⟩ := hgone
  rw [hpc] at hpc₁
  cases hpc₁
  have hpc' := hpc
  rw [Threads.moved_pc_self] at hpc'
  obtain ⟨⟨pc₀, hpc₀, hdec, hno⟩, hdead₀⟩ := h.decided_before hm hw hpc' hi hwait hdead
  obtain ⟨r, d, dpc, c₁, pc₁, hd, howes, hc₁, hoid⟩ := (h.attended i).owed l.pid
    (Or.inr ⟨c, w, pc₀, hpc₀, hi, hno, hdec⟩) ⟨c, w, pc₀, hpc₀, hi, hdead₀⟩
  rw [hpc₀] at hc₁
  cases hc₁
  have hr : r ≠ l.pid := by
    rintro rfl
    rw [hpc₀] at hd
    cases hd
  exact ⟨r, d, dpc, c, .loop w pc, by rw [Threads.moved_pc_of_ne hr, hd], howes, hpc, hoid⟩

theorem DeletedInv.attended_move [Rounding] (h : DeletedInv t) (hg : t.Allows l)
    (hm : l.move env t.shared (t.pc l.pid) = some (s', pc')) (i : Nat) :
    (s'.changenotify i).Attended ((t.moved l s' pc').DecidedAt i) ((t.moved l s' pc').GoneAt i)
      ((t.moved l s' pc').OwesAt i) := by
  have hlocks := h.locks.move hm
  have hdecided : ∀ q, q ≠ l.pid → (t.moved l s' pc').DecidedAt i q → t.DecidedAt i q := by
    rintro q hq ⟨c, w, pc, hpc, hrest⟩
    rw [Threads.moved_pc_of_ne hq] at hpc
    exact ⟨c, w, pc, hpc, hrest⟩
  by_cases hb : ∃ d, t.pc l.pid = .delete d (.broadcast i)
  · obtain ⟨d, hd⟩ := hb
    have hheld := (h.locks.holds l.pid).notify i (by rw [hd]; rfl)
    cases l with
    | start p call now =>
        rw [hd] at hm
        cases hm
    | next p now =>
        rw [hd] at hm
        cases hm
        have hbroadcast : (t.shared.broadcastNotify i).changenotify i =
            (t.shared.changenotify i).broadcast := Function.update_self ..
        rw [hbroadcast]
        refine (h.attended i).broadcast hheld hdecided ?_
        rintro ⟨c, w, pc, hpc, -⟩
        rw [Threads.moved_pc_self] at hpc
        cases hpc
    | wake p timedOut =>
        rw [hd] at hm
        cases hm
    | fill p n v =>
        rw [hd] at hm
        cases hm
  · have hne : ∀ d, t.pc l.pid ≠ .delete d (.broadcast i) := fun d hd => hb ⟨d, hd⟩
    refine (h.attended i).step ((h.locks.locksBy hm).notify i) hdecided
      (fun q hq hw hgone => h.gone hg hm hq hw hgone)
      (fun r q hq ho => owes_moved hm hne hq ho) ?_ (h.owed_self hm)
    rintro ⟨c, w, pc, hpc, rfl, hno, hdec⟩
    refine (hlocks.holds l.pid).notify w.i ?_
    rw [hpc]
    have hlocked : pc.locked = true := by cases pc <;> first | rfl | cases hdec
    simp [Pc.locksNotify, hlocked, hno]

end Wakeup

/-! ## Runs -/

section Runs

variable {env : Env} {heapSize : Int} {t : Threads}

theorem DeletedInv.initial [Rounding] (h : (threadsLts env heapSize).init t) : DeletedInv t := by
  have hlocks := LocksInv.initial h
  cases h
  have hfree : ∀ i, ((Shared.initial env heapSize).db.objmeta i).oid = 0 :=
    initial_oid env heapSize
  refine ⟨hlocks, ⟨List.not_mem_nil, fun i _ hi => absurd (hfree i) hi,
    fun i _ j _ hi => absurd (hfree i) hi⟩, fun p => trivial, fun i => .free ?_⟩
  rintro p ⟨c, w, pc, hpc, -⟩
  cases hpc

theorem DeletedInv.move [Rounding] {l : Label} {t' : Threads} (h : DeletedInv t) (hg : t.Allows l)
    (hs : (threadsLts env heapSize).step t l = some t') : DeletedInv t' := by
  obtain ⟨s', pc', hm, rfl⟩ := threadsLts_step hs
  have hstep := l.tableStep hm
  obtain ⟨entered, hc, hentered⟩ := hstep.change hg (h.knows l.pid)
  refine ⟨h.locks.move hm, hc.tableOk h.table, fun q => ?_, h.attended_move hg hm⟩
  by_cases hq : q = l.pid
  · rw [hq, Threads.moved_pc_self]
    exact l.knows h.table hg (h.knows l.pid) hm
  · rw [Threads.moved_pc_of_ne hq]
    refine (h.knows q).change hc h.table (fun i hi hwatch => ?_) fun hlocked => ?_
    · refine hentered i hi q (h.locks.started q fun hidle => ?_) hwatch
      rw [hidle] at hwatch
      cases hwatch
    · rcases hstep.cases_locked with halike | hlocked'
      · exact halike
      · exact absurd (h.locks.eq_of_locksObjmeta hlocked hlocked') hq

theorem DeletedInv.of_guarded [Rounding] (h : (threadsLts env heapSize).Guarded Threads.Allows t) :
    DeletedInv t :=
  h.invariant (fun _ => DeletedInv.initial) fun _ _ _ hI hg hs => hI.move hg hs

end Runs

/-! ## The last round -/

section Ends

variable {s : Shared} {c : Waitnext} {l : WaitLoop} {pc : LoopPc} {p : Pid}

/-- A round that begins after the deletion goes on, and ends the call with
`-KOGMO_RTDB_ERR_NOTFOUND`. -/
theorem InLoop.ends [Rounding] (h : InLoop s.deleted s.db.objmeta c l pc)
    (ht : TableOk s.deleted s.db.objmeta) (h0 : c.oid ≠ 0) (hagain : l.again = true)
    (hlate : l.late = true) (now : Timestamp) :
    ∃ s' pc', c.step p s now (.loop l pc) = some (s', pc') ∧
      (pc' = .done (-Err.notFound.code) ∨ ∃ pc'', pc' = .loop l pc'' ∧ pc''.rank < pc.rank) := by
  obtain ⟨hdead, hearly⟩ := h.late hlate
  cases pc with
  | leave ret =>
      rw [h.left ret rfl hagain hlate]
      exact ⟨_, _, rfl, Or.inl rfl⟩
  | deletedTest =>
      have hdel := (h.round rfl).slot.deletedTs ht h0 hdead
      refine ⟨s, .loop l (.leave (some (-Err.notFound.code))), ?_, Or.inr ⟨_, rfl, by decide⟩⟩
      simp only [Waitnext.step, Waitnext.loopStep]
      rw [if_pos hdel]
  | lookup =>
      refine ⟨_, _, rfl, Or.inr ⟨_, rfl, ?_⟩⟩
      simp only [Waitnext.look]
      split
      · rw [c.fail_notFound]
        exact (by decide : 1 < 6)
      · exact (by decide : 5 < 6)
  | checks j =>
      refine ⟨_, _, rfl, Or.inr ⟨_, rfl, ?_⟩⟩
      simp only [Waitnext.look]
      split
      · rw [c.fail_notFound]
        exact (by decide : 1 < 5)
      · split
        · rw [c.fail_of_ne (by decide)]
          exact (by decide : 0 < 5)
        · exact (by decide : 4 < 5)
  | histSlot j =>
      refine ⟨_, _, rfl, Or.inr ⟨_, rfl, ?_⟩⟩
      simp only [Waitnext.look]
      split
      · rw [c.fail_notFound]
        exact (by decide : 1 < 4)
      · exact (by decide : 3 < 4)
  | test j k =>
      refine ⟨_, _, rfl, Or.inr ⟨_, rfl, ?_⟩⟩
      simp only [Waitnext.look]
      split
      · rw [c.fail_notFound]
        exact (by decide : 1 < 3)
      · exact (by decide : 2 < 3)
  | deletedTs j k =>
      have hround := h.round rfl
      have hdel := hround.slot.deletedTs ht h0 hdead
      rw [← hround.looks j rfl] at hdel
      refine ⟨_, _, rfl, Or.inr ⟨_, rfl, ?_⟩⟩
      simp only [Waitnext.look]
      rw [if_pos hdel, c.fail_notFound]
      exact (by decide : 1 < 2)
  | _ => cases hearly

theorem DeletedInv.waitersEnd [Rounding] {t : Threads} (h : DeletedInv t) : WaitersEnd t where
  woken p c l timedOut hpc hw hdead := by
    obtain ⟨q, d, pc, c', pc', hd, howes, hc, hoid⟩ :=
      (h.attended l.i).owed p (Or.inl hw) ⟨c, l, .blocked timedOut, hpc, rfl, hdead⟩
    rw [hpc] at hc
    cases hc
    exact ⟨q, d, pc, hd, hoid, howes⟩
  ends p c l pc hpc hagain hlate now := by
    have hk := h.knows p
    rw [hpc] at hk
    have h0 : c.oid ≠ 0 := by
      intro heq
      have hdead := hk.2 hlate
      rw [heq] at hdead
      exact h.table.zero hdead
    have hin : InLoop t.shared.deleted t.shared.db.objmeta c l pc := hk.1 h0
    exact hin.ends h.table h0 hagain hlate now

end Ends

/-- In every run in which no insert enters an object in a slot that a waiter goes by, or hands out
an oid a second time, and no delete is of the oid 0 or at a clock reading of 0, waiters do not
outlive their objects. -/
theorem waitersEnd_of_guarded [Rounding] {env : Env} {heapSize : Int} {t : Threads}
    (h : (threadsLts env heapSize).Guarded Threads.Allows t) : WaitersEnd t :=
  (DeletedInv.of_guarded h).waitersEnd

def Label.steps (p : Pid) (now : Timestamp) (n : Nat) : List Label := List.replicate n (.next p now)

def aWaiter : Waitnext where
  h := ⟨3, false⟩
  oid := 1
  oldTs := 0
  buf := .zero
  size := 24
  wakeupTs := 0
  doPtr := false

def aBareObject : ObjInfo := { name := ['a'] }

/-- A thread inserts an object, a second one waits for its data, and the first deletes it at once.
The waiter is blocked, and the broadcast is still to come. -/
def deletionSchedule : List Label :=
  [.start 0 (.insert ⟨2, false⟩ aBareObject) 1] ++ Label.steps 0 1 9 ++
    [.start 1 (.waitnext aWaiter) 2] ++ Label.steps 1 2 7 ++
    [.start 0 (.delete ⟨2, false⟩ 1 true) 3] ++ Label.steps 0 3 9

theorem waitersEnd_of_guarded_blocked :
    ∃ t, (threadsLts (exampleEnv 4096) 4096).Guarded Threads.Allows t ∧ WaitersEnd t ∧
      (t.pc 1).blockedOn = some 0 ∧ (t.shared.changenotify 0).waiting 1 = true ∧
      t.shared.deleted = [1] := by
  obtain ⟨t, hr, hp⟩ := (threadsLts (exampleEnv 4096) 4096).exists_of_execGuarded
    (G := Threads.Allows) (g := fun t l => decide (t.Allows l)) (fun _ _ => of_decide_eq_true)
    deletionSchedule
    (fun t => decide ((t.pc 1).blockedOn = some 0 ∧ (t.shared.changenotify 0).waiting 1 = true ∧
      t.shared.deleted = [1]))
    (s := ⟨.initial (exampleEnv 4096) 4096, fun _ => .idle, []⟩) rfl (by decide +kernel)
  exact ⟨t, hr, waitersEnd_of_guarded hr, of_decide_eq_true hp⟩

/-- The broadcast comes, but before the waiter has looked, a third thread's insert takes the
slot. The waiter sees an object that has not been deleted and waits again. -/
def reuseSchedule : List Label :=
  deletionSchedule ++ Label.steps 0 3 4 ++ [.start 2 (.insert ⟨4, false⟩ aBareObject) 4] ++
    Label.steps 2 4 9 ++ Label.steps 1 5 7

/-- The slot whose waiters the thread still has to wake. -/
def Pc.owes : Pc → Option Nat
  | .delete _ pc => pc.owes
  | _ => none

def Pc.waitsFor : Pc → ObjId
  | .waitnext c _ => c.oid
  | _ => 0

theorem exists_not_waitersEnd :
    ∃ t, (threadsLts (exampleEnv 4096) 4096).Reachable t ∧ ¬ WaitersEnd t := by
  obtain ⟨t, hr, hp⟩ := (threadsLts (exampleEnv 4096) 4096).exists_of_exec reuseSchedule
    (fun t => decide ((t.pc 1).blockedOn = some 0 ∧ (t.pc 1).waitsFor ∈ t.shared.deleted ∧
      (t.shared.changenotify 0).waiting 1 = true ∧ ∀ q ∈ t.started, (t.pc q).owes = none))
    (s := ⟨.initial (exampleEnv 4096) 4096, fun _ => .idle, []⟩) rfl (by decide +kernel)
  obtain ⟨hblocked, hdead, hw, howes⟩ := of_decide_eq_true hp
  refine ⟨t, hr, fun hend => ?_⟩
  unfold Pc.blockedOn at hblocked
  split at hblocked
  · rename_i c l hpc
    have hi : l.i = 0 := Option.some.inj hblocked
    rw [hpc] at hdead
    obtain ⟨q, d, pc, hd, -, ho⟩ := hend.woken 1 c l false hpc (by rw [hi]; exact hw) hdead
    have hq : q ∈ t.started :=
      (LocksInv.of_reachable hr).started q (by rw [hd]; exact Pc.noConfusion)
    have hnone := howes q hq
    rw [hd] at hnone
    have hnone : pc.owes = none := hnone
    rw [ho] at hnone
    cases hnone
  · cases hblocked

end KogmoRtdb
