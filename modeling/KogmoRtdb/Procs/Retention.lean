import KogmoRtdb.Meta.Retention
import KogmoRtdb.Procs.Cleanup

/-!
# Deleted objects and the cleanup

`purge_procs` deletes the objects of a dead process once more, the deleted ones among them, and
passes on whether that process wanted its objects to be deleted immediately. It reads the flag
from the slot, and `proc_oid` after it. As long as the slot is that of one dead process, the two
belong together, and the invariant is that of the calls. Times are exact numbers here too.
-/

namespace KogmoRtdb

open Prog

attribute [local instance] Rounding.exact

variable {env : Env} {limit : Int} {s s' : CleanupState} {w₀ w w' : World} {i : Nat}
  {info : ObjInfo}

/-! ## The condition -/

/-- The manager's step does not delete the object with the immediate option of its process. -/
def CleanupState.MgrSpares (s : CleanupState) (info : ObjInfo) : Prop :=
  match s.mgr with
  | .delete k immediatelyDelete metadata _ =>
      immediatelyDelete = true → metadata.oid = info.oid →
        ¬ ((s.table.proc k).procOid = info.createdProc ∧
          (s.table.proc k).immediatelyDelete = true)
  | _ => True

instance CleanupState.instDecidableMgrSpares (s : CleanupState) (info : ObjInfo) :
    Decidable (s.MgrSpares info) :=
  match s with
  | { mgr := .delete k immediatelyDelete metadata _, table, .. } =>
      inferInstanceAs (Decidable (immediatelyDelete = true → metadata.oid = info.oid →
        ¬ ((table.proc k).procOid = info.createdProc ∧
          (table.proc k).immediatelyDelete = true)))
  | { mgr := .idle, .. } | { mgr := .test _, .. } | { mgr := .load _, .. }
  | { mgr := .kill .., .. } | { mgr := .flags _, .. } | { mgr := .reread .., .. }
  | { mgr := .search .., .. } | { mgr := .read .., .. } | { mgr := .clear _, .. } =>
      isTrue trivial

/-- The step does not delete the object with the immediate option of its process, and leaves its
history interval alone. -/
def CleanupStep.Spares (info : ObjInfo) (s : CleanupState) : CleanupStep → Prop
  | .call op => op.Spares info
  | .manager _ => s.MgrSpares info
  | _ => True

instance (info : ObjInfo) (s : CleanupState) : DecidablePred (CleanupStep.Spares info s)
  | .call op => inferInstanceAs (Decidable (op.Spares info))
  | .manager _ => inferInstanceAs (Decidable (s.MgrSpares info))
  | .start _ | .exit _ | .connect .. | .disconnect _ | .purgeProcs => isTrue trivial

/-! ## The steps on the database -/

inductive WorldStep (env : Env) (s s' : CleanupState) : CleanupStep → Prop where
  | idle {l : CleanupStep} (hdb : s'.world.db = s.world.db)
      (hlog : s'.world.heapLog = s.world.heapLog) (htick : s.world.tick ≤ s'.world.tick) :
      WorldStep env s s' l
  | call {op : Op} {events : List ApiEvent}
      (hrun : op.run env.atomic s.world = some (events, s'.world)) : WorldStep env s s' (.call op)
  | delete {fuel k : Nat} {imm : Bool} {metadata : ObjInfo} {objlist : List ObjId}
      {r : Result × ObjInfo} (hpc : s.mgr = .delete k imm metadata objlist)
      (hrun : deleteImm env.atomic manager fuel metadata imm s.world = some (r, s'.world)) :
      WorldStep env s s' (.manager fuel)

theorem worldStep_manager {fuel : Nat} (hs : managerStep env s fuel = some s') :
    WorldStep env s s' (.manager fuel) := by
  cases hpc : s.mgr with
  | idle =>
      rw [managerStep, hpc] at hs
      cases hs
  | test k =>
      rw [managerStep, hpc] at hs
      dsimp only at hs
      split at hs <;> cases hs <;> exact .idle rfl rfl (Nat.le_refl _)
  | load k =>
      rw [managerStep, hpc] at hs
      cases hs
      exact .idle rfl rfl (Nat.le_refl _)
  | kill k pid =>
      rw [managerStep, hpc] at hs
      cases hs
      exact .idle rfl rfl (Nat.le_refl _)
  | flags k =>
      rw [managerStep, hpc] at hs
      cases hs
      exact .idle rfl rfl (Nat.le_refl _)
  | reread k imm =>
      rw [managerStep, hpc] at hs
      cases hs
      exact .idle rfl rfl (Nat.le_refl _)
  | search k imm procOid =>
      rw [managerStep, hpc] at hs
      obtain ⟨⟨r, w⟩, hrun, rfl⟩ := Option.map_eq_some_iff.mp hs
      obtain ⟨hdb, hlog, htick⟩ := searchinfoMode_idle hrun
      exact .idle hdb hlog htick
  | read k imm objlist =>
      cases objlist with
      | nil =>
          rw [managerStep, hpc] at hs
          cases hs
          exact .idle rfl rfl (Nat.le_refl _)
      | cons oid objlist =>
          rw [managerStep, hpc] at hs
          obtain ⟨⟨r, w⟩, hrun, rfl⟩ := Option.map_eq_some_iff.mp hs
          have hread := readinfo_spec
            (P := fun w => w.db = s.world.db ∧ w.heapLog = s.world.heapLog ∧
              s.world.tick ≤ w.tick)
            (fun _ _ hw hdb hlog htick => ⟨hdb.trans hw.1, hlog.trans hw.2.1, hw.2.2.trans htick⟩)
            s.world r w ⟨rfl, rfl, Nat.le_refl _⟩ hrun
          obtain ⟨⟨hdb, hlog, htick⟩, -⟩ := hread
          exact .idle hdb hlog htick
  | delete k imm metadata objlist =>
      rw [managerStep, hpc] at hs
      obtain ⟨⟨r, w⟩, hrun, rfl⟩ := Option.map_eq_some_iff.mp hs
      exact .delete hpc hrun
  | clear k =>
      rw [managerStep, hpc] at hs
      cases hs
      exact .idle rfl rfl (Nat.le_refl _)

theorem worldStep_next {l : CleanupStep} (hs : CleanupState.next env s l = some s') :
    WorldStep env s s' l := by
  rcases next_cases hs with ⟨fuel, rfl, hs⟩ | hs
  · exact worldStep_manager hs
  · cases hs with
    | call hrun => exact .call hrun
    | _ => exact .idle rfl rfl (Nat.le_refl _)

/-! ## The flag -/

/-- What the manager has read of the flags of which slot. -/
def MgrPc.flag? : MgrPc → Option (Nat × Bool)
  | .reread k imm | .search k imm _ | .read k imm _ | .delete k imm _ _ => some (k, imm)
  | _ => none

def FlagRead (s : CleanupState) : Prop :=
  ∀ k imm, s.mgr.flag? = some (k, imm) → imm = (s.table.proc k).immediatelyDelete

theorem slot_of_flag {pc : MgrPc} {k : Nat} {imm : Bool} (h : pc.flag? = some (k, imm)) :
    pc.slot? = some k := by
  cases pc <;> cases h <;> rfl

theorem FlagRead.of_none (h : s.mgr.flag? = none) : FlagRead s := by
  intro k imm hk
  rw [h] at hk
  cases hk

/-- The steps of others leave a dead process's slot alone. -/
theorem table_of_dead {l : CleanupStep} {k : Nat} (h : CleanupCore s) (hs : OthersStep env s l s')
    (hd : DeadSlot s k) : s'.table.proc k = s.table.proc k := by
  cases hs with
  | connect hpid hconn =>
      obtain ⟨j, -, hfree, -, hproc, -⟩ := ProcTable.connect_some hconn
      rw [hproc, Function.update_of_ne]
      rintro rfl
      exact hd.occupied hfree
  | disconnect hc halive =>
      have hproc := (h.procs.counted.disconnect (h.procs.connOid _ hc)).2 k
      refine hproc.resolve_right fun h => ?_
      exact hd.dead (mem_live.mpr (Or.inr ⟨_, hc, halive, h.1.symm⟩))
  | _ => rfl

/-- The manager's own steps read the flag and keep it. -/
theorem flagRead_manager {fuel : Nat} (hflag : FlagRead s)
    (hs : managerStep env s fuel = some s') : FlagRead s' := by
  cases hpc : s.mgr with
  | idle =>
      rw [managerStep, hpc] at hs
      cases hs
  | test k =>
      rw [managerStep, hpc] at hs
      dsimp only at hs
      split at hs <;> cases hs
      · refine .of_none ?_
        dsimp only
        split <;> rfl
      · exact .of_none rfl
  | load k =>
      rw [managerStep, hpc] at hs
      cases hs
      exact .of_none rfl
  | kill k pid =>
      rw [managerStep, hpc] at hs
      cases hs
      refine .of_none ?_
      dsimp only
      split <;> rfl
  | flags k =>
      rw [managerStep, hpc] at hs
      cases hs
      intro j imm hj
      cases hj
      rfl
  | reread k imm =>
      have himm := hflag k imm (by rw [hpc]; rfl)
      rw [managerStep, hpc] at hs
      cases hs
      intro j imm' hj
      cases hj
      exact himm
  | search k imm procOid =>
      have himm := hflag k imm (by rw [hpc]; rfl)
      rw [managerStep, hpc] at hs
      obtain ⟨⟨⟨err, objlist⟩, w⟩, -, rfl⟩ := Option.map_eq_some_iff.mp hs
      intro j imm' hj
      cases err <;> cases hj
      exact himm
  | read k imm objlist =>
      have himm := hflag k imm (by rw [hpc]; rfl)
      cases objlist with
      | nil =>
          rw [managerStep, hpc] at hs
          cases hs
          exact .of_none rfl
      | cons oid objlist =>
          rw [managerStep, hpc] at hs
          obtain ⟨⟨⟨err, usedObjmeta⟩, w⟩, -, rfl⟩ := Option.map_eq_some_iff.mp hs
          intro j imm' hj
          dsimp only at hj
          split at hj <;> cases hj <;> exact himm
  | delete k imm metadata objlist =>
      have himm := hflag k imm (by rw [hpc]; rfl)
      rw [managerStep, hpc] at hs
      obtain ⟨⟨r, w⟩, -, rfl⟩ := Option.map_eq_some_iff.mp hs
      intro j imm' hj
      cases hj
      exact himm
  | clear k =>
      rw [managerStep, hpc] at hs
      cases hs
      exact .of_none rfl

theorem OthersStep.mgr {l : CleanupStep} (hs : OthersStep env s l s') :
    s'.mgr = s.mgr ∨ s'.mgr = .test 0 := by
  cases hs with
  | purgeProcs => exact Or.inr rfl
  | _ => exact Or.inl rfl

theorem flagRead_step {l : CleanupStep} (h : CleanupCore s) (hflag : FlagRead s)
    (hs : CleanupState.next env s l = some s') : FlagRead s' := by
  rcases next_cases hs with ⟨fuel, rfl, hs⟩ | hs
  · exact flagRead_manager hflag hs
  · intro k imm hk
    rcases hs.mgr with hmgr | hmgr
    · rw [hmgr] at hk
      rw [table_of_dead h hs (h.mgr.slot k (slot_of_flag hk))]
      exact hflag k imm hk
    · rw [hmgr] at hk
      cases hk

/-! ## The owners of the blocks -/

/-- What the manager deletes was created by the process whose slot it is at. -/
theorem createdBy_of_delete {k : Nat} {imm : Bool} {metadata : ObjInfo} {objlist : List ObjId}
    (h : CleanupCore s) (hpc : s.mgr = .delete k imm metadata objlist) :
    CreatedBy s.world (s.table.proc k).procOid metadata.oid := by
  have hlist := h.mgr.objlist k (by rw [hpc]; rfl) metadata.oid
  rw [hpc] at hlist
  exact hlist List.mem_cons_self

theorem oidKnown_of_fresh {op : Op} (h : s.FreshOid op) : OidKnown op := by
  cases op <;> first | exact h | exact trivial

theorem owned_worldStep {l : CleanupStep} (hf : AllocSound limit env.alloc)
    (hr : RefusesNegative env.alloc) (h : CleanupCore s) (hg : ManagerGuard s l)
    (ho : OwnedWorld limit s.world.accepted) (hw : WorldStep env s s' l) :
    OwnedWorld limit s'.world.accepted := by
  cases hw with
  | idle hdb hlog htick =>
      have heffect : Effect env s.world s'.world := .idle hdb hlog
      exact ownedAccepted_effect ho heffect
  | call hrun => exact ownedAccepted_op hf hr ho (oidKnown_of_fresh hg) hrun
  | delete hpc hrun =>
      have hoid := (createdBy_of_delete h hpc).1
      have hsteps := Steps.keepsEffects.deleteImm _ (fun _ => hoid) s.world _ _ .refl hrun
      exact hsteps.invariant (fun _ _ => ownedAccepted_effect) ho

/-! ## The object -/

/-- The object's time is over, or it is no longer of interest. -/
structure Past (env : Env) (limit : Int) (w₀ : World) (i : Nat) (w : World) : Prop where
  owned : OwnedWorld limit w.accepted
  interval : w.db.defaultKeepDeletedInterval = w₀.db.defaultKeepDeletedInterval
  past : ¬ NotPast env (w₀.db.keptUntil (w₀.db.objmeta i)) w

theorem keepsTimed_past : KeepsTimed env True (fun _ => True) (Past env limit w₀ i) where
  idle w w' hp hdb hlog htick := by
    have heffect : Effect env w w' := .idle hdb hlog
    exact ⟨ownedAccepted_effect hp.owned heffect, by rw [hdb]; exact hp.interval,
      fun hnow => hp.past (hnow.mono htick)⟩
  mark w j k proc hp hocc _ :=
    ⟨ownedAccepted_effect hp.owned (.mark (hocc trivial)), hp.interval, hp.past⟩
  purge w j hp hocc _ := by
    have heffect : Effect env w (w.purged j) := .purge (hocc trivial)
    exact ⟨ownedAccepted_effect hp.owned heffect, (purged_interval j w).trans hp.interval,
      fun hnow => hp.past (hnow.mono (purged_tick j w).ge)⟩

/-- A delete by the manager takes the object only with the immediate option of its process. -/
theorem retaining_delete {fuel k : Nat} {imm : Bool} {metadata : ObjInfo} {objlist : List ObjId}
    {r : Result × ObjInfo} (hdel : (w₀.db.objmeta i).Deleted)
    (htime : IsTime (w₀.db.keptUntil (w₀.db.objmeta i))) (h : CleanupCore s) (hflag : FlagRead s)
    (hspares : s.MgrSpares (w₀.db.objmeta i)) (hpc : s.mgr = .delete k imm metadata objlist)
    (hw : Retaining env limit w₀ i s.world)
    (hrun : deleteImm env.atomic manager fuel metadata imm s.world = some (r, w')) :
    Retaining env limit w₀ i w' := by
  obtain ⟨hoid, hcreated⟩ := createdBy_of_delete h hpc
  by_cases hnow : NotPast env (w₀.db.keptUntil (w₀.db.objmeta i)) s.world
  · have hk := hw.kept hnow
    have himm : ¬ (imm = true ∧ (w₀.db.objmeta i).oid = metadata.oid) := by
      rintro ⟨himm, heq⟩
      have hproc := hcreated i (hk.slot.oid.trans heq)
      unfold CleanupState.MgrSpares at hspares
      rw [hpc] at hspares
      refine hspares himm heq.symm ⟨hproc.symm.trans hk.slot.createdProc, ?_⟩
      rw [← hflag k imm (by rw [hpc]; rfl), himm]
    have hP : KeepsTimed env True (fun o => imm = true ∧ o = metadata.oid)
        (Retaining env limit w₀ i) := keepsTimed_retaining hdel htime himm
    exact hP.deleteImm fuel (fun _ => hoid) (fun h => ⟨h, rfl⟩) s.world r w' hw hrun
  · have hpast : Past env limit w₀ i w' := keepsTimed_past.deleteImm fuel (fun _ => hoid)
      (fun _ => trivial) s.world r w' ⟨hw.owned, hw.interval, hnow⟩ hrun
    exact ⟨hpast.owned, hpast.interval, fun hnow' => absurd hnow' hpast.past⟩

theorem retaining_worldStep {l : CleanupStep} (hf : AllocSound limit env.alloc)
    (hr : RefusesNegative env.alloc) (hdel : (w₀.db.objmeta i).Deleted)
    (htime : IsTime (w₀.db.keptUntil (w₀.db.objmeta i))) (h : CleanupCore s) (hflag : FlagRead s)
    (hg : ManagerGuard s l) (hspares : CleanupStep.Spares (w₀.db.objmeta i) s l)
    (hw : Retaining env limit w₀ i s.world) (hs : WorldStep env s s' l) :
    Retaining env limit w₀ i s'.world := by
  cases hs with
  | idle hdb hlog htick =>
      have hP : KeepsTimed env True (fun _ => False) (Retaining env limit w₀ i) :=
        keepsTimed_retaining hdel htime not_false
      exact hP.idle _ _ hw hdb hlog htick
  | call hrun =>
      exact retaining_op hf hr hdel htime (oidKnown_of_fresh hg) hspares hw hrun
  | delete hpc hrun => exact retaining_delete hdel htime h hflag hspares hpc hw hrun

/-! ## Runs -/

theorem flagRead_initial {heapSize : Int} (h : (cleanupLts env heapSize).init s) : FlagRead s := by
  subst h
  exact .of_none rfl

/-- What the manager knows, and who owns which block, in every run. -/
theorem known_of_guarded {heapSize : Int} (hf : AllocSound limit env.alloc)
    (hr : RefusesNegative env.alloc) (h : (cleanupLts env heapSize).Guarded ManagerGuard s) :
    CleanupCore s ∧ FlagRead s ∧ OwnedWorld limit s.world.accepted := by
  refine h.invariant (I := fun s => CleanupCore s ∧ FlagRead s ∧ OwnedWorld limit s.world.accepted)
    (fun s hs => ?_) fun s l s' hI hg hs => ?_
  · have hinv := inv_initial hs
    refine ⟨⟨hinv.procs, hinv.mgr, hinv.oids⟩, flagRead_initial hs, ?_⟩
    subst hs
    exact ownedAccepted_initial hf
  · obtain ⟨hcore, hflag, ho⟩ := hI
    exact ⟨core_step hcore hg hs, flagRead_step hcore hflag hs,
      owned_worldStep hf hr hcore hg ho (worldStep_next hs)⟩

/-- A deleted object stays in its slot, and its block is not given back, as long as no reading of
the clock is past the end of its interval, in every run from there on in which the manager keeps
to the slots of dead processes and the object is not deleted again with the immediate option. -/
theorem retention_of_guarded {heapSize : Int} {s₀ : CleanupState}
    (hf : AllocSound limit env.alloc) (hr : RefusesNegative env.alloc)
    (h₀ : (cleanupLts env heapSize).Guarded ManagerGuard s₀)
    (hdel : (s₀.world.db.objmeta i).Deleted)
    (htime : IsTime (s₀.world.db.keptUntil (s₀.world.db.objmeta i)))
    (h : ((cleanupLts env heapSize).startingAt s₀).Guarded
      (fun s l => ManagerGuard s l ∧ CleanupStep.Spares (s₀.world.db.objmeta i) s l) s)
    (hnow : NotPast env (s₀.world.db.keptUntil (s₀.world.db.objmeta i)) s.world) :
    KeptObject s₀.world i s.world := by
  have hinv : CleanupCore s ∧ FlagRead s ∧ Retaining env limit s₀.world i s.world := by
    refine h.invariant
      (I := fun s => CleanupCore s ∧ FlagRead s ∧ Retaining env limit s₀.world i s.world)
      (fun s hs => ?_) fun s l s' hI hg hs => ?_
    · obtain rfl : s = s₀ := hs
      obtain ⟨hcore, hflag, ho⟩ := known_of_guarded hf hr h₀
      exact ⟨hcore, hflag, ho, rfl, fun _ => .refl _ _⟩
    · obtain ⟨hcore, hflag, hw⟩ := hI
      obtain ⟨hg, hspares⟩ := hg
      exact ⟨core_step hcore hg hs, flagRead_step hcore hflag hs,
        retaining_worldStep hf hr hdel htime hcore hflag hg hspares hw (worldStep_next hs)⟩
  exact hinv.2.2.kept hnow

def stoppedEnv : Env := { exampleEnv 4096 with now := fun _ => 10000000000 }

/-- A process deletes its object; two others are there, and a third one has been started. -/
def deletedSchedule : List CleanupStep :=
  [.start 100, .connect 100 false, .start 200, .connect 200 false, .start 300,
    .call (.insert ⟨3, false⟩ anObject),
    .call (.deleteImm ⟨3, false⟩ { anObject with oid := 1 } false 1)]

theorem exists_runs (ls ls' : List CleanupStep) (p : CleanupState → Bool)
    (G : CleanupState → CleanupState → CleanupStep → Prop) [∀ s₀ s l, Decidable (G s₀ s l)]
    (q : CleanupState → CleanupState → Bool)
    (he : ((cleanupLts stoppedEnv 4096).execGuarded (fun s l => decide (ManagerGuard s l))
      ⟨World.initial stoppedEnv.atomic 4096, .initial, [], [], .idle, [], []⟩ ls).any (fun s₀ =>
        p s₀ && (((cleanupLts stoppedEnv 4096).startingAt s₀).execGuarded
          (fun s l => decide (G s₀ s l)) s₀ ls').any (q s₀)) = true) :
    ∃ s₀ s, (cleanupLts stoppedEnv 4096).Guarded ManagerGuard s₀ ∧ p s₀ = true ∧
      ((cleanupLts stoppedEnv 4096).startingAt s₀).Guarded (G s₀) s ∧ q s₀ s = true := by
  obtain ⟨s₀, h₀, hp⟩ := (cleanupLts stoppedEnv 4096).exists_of_execGuarded
    (fun _ _ => of_decide_eq_true) ls _ (by rfl) he
  obtain ⟨hp, hrest⟩ := Bool.and_eq_true_iff.mp hp
  obtain ⟨s, h, hq⟩ := ((cleanupLts stoppedEnv 4096).startingAt s₀).exists_of_execGuarded
    (fun _ _ => of_decide_eq_true) ls' _ rfl hrest
  exact ⟨s₀, s, h₀, hp, h, hq⟩

/-- A purge and an insert of an object of the same size leave the deleted object where it is. -/
theorem retention_of_guarded_insert :
    ∃ s₀ s : CleanupState, (cleanupLts stoppedEnv 4096).Guarded ManagerGuard s₀ ∧
      (s₀.world.db.objmeta 0).Deleted ∧ (s.world.db.objmeta 1).oid = 2 ∧
      KeptObject s₀.world 0 s.world := by
  obtain ⟨s₀, s, h₀, hp, h, hq⟩ := exists_runs deletedSchedule
    [.call .purgeObjs, .call (.insert ⟨3, false⟩ anObject)]
    (fun s₀ => decide ((s₀.world.db.objmeta 0).Deleted ∧
      IsTime (s₀.world.db.keptUntil (s₀.world.db.objmeta 0))))
    (fun s₀ s l => ManagerGuard s l ∧ CleanupStep.Spares (s₀.world.db.objmeta 0) s l)
    (fun s₀ s => decide ((s.world.db.objmeta 1).oid = 2 ∧
      NotPast stoppedEnv (s₀.world.db.keptUntil (s₀.world.db.objmeta 0)) s.world))
    (by decide +kernel)
  obtain ⟨hdel, htime⟩ := of_decide_eq_true hp
  obtain ⟨hoid, hnow⟩ := of_decide_eq_true hq
  exact ⟨s₀, s, h₀, hdel, hoid,
    retention_of_guarded (bumpAlloc_sound 4096) (bumpAlloc_refusesNegative 4096) h₀ hdel htime h
      hnow⟩

/-- The manager finds a process dead that has disconnected meanwhile, reads the flag of another
one that has taken its slot and wants its objects to be deleted immediately, and after that no
process at all: it deletes every object with the option. -/
theorem exists_not_retention :
    ∃ s₀ s : CleanupState, (cleanupLts stoppedEnv 4096).Reachable s₀ ∧
      (s₀.world.db.objmeta 0).Deleted ∧
      IsTime (s₀.world.db.keptUntil (s₀.world.db.objmeta 0)) ∧
      ((cleanupLts stoppedEnv 4096).startingAt s₀).Guarded
        (fun s l => CleanupStep.Spares (s₀.world.db.objmeta 0) s l) s ∧
      NotPast stoppedEnv (s₀.world.db.keptUntil (s₀.world.db.objmeta 0)) s.world ∧
      ¬ KeptObject s₀.world 0 s.world := by
  obtain ⟨s₀, s, h₀, hp, h, hq⟩ := exists_runs deletedSchedule
    [.purgeProcs, .manager 1, .manager 1, .disconnect ⟨2, 100, true⟩, .exit 100, .manager 1,
      .connect 300 true, .manager 1, .disconnect ⟨4, 300, true⟩, .manager 1, .manager 1,
      .manager 1, .manager 1]
    (fun s₀ => decide ((s₀.world.db.objmeta 0).Deleted ∧
      IsTime (s₀.world.db.keptUntil (s₀.world.db.objmeta 0))))
    (fun s₀ s l => CleanupStep.Spares (s₀.world.db.objmeta 0) s l)
    (fun s₀ s => decide ((s.world.db.objmeta 0).oid = 0 ∧
      NotPast stoppedEnv (s₀.world.db.keptUntil (s₀.world.db.objmeta 0)) s.world))
    (by decide +kernel)
  obtain ⟨hdel, htime⟩ := of_decide_eq_true hp
  obtain ⟨hoid, hnow⟩ := of_decide_eq_true hq
  refine ⟨s₀, s, h₀.reachable, hdel, htime, h, hnow, fun hk => ?_⟩
  exact hdel.oid (hk.slot.oid.symm.trans hoid)

end KogmoRtdb
