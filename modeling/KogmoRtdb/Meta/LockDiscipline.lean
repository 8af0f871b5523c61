import KogmoRtdb.Meta.Delete
import KogmoRtdb.Meta.Init
import KogmoRtdb.Meta.InsertExits

/-!
# The discipline of `objmeta_lock`

Every function on the metadata table takes the lock when it starts and has
released it when it returns, and writes to the table in between only. A call
that starts `Outside` the lock ends outside of it; `Inside` is what holds
between.

`insert` breaks the rule on one way out. Its retry loop is left by `continue` when
memory or slots are short, with the lock held and no slot; the uniqueness check
follows, and `if ( found_slot == -1 ) return` gives up without the unlock that
every other exit has. `LosesLock` says when this happens, in terms of the table as
the call finds it each time the lock is granted.
-/

namespace KogmoRtdb.LockDiscipline

open Prog

variable {env : Env} {h : Handle} {u : Bool}

/-- The caller does not hold `objmeta_lock`. -/
def Outside (u : Bool) (w : World) : Prop := w.held = false ∧ w.unguarded = u

def Inside (u : Bool) (w : World) : Prop := w.held = true ∧ w.unguarded = u

/-! ## The primitive calls -/

theorem lock_inside {w : World} (hw : w.unguarded = u) : Inside u (w.lock env) := by
  unfold World.lock
  split
  · exact ⟨‹_›, hw⟩
  · exact ⟨rfl, hw⟩

theorem objmetaLock_spec : Triple (Outside u) (objmetaLock env) fun _ => Inside u := by
  intro w _ w' hw hrun
  cases hrun
  exact lock_inside hw.2

theorem objmetaUnlock_spec : Triple (Inside u) objmetaUnlock fun _ => Outside u := by
  intro w _ w' hw hrun
  cases hrun
  exact ⟨rfl, hw.2⟩

theorem objmetaUnlock_again : Keeps (Outside u) objmetaUnlock := by
  intro w _ w' hw hrun
  cases hrun
  exact ⟨rfl, hw.2⟩

theorem readDb_keeps {P : World → Prop} : Keeps P readDb := by
  intro w _ w' hw hrun
  cases hrun
  exact hw

theorem timestampNow_keeps : Keeps (Inside u) (timestampNow env) := by
  intro w _ w' hw hrun
  cases hrun
  exact hw

theorem timestampNow_outside : Keeps (Outside u) (timestampNow env) := by
  intro w _ w' hw hrun
  cases hrun
  exact hw

theorem write_inside {f : Db → Db} {w : World} (hw : Inside u w) : Inside u (w.write f) :=
  ⟨hw.1, by simp [World.write, hw.1, hw.2]⟩

theorem writeDb_keeps {f : Db → Db} : Keeps (Inside u) (writeDb f) := by
  intro w _ w' hw hrun
  cases hrun
  exact write_inside hw

theorem memFree_keeps {idx size : Int} : Keeps (Inside u) (memFree idx size) := by
  intro w _ w' hw hrun
  cases hrun
  exact hw

theorem condvarWait_keeps {ts : Timestamp} : Keeps (Inside u) (condvarWait env ts) := by
  intro w b w' hw hrun
  unfold condvarWait at hrun
  rw [if_pos hw.1] at hrun
  cases hrun
  exact hw

theorem waitMetanotify_spec {ts : Timestamp} :
    Triple (Inside u) (waitMetanotify env ts) fun _ => Outside u :=
  .bind condvarWait_keeps fun _ => .bind objmetaUnlock_spec fun _ => .pure fun _ hw => hw

/-! ## Searching and reading -/

theorem searchinfoNolock_keeps {P : World → Prop} {name : Option ObjName} {otype : Int}
    {parentOid procOid : ObjId} {ts : Timestamp} {idlist : Option IdList} {nth : Int} :
    Keeps P (searchinfoNolock env name otype parentOid procOid ts idlist nth) := by
  intro w r w' hw hrun
  rwa [searchinfoNolock_some hrun]

theorem searchinfoMode_spec {name : Option ObjName} {otype : Int} {parentOid procOid : ObjId}
    {ts : Timestamp} {idlist : Option IdList} {nth : Int} {includedeleted : Bool} :
    Keeps (Outside u) (searchinfoMode env name otype parentOid procOid ts idlist nth false
      includedeleted) := by
  rw [searchinfoMode_matches]
  cases searchName env name otype with
  | badPattern => exact .pure
  | oid oid => exact .bind readDb_keeps fun _ => .pure
  | scan test otype =>
      refine Triple.bind objmetaLock_spec fun _ => ?_
      refine Triple.bind readDb_keeps fun db => ?_
      refine Triple.bind objmetaUnlock_spec fun _ => ?_
      exact .bind readDb_keeps fun _ => Keeps.pure

theorem readinfo_spec {id : ObjId} {ts : Timestamp} {metadata : ObjInfo} :
    Keeps (Outside u) (readinfo env id ts metadata) := by
  refine Triple.bind objmetaLock_spec fun _ => Triple.bind readDb_keeps fun db => ?_
  have hend {r : Result × ObjInfo} :
      Triple (Inside u) (objmetaUnlock >>= fun _ => pure r) fun _ => Outside u :=
    .bind objmetaUnlock_spec fun _ => Keeps.pure
  cases db.findmetaById id with
  | none => exact hend
  | some i => exact Triple.ite (fun _ => hend) fun _ => hend

theorem changeinfo_spec {oid : ObjId} {metadata : ObjInfo} :
    Keeps (Outside u) (changeinfo env h oid metadata) := by
  refine Keeps.ite (Triple.bind timestampNow_outside fun _ => ?_) .pure
  refine Triple.bind objmetaLock_spec fun _ => Triple.bind readDb_keeps fun db => ?_
  cases db.findmetaById oid with
  | none => exact .bind objmetaUnlock_spec fun _ => Keeps.pure
  | some i =>
      refine Triple.bind writeDb_keeps fun _ => Triple.bind objmetaUnlock_spec fun _ => ?_
      exact .bind readDb_keeps fun _ => Keeps.pure

theorem searchinfoWaitUntil_spec {name : Option ObjName} {otype : Int}
    {parentOid procOid : ObjId} {wakeupTs : Timestamp} :
    ∀ fuel, Keeps (Outside u)
      (searchinfoWaitUntil env name otype parentOid procOid wakeupTs fuel)
  | 0 => Triple.diverge
  | fuel + 1 => by
      refine Triple.bind objmetaLock_spec fun _ => ?_
      refine Triple.bind searchinfoNolock_keeps fun ⟨ret, _⟩ => ?_
      refine Triple.ite (fun _ => ?_) fun _ => .bind objmetaUnlock_spec fun _ => Keeps.pure
      refine Triple.bind waitMetanotify_spec fun timedOut => ?_
      refine Triple.ite (fun _ => ?_) fun _ => searchinfoWaitUntil_spec fuel
      exact .bind objmetaUnlock_again fun _ => Keeps.pure

theorem searchinfoWaitnextUntil_spec {name : Option ObjName} {otype : Int}
    {parentOid procOid : ObjId} {wakeupTs : Timestamp} :
    ∀ fuel lists newidlist, Keeps (Outside u)
      (searchinfoWaitnextUntil env name otype parentOid procOid wakeupTs fuel lists newidlist)
  | 0, _, _ => Triple.diverge
  | fuel + 1, lists, newidlist => by
      refine Triple.bind objmetaLock_spec fun _ => ?_
      refine Triple.bind searchinfoNolock_keeps fun ⟨ret, out⟩ => ?_
      dsimp only
      split
      · exact .bind objmetaUnlock_spec fun _ => Keeps.pure
      · refine Triple.ite (fun _ => ?_) fun _ => .bind objmetaUnlock_spec fun _ => Keeps.pure
        refine Triple.bind waitMetanotify_spec fun timedOut => ?_
        refine Triple.ite (fun _ => .bind objmetaUnlock_again fun _ => Keeps.pure) fun _ => ?_
        exact searchinfoWaitnextUntil_spec fuel _ _

/-! ## Purging and deleting -/

theorem purgeslot_keeps {slot : Nat} : Keeps (Inside u) (purgeslot slot) :=
  .bind readDb_keeps fun _ => .bind (.when fun _ => memFree_keeps) fun _ =>
    .bind writeDb_keeps fun _ => writeDb_keeps

theorem purgeObjs_spec [Rounding] : Keeps (Outside u) (purgeObjs env) := by
  refine Triple.bind readDb_keeps fun _ => Triple.bind timestampNow_outside fun ts => ?_
  refine Triple.bind objmetaLock_spec fun _ => ?_
  refine Triple.bind (Keeps.forM fun i _ => ?_) fun _ =>
    .bind objmetaUnlock_spec fun _ => Keeps.pure
  refine Keeps.bind readDb_keeps fun db => Keeps.when fun _ => ?_
  refine Triple.bind purgeslot_keeps fun _ => ?_
  exact Triple.bind objmetaUnlock_spec fun _ => objmetaLock_spec

theorem findChildren_keeps {P : World → Prop} {oid : ObjId} : Keeps P (findChildren env oid) :=
  Keeps.bind searchinfoNolock_keeps fun ⟨err, _⟩ => by cases err <;> exact .pure

theorem deleteLocked_spec {metadata : ObjInfo} {immediatelyDelete : Bool} :
    Keeps (Outside u) (deleteLocked env h metadata immediatelyDelete) := by
  refine Triple.bind objmetaLock_spec fun _ => Triple.bind readDb_keeps fun db => ?_
  have hend {r : Result × ObjInfo × List ObjId} :
      Triple (Inside u) (objmetaUnlock >>= fun _ => pure r) fun _ => Outside u :=
    .bind objmetaUnlock_spec fun _ => Keeps.pure
  cases db.findmetaById metadata.oid with
  | none => exact hend
  | some i =>
      refine Triple.ite (fun _ => hend) fun _ => Triple.ite (fun _ => hend) fun _ => ?_
      refine Triple.bind findChildren_keeps fun _ => Triple.bind timestampNow_keeps fun _ => ?_
      refine Triple.bind writeDb_keeps fun _ => ?_
      exact .bind (Keeps.when fun _ => purgeslot_keeps) fun _ => hend

theorem deleteImm_spec :
    ∀ fuel metadata immediatelyDelete,
      Keeps (Outside u) (deleteImm env h fuel metadata immediatelyDelete)
  | 0, _, _ => Triple.diverge
  | fuel + 1, metadata, immediatelyDelete => by
      refine Keeps.bind deleteLocked_spec fun ⟨ret, metadata, children⟩ => ?_
      cases ret with
      | error e => exact .pure
      | ok _ =>
          refine Keeps.bind (Keeps.forM fun oid _ => ?_) fun _ => .pure
          refine Keeps.bind readinfo_spec fun ⟨err, childObjmeta⟩ => ?_
          cases err with
          | error e => exact .pure
          | ok _ => exact Keeps.ite (.bind (deleteImm_spec fuel _ _) fun _ => .pure) .pure

/-! ## Inserting -/

@[simp] theorem afterAlloc_unguarded {size : Int} {w : World} :
    (w.afterAlloc env size).unguarded = w.unguarded := by
  unfold World.afterAlloc
  repeat' split
  all_goals rfl

@[simp] theorem release_unguarded {idx : Int} {m : ObjInfo} {w : World} :
    (w.release idx m).unguarded = w.unguarded := by
  unfold World.release
  split <;> rfl

@[simp] theorem release_held {idx : Int} {m : ObjInfo} {w : World} :
    (w.release idx m).held = w.held := by
  unfold World.release
  split <;> rfl

variable {ts : Timestamp} {m m' : ObjInfo} {w w₁ w' : World} {foundSlot : Option Nat}
  {newIdx : Int} {r : Result × ObjInfo}

/-- The uniqueness check follows the search for a slot with the lock held. -/
theorem inside_of_slotSearch [Rounding] (hs : SlotSearch env h ts m w foundSlot newIdx m' w₁)
    (hw : Inside u w) : Inside u w₁ := by
  cases hs with
  | reuse hi => exact hw
  | dataless hnone hsize hi => exact write_inside hw
  | noSlotDataless hnone hsize hi => exact hw
  | noBlock hnone hsize hidx halloc => exact lock_inside (by simpa [World.unlock] using hw.2)
  | block hnone hsize hpos halloc hidx hw₁ hi =>
      subst hw₁
      exact write_inside (lock_inside hw.2)
  | noSlot hnone hsize hpos halloc hidx hw₁ hi =>
      subst hw₁
      exact lock_inside hw.2

theorem held_of_finish (hf : Finish newIdx m w foundSlot r w') (hw : Inside u w) :
    w'.unguarded = u ∧
      (w'.held = true ↔ foundSlot = none ∧ w.db.notUniq m = false) := by
  cases hf with
  | notUniq hu => simp [World.unlock, hw.2, hu]
  | noSlot hu => simp [hw.1, hw.2, hu]
  | @noOid i hu hoid =>
      have hin := write_inside (f := (·.setMeta i m)) hw
      simpa [World.unlock, World.oidTaken] using hin.2
  | @entered i oid hu hoid hpos =>
      have hin : Inside u (w.write (·.setMeta i m)).oidTaken :=
        write_inside (f := (·.setMeta i m)) hw
      simpa [World.unlock] using (write_inside hin).2

/-- No slot is left for the object, neither one to reuse nor a free one with a block
for its data, and nothing else stands in its way. `w` is the world when the lock is
granted first; it is granted a second time after the allocation. -/
def NoSlotLeft [Rounding] (env : Env) (h : Handle) (ts : Timestamp) (m : ObjInfo)
    (w : World) : Prop :=
  let second := (w.unlock.afterAlloc env m.blockSize).lock env
  findReusable w.db h m ts = none ∧
    if m.sizeMax = 0 then w.db.findmetaById 0 = none ∧ w.db.notUniq m = false
    else (allocFails env w.heapLog m.blockSize ∨ second.db.findmetaById 0 = none) ∧
      second.db.notUniq m = false

instance [Rounding] : Decidable (NoSlotLeft env h ts m w) := by
  unfold NoSlotLeft
  infer_instance

theorem clash_bufferIdx (db : Db) (m : ObjInfo) (idx : Int) :
    ∀ l, clash db { m with bufferIdx := idx } l = clash db m l
  | [] => rfl
  | i :: is => by simp only [clash, clash_bufferIdx db m idx is]

@[simp] theorem notUniq_bufferIdx (db : Db) (m : ObjInfo) (idx : Int) :
    db.notUniq { m with bufferIdx := idx } = db.notUniq m := clash_bufferIdx db m idx _

theorem slotSearch_none_iff [Rounding] (hs : SlotSearch env h ts m w foundSlot newIdx m' w₁) :
    foundSlot = none ∧ w₁.db.notUniq m' = false ↔ NoSlotLeft env h ts m w := by
  unfold NoSlotLeft
  cases hs with
  | reuse hi => simp [hi]
  | dataless hnone hsize hi => simp [hsize, hi]
  | noSlotDataless hnone hsize hi => simp [hnone, hsize, hi]
  | noBlock hnone hsize hidx halloc => simp [hnone, hsize, halloc]
  | block hnone hsize hpos halloc hidx hw₁ hi =>
      have hfail : ¬ allocFails env w.heapLog m.blockSize := by
        simp [allocFails, halloc, hpos, hidx]
      have hsecond : (w.unlock.afterAlloc env m.blockSize).lock env = _ :=
        congrArg (World.lock env) (afterAlloc_of_some (w := w.unlock) hpos halloc)
      subst hw₁
      simp [hsize, hfail, hsecond, hi]
  | noSlot hnone hsize hpos halloc hidx hw₁ hi =>
      have hsecond : (w.unlock.afterAlloc env m.blockSize).lock env = _ :=
        congrArg (World.lock env) (afterAlloc_of_some (w := w.unlock) hpos halloc)
      subst hw₁
      simp [hnone, hsize, hsecond, hi]

def InsertLosesLock [Rounding] (env : Env) (h : Handle) (metadata : ObjInfo) (w : World) : Prop :=
  metadata.refused = false ∧
    NoSlotLeft env h (env.now w.tick) (initMetadata env h (env.now w.tick) metadata)
      (w.ask.lock env)

theorem insert_spec [Rounding] {metadata : ObjInfo} (hw : Outside u w)
    (hrun : insert env h metadata w = some (r, w')) :
    w'.unguarded = u ∧ (w'.held = true ↔ InsertLosesLock env h metadata w) := by
  unfold InsertLosesLock
  rcases insert_some hrun with ⟨href, rfl, rfl⟩ | ⟨href, foundSlot, newIdx, m', w₁, hs, hf⟩
  · exact ⟨hw.2, by simp [World.ask, hw.1, href]⟩
  · have hin := inside_of_slotSearch hs (lock_inside hw.2)
    obtain ⟨hug, hheld⟩ := held_of_finish hf hin
    exact ⟨hug, by rw [hheld, slotSearch_none_iff hs]; simp [href]⟩

/-! ## Every call -/

/-- A call of one of the functions on the metadata table. -/
inductive MetaCall where
  | insert (h : Handle) (metadata : ObjInfo)
  | deleteImm (h : Handle) (fuel : Nat) (metadata : ObjInfo) (immediatelyDelete : Bool)
  | readinfo (id : ObjId) (ts : Timestamp) (metadata : ObjInfo)
  | searchinfo (name : Option ObjName) (otype : Int) (parentOid procOid : ObjId)
      (ts : Timestamp) (idlist : Option IdList) (nth : Int) (includedeleted : Bool)
  | changeinfo (h : Handle) (oid : ObjId) (metadata : ObjInfo)
  | purgeObjs
  | searchinfoWaitUntil (name : Option ObjName) (otype : Int) (parentOid procOid : ObjId)
      (wakeupTs : Timestamp) (fuel : Nat)
  | searchinfoWaitnextUntil (name : Option ObjName) (otype : Int) (parentOid procOid : ObjId)
      (wakeupTs : Timestamp) (fuel : Nat) (lists : IdLists)

def MetaCall.run [Rounding] (env : Env) : MetaCall → Call PUnit
  | .insert h metadata => do
      let _ ← KogmoRtdb.insert env h metadata
  | .deleteImm h fuel metadata immediatelyDelete => do
      let _ ← KogmoRtdb.deleteImm env h fuel metadata immediatelyDelete
  | .readinfo id ts metadata => do
      let _ ← KogmoRtdb.readinfo env id ts metadata
  | .searchinfo name otype parentOid procOid ts idlist nth includedeleted => do
      let _ ← searchinfoMode env name otype parentOid procOid ts idlist nth false includedeleted
  | .changeinfo h oid metadata => do
      let _ ← KogmoRtdb.changeinfo env h oid metadata
  | .purgeObjs => do
      let _ ← KogmoRtdb.purgeObjs env
  | .searchinfoWaitUntil name otype parentOid procOid wakeupTs fuel => do
      let _ ← KogmoRtdb.searchinfoWaitUntil env name otype parentOid procOid wakeupTs fuel
  | .searchinfoWaitnextUntil name otype parentOid procOid wakeupTs fuel lists => do
      let _ ← KogmoRtdb.searchinfoWaitnextUntil env name otype parentOid procOid wakeupTs fuel
        lists env.uninit

def MetaCall.LosesLock [Rounding] (env : Env) (w : World) : MetaCall → Prop
  | .insert h metadata => InsertLosesLock env h metadata w
  | _ => False

/-- The caller has released the lock, and no write to the table was made without
it. -/
def Disciplined (w w' : World) : Prop := w'.held = false ∧ w'.unguarded = w.unguarded

theorem disciplined_of_keeps [Rounding] {call : MetaCall} (hw : w.held = false)
    (hk : Keeps (Outside w.unguarded) (call.run env))
    (hrun : call.run env w = some (⟨⟩, w')) : Disciplined w w' := hk w _ w' ⟨hw, rfl⟩ hrun

/-- Lock discipline: a call that starts without `objmeta_lock` returns without it and
writes to the table under it only, for every table, all arguments and all that
other processes do meanwhile, if and only if it is not an insert for which no slot
is left. -/
theorem disciplined_iff [Rounding] {call : MetaCall} (hw : w.held = false)
    (hrun : call.run env w = some (⟨⟩, w')) : Disciplined w w' ↔ ¬ call.LosesLock env w := by
  cases call with
  | insert h metadata =>
      obtain ⟨r, w₁, hins, hend⟩ := bind_some.mp hrun
      obtain ⟨-, rfl⟩ := pure_some.mp hend
      obtain ⟨hug, hheld⟩ := insert_spec (u := w.unguarded) ⟨hw, rfl⟩ hins
      rw [MetaCall.LosesLock, ← hheld, Disciplined, Bool.not_eq_true]
      exact ⟨fun hd => hd.1, fun hfree => ⟨hfree, hug⟩⟩
  | deleteImm h fuel metadata immediatelyDelete =>
      exact iff_of_true
        (disciplined_of_keeps hw (.bind (deleteImm_spec fuel _ _) fun _ => .pure) hrun) not_false
  | readinfo id ts metadata =>
      exact iff_of_true
        (disciplined_of_keeps hw (.bind readinfo_spec fun _ => .pure) hrun) not_false
  | searchinfo name otype parentOid procOid ts idlist nth includedeleted =>
      exact iff_of_true
        (disciplined_of_keeps hw (.bind searchinfoMode_spec fun _ => .pure) hrun) not_false
  | changeinfo h oid metadata =>
      exact iff_of_true
        (disciplined_of_keeps hw (.bind changeinfo_spec fun _ => .pure) hrun) not_false
  | purgeObjs =>
      exact iff_of_true
        (disciplined_of_keeps hw (.bind purgeObjs_spec fun _ => .pure) hrun) not_false
  | searchinfoWaitUntil name otype parentOid procOid wakeupTs fuel =>
      exact iff_of_true
        (disciplined_of_keeps hw (.bind (searchinfoWaitUntil_spec _) fun _ => .pure) hrun)
        not_false
  | searchinfoWaitnextUntil name otype parentOid procOid wakeupTs fuel lists =>
      exact iff_of_true
        (disciplined_of_keeps hw (.bind (searchinfoWaitnextUntil_spec _ _ _) fun _ => .pure)
          hrun) not_false

/-- Inserting an object into the initial database, with room for its block. -/
theorem disciplined_insert :
    ∃ w', (MetaCall.insert aProcess anObject).run (exampleEnv 4096)
        (World.initial (exampleEnv 4096) 4096) = some (⟨⟩, w') ∧
      Disciplined (World.initial (exampleEnv 4096) 4096) w' := by
  have hret : ((MetaCall.insert aProcess anObject).run (exampleEnv 4096)
      (World.initial (exampleEnv 4096) 4096)).isSome = true := by decide +kernel
  obtain ⟨⟨_, w'⟩, hrun⟩ := Option.isSome_iff_exists.mp hret
  refine ⟨w', hrun, (disciplined_iff (by decide) hrun).mpr ?_⟩
  unfold MetaCall.LosesLock InsertLosesLock
  decide +kernel

/-- With too little memory for its block the insert returns with the lock held. -/
theorem exists_not_disciplined :
    ∃ w', (MetaCall.insert aProcess aBigObject).run (exampleEnv 4096)
        (World.initial (exampleEnv 4096) 4096) = some (⟨⟩, w') ∧
      ¬ Disciplined (World.initial (exampleEnv 4096) 4096) w' := by
  have hret : (((MetaCall.insert aProcess aBigObject).run (exampleEnv 4096)
      (World.initial (exampleEnv 4096) 4096)).any fun r => r.2.held) = true := by
    decide +kernel
  obtain ⟨⟨_, w'⟩, hrun, hheld⟩ := (Option.any_eq_true _ _).mp hret
  refine ⟨w', hrun, fun hd => ?_⟩
  rw [hd.1] at hheld
  cases hheld

end KogmoRtdb.LockDiscipline
