import Mathlib.Logic.Relation
import KogmoRtdb.Meta.Delete
import KogmoRtdb.Meta.InsertExits

/-!
# What the calls do to the table

With each call atomic, `delete`, `purge_objs` and `changeinfo` change the table and the
heap's history by a few kinds of `Effect`, and however deep a delete recurses
it is a path of these. An invariant of the table is proved for the effects and
for the ways an insert ends, once each.
-/

namespace KogmoRtdb

open Prog

/-- The environment of an atomic call: other processes do nothing meanwhile. -/
def Env.atomic (env : Env) : Env := { env with others := fun _ db => db }

/-- The world after `kogmo_rtdb_obj_purgeslot`. -/
def World.purged (i : Nat) (w : World) : World :=
  ((w.release (w.db.objmeta i).bufferIdx (w.db.objmeta i)).write fun db =>
    db.setMeta i { db.objmeta i with oid := 0 }).write (·.addFree 1)

@[simp] theorem release_objmeta (idx : Int) (m : ObjInfo) (w : World) :
    (w.release idx m).db.objmeta = w.db.objmeta := by
  unfold World.release
  split <;> rfl

@[simp] theorem release_heap (idx : Int) (m : ObjInfo) (w : World) :
    (w.release idx m).db.heap = w.db.heap := by
  unfold World.release
  split <;> rfl

theorem release_zero (m : ObjInfo) (w : World) : w.release 0 m = w := rfl

theorem release_heapLog {idx : Int} (m : ObjInfo) (w : World) (h : idx ≠ 0) :
    (w.release idx m).heapLog = .free ⟨idx, m.blockSize⟩ :: w.heapLog := by
  rw [World.release, if_pos h]
  rfl

theorem purged_objmeta (i : Nat) (w : World) :
    (w.purged i).db.objmeta =
      Function.update w.db.objmeta i { w.db.objmeta i with oid := 0 } := by
  unfold World.purged World.release
  split <;> rfl

theorem purged_heap (i : Nat) (w : World) : (w.purged i).db.heap = w.db.heap := by
  unfold World.purged World.release
  split <;> rfl

theorem purged_tick (i : Nat) (w : World) : (w.purged i).tick = w.tick := by
  unfold World.purged World.release
  split <;> rfl

theorem purged_heapLog (i : Nat) (w : World) :
    (w.purged i).heapLog = (w.release (w.db.objmeta i).bufferIdx (w.db.objmeta i)).heapLog :=
  rfl

inductive Effect (env : Env) (w : World) : World → Prop where
  | idle {w' : World} (hdb : w'.db = w.db) (hlog : w'.heapLog = w.heapLog) : Effect env w w'
  | mark {i k : Nat} {proc : ObjId} (hocc : (w.db.objmeta i).oid ≠ 0) :
      Effect env w (w.write fun db =>
        db.setMeta i { db.objmeta i with deletedProc := proc, deletedTs := env.now k })
  | purge {i : Nat} (hocc : (w.db.objmeta i).oid ≠ 0) : Effect env w (w.purged i)
  | change {i : Nat} {metadata : ObjInfo} :
      Effect env w (w.write fun db => db.setMeta i ((db.objmeta i).change metadata))

def Steps (env : Env) (w₀ : World) : World → Prop := Relation.ReflTransGen (Effect env) w₀

variable {env : Env} {h : Handle} {w₀ : World} {P : World → Prop} {known : Prop}
  {imm : ObjId → Prop}

theorem Steps.refl {w : World} : Steps env w w := Relation.ReflTransGen.refl

theorem Steps.effect {w₀ w w' : World} (h : Steps env w₀ w) (he : Effect env w w') :
    Steps env w₀ w' :=
  Relation.ReflTransGen.tail h he

theorem Steps.invariant {I : World → Prop} (hI : ∀ w w', I w → Effect env w w' → I w')
    {w₀ w : World} (h : Steps env w₀ w) (h₀ : I w₀) : I w := by
  unfold Steps at h
  induction h with
  | refl => exact h₀
  | tail _ he ih => exact hI _ _ ih he

/-- The object may be taken out at once: by its flag, or because it is one of those that are
deleted with the option. -/
def ObjInfo.Immediate (imm : ObjId → Prop) (info : ObjInfo) : Prop :=
  info.flags.immediatelyDelete = true ∨ imm info.oid

/-- At some reading of the clock so far it was time to purge the slot. -/
def World.Due [Rounding] (env : Env) (w : World) (i : Nat) : Prop :=
  ∃ k < w.tick, ∃ purgeKeepAlloc,
    w.db.purgeDue (w.db.objmeta i) purgeKeepAlloc (env.now k) = true

/-- What deletes and purges do keeps `P`, with the times they look at; `imm` are the objects that
are deleted with the immediate option. -/
structure KeepsTimed [Rounding] (env : Env) (known : Prop) (imm : ObjId → Prop) (P : World → Prop) :
    Prop where
  idle : ∀ w w', P w → w'.db = w.db → w'.heapLog = w.heapLog → w.tick ≤ w'.tick → P w'
  mark : ∀ w i k proc, P w → (known → (w.db.objmeta i).oid ≠ 0) →
    (w.db.objmeta i).deletedTs = 0 ∨ (w.db.objmeta i).Immediate imm →
    P (w.write fun db =>
      db.setMeta i { db.objmeta i with deletedProc := proc, deletedTs := env.now k })
  purge : ∀ w i, P w → (known → (w.db.objmeta i).oid ≠ 0) →
    (w.db.objmeta i).Immediate imm ∨ w.Due env i → P (w.purged i)

/-- What deletes and purges do keeps `P`. -/
structure KeepsEffects (env : Env) (known : Prop) (P : World → Prop) : Prop where
  idle : ∀ w w', P w → w'.db = w.db → w'.heapLog = w.heapLog → P w'
  mark : ∀ w i k proc, P w → (known → (w.db.objmeta i).oid ≠ 0) →
    P (w.write fun db =>
      db.setMeta i { db.objmeta i with deletedProc := proc, deletedTs := env.now k })
  purge : ∀ w i, P w → (known → (w.db.objmeta i).oid ≠ 0) → P (w.purged i)

theorem KeepsEffects.timed [Rounding] (hP : KeepsEffects env known P) (imm : ObjId → Prop) :
    KeepsTimed env known imm P where
  idle w w' hw hdb hlog _ := hP.idle w w' hw hdb hlog
  mark w i k proc hw hocc _ := hP.mark w i k proc hw hocc
  purge w i hw hocc _ := hP.purge w i hw hocc

/-- The change that `changeinfo` makes to `db` keeps `P`. -/
def KeepsChange (P : World → Prop) (db : Db) (h : Handle) (oid : ObjId) (metadata : ObjInfo) :
    Prop :=
  ∀ w i, P w → w.db = db → h.admin = true → db.findmetaById oid = some i →
    P (w.write fun db => db.setMeta i ((db.objmeta i).change metadata))

theorem Steps.keepsEffects : KeepsEffects env True (Steps env w₀) where
  idle _ _ hw hdb hlog := hw.effect (.idle hdb hlog)
  mark _ _ _ _ hw hocc := hw.effect (.mark (hocc trivial))
  purge _ _ hw hocc := hw.effect (.purge (hocc trivial))

theorem Steps.keepsChange {db : Db} {oid : ObjId} {metadata : ObjInfo} :
    KeepsChange (Steps env w₀) db h oid metadata := fun _ _ hw _ _ _ => hw.effect .change

/-! ## The primitive calls -/

theorem atomic_lock_db (w : World) : (w.lock env.atomic).db = w.db := by
  unfold World.lock
  split <;> rfl

theorem atomic_lock_heapLog (w : World) : (w.lock env.atomic).heapLog = w.heapLog := by
  unfold World.lock
  split <;> rfl

theorem le_tick_lock (w : World) : w.tick ≤ (w.lock env).tick := by
  unfold World.lock
  split
  · exact Nat.le_refl _
  · exact Nat.le_succ _

theorem readDb_spec : Triple P readDb fun db w => P w ∧ w.db = db := by
  intro w db w' hw hrun
  cases hrun
  exact ⟨hw, rfl⟩

theorem purgeslot_some {i : Nat} {w w' : World} {u : PUnit}
    (hrun : purgeslot i w = some (u, w')) : w' = w.purged i := by
  obtain ⟨db, _, hdb, hrun⟩ := bind_some.mp hrun
  cases hdb
  obtain ⟨_, w₁, hfree, hrun⟩ := bind_some.mp hrun
  obtain rfl := release_some hfree
  cases hrun
  rfl

namespace KeepsTimed

/-- Locks, unlocks and looks at the clock change nothing. -/
theorem lock [Rounding] (hP : KeepsTimed env known imm P) {db : Db} :
    Keeps (fun w => P w ∧ w.db = db) (objmetaLock env.atomic) := by
  intro w _ w' hw hrun
  cases hrun
  have hdb : (w.lock env.atomic).db = w.db := atomic_lock_db w
  exact ⟨hP.idle w _ hw.1 hdb (atomic_lock_heapLog w) (le_tick_lock w), hdb.trans hw.2⟩

theorem lock_any [Rounding] (hP : KeepsTimed env known imm P) : Keeps P (objmetaLock env.atomic) :=
  fun w a w' hw hrun => (hP.lock w a w' ⟨hw, rfl⟩ hrun).1

theorem unlock [Rounding] (hP : KeepsTimed env known imm P) : Keeps P objmetaUnlock := by
  intro w _ w' hw hrun
  cases hrun
  exact hP.idle w _ hw rfl rfl (Nat.le_refl _)

/-- The time is a reading of the clock that is over then. -/
theorem timestampNow [Rounding] (hP : KeepsTimed env known imm P) {db : Db} :
    Triple (fun w => P w ∧ w.db = db) (KogmoRtdb.timestampNow env.atomic) fun ts w =>
      (P w ∧ w.db = db) ∧ ∃ k < w.tick, ts = env.now k := by
  intro w ts w' hw hrun
  cases hrun
  exact ⟨⟨hP.idle w _ hw.1 rfl rfl (Nat.le_succ _), hw.2⟩, w.tick, Nat.lt_succ_self _, rfl⟩

theorem purgeslot [Rounding] (hP : KeepsTimed env known imm P) {i : Nat} :
    Triple (fun w => P w ∧ (known → (w.db.objmeta i).oid ≠ 0) ∧
      ((w.db.objmeta i).Immediate imm ∨ w.Due env i)) (KogmoRtdb.purgeslot i) fun _ => P := by
  intro w _ w' hw hrun
  obtain rfl := purgeslot_some hrun
  exact hP.purge w i hw.1 hw.2.1 hw.2.2

theorem unlock_pure [Rounding] (hP : KeepsTimed env known imm P) {α : Type} {a : α} :
    Keeps P (objmetaUnlock >>= fun _ => (pure a : Call α)) :=
  .bind hP.unlock fun _ => .pure

theorem after [Rounding] (hP : KeepsTimed env known imm P) (k : Nat) :
    KeepsTimed env known imm fun w => P w ∧ k < w.tick where
  idle w w' hw hdb hlog htick :=
    ⟨hP.idle w w' hw.1 hdb hlog htick, Nat.lt_of_lt_of_le hw.2 htick⟩
  mark w i k' proc hw hocc himm := ⟨hP.mark w i k' proc hw.1 hocc himm, hw.2⟩
  purge w i hw hocc hdue := ⟨hP.purge w i hw.1 hocc hdue, (purged_tick i w).symm ▸ hw.2⟩

end KeepsTimed

/-! ## `purge_objs` and `changeinfo` -/

theorem oid_of_purgeDue [Rounding] {db : Db} {info : ObjInfo} {purgeKeepAlloc : Bool}
    {ts : Timestamp} (hdue : db.purgeDue info purgeKeepAlloc ts = true) : info.oid ≠ 0 := by
  simp only [Db.purgeDue, Bool.and_eq_true, decide_eq_true_eq] at hdue
  exact hdue.1.1.1

namespace KeepsTimed

/-- The loop of `purge_objs`, with a time that is over. -/
theorem purgeObjsBody [Rounding] (hP : KeepsTimed env known imm P) (purgeKeepAlloc : Bool)
    (k i : Nat) : Keeps (fun w => P w ∧ k < w.tick)
      (KogmoRtdb.purgeObjsBody env.atomic purgeKeepAlloc (env.now k) i) := by
  have hPk := hP.after k
  refine Triple.bind readDb_spec fun db => Triple.ite (fun hdue => ?_) fun _ => ?_
  · refine Triple.bind (R := fun _ w => P w ∧ k < w.tick) ?_ fun _ =>
      Triple.bind hPk.unlock fun _ => hPk.lock_any
    refine Triple.conseq hPk.purgeslot (fun w hw => ⟨hw.1, fun _ => ?_, Or.inr ?_⟩)
      fun _ _ hw => hw
    · rw [hw.2]
      exact oid_of_purgeDue hdue
    · rw [← hw.2] at hdue
      exact ⟨k, hw.1.2, purgeKeepAlloc, hdue⟩
  · exact Triple.pure fun w hw => hw.1

theorem purgeObjs [Rounding] (hP : KeepsTimed env known imm P) : Keeps P
    (KogmoRtdb.purgeObjs env.atomic) := by
  refine Triple.bind readDb_spec fun db => Triple.bind hP.timestampNow fun ts => ?_
  rintro w r w' ⟨hw, k, hk, rfl⟩
  refine (?_ : Triple (fun w => (P w ∧ k < w.tick) ∧ w.db = db) _ fun _ => P) w r w'
    ⟨⟨hw.1, hk⟩, hw.2⟩
  refine Triple.bind (hP.after k).lock fun _ => ?_
  refine Triple.bind (R := fun _ => P) ?_ fun _ => hP.unlock_pure
  exact Triple.conseq (Keeps.forM fun i _ => hP.purgeObjsBody _ k i) (fun w hw => hw.1)
    fun _ _ hw => hw.1

theorem changeinfo [Rounding] (hP : KeepsTimed env known imm P) {db : Db} {oid : ObjId}
    {metadata : ObjInfo} (hchange : KeepsChange P db h oid metadata) :
    Triple (fun w => P w ∧ w.db = db) (KogmoRtdb.changeinfo env.atomic h oid metadata)
      fun _ => P := by
  have hweak {c : Call Result} (hc : Keeps P c) :
      Triple (fun w => P w ∧ w.db = db) c fun _ => P :=
    hc.conseq (fun w hw => hw.1) fun _ _ hq => hq
  refine Triple.ite (fun hadmin => ?_) fun _ => hweak .pure
  refine Triple.bind (hP.timestampNow.conseq (fun _ hw => hw) fun _ _ hw => hw.1) fun _ =>
    Triple.bind (hP.lock) fun _ => ?_
  refine Triple.bind (R := fun db' w => (P w ∧ w.db = db) ∧ w.db = db') readDb_spec fun db' => ?_
  rintro w r w' ⟨hw, rfl⟩ hrun
  cases hi : w.db.findmetaById oid with
  | none =>
      rw [hi] at hrun
      exact hweak hP.unlock_pure w r w' hw hrun
  | some i =>
      rw [hi] at hrun
      obtain ⟨_, w₁, hwrite, hrun⟩ := bind_some.mp hrun
      cases hwrite
      have hw₁ := hchange w i hw.1 hw.2 hadmin (hw.2 ▸ hi)
      have hend : Triple P (objmetaUnlock >>= fun _ => readDb >>= fun db =>
          (pure (.ok (db.objmeta i).oid) : Call Result)) fun _ => P :=
        .bind hP.unlock fun _ => .bind readDb_spec fun _ => .pure fun w hw => hw.1
      exact hend _ r w' hw₁ hrun

end KeepsTimed

/-! ## Deleting -/

theorem readinfo_spec {P : World → Prop}
    (hP : ∀ w w', P w → w'.db = w.db → w'.heapLog = w.heapLog → w.tick ≤ w'.tick → P w')
    {id : ObjId} {ts : Timestamp} {metadata : ObjInfo} :
    Triple P (readinfo env.atomic id ts metadata) fun r w =>
      P w ∧ ∀ n, r.1 = .ok n → r.2.oid = id ∧ ∃ i, r.2 = w.db.objmeta i := by
  have hend {db : Db} {r : Result × ObjInfo}
      (hr : ∀ n, r.1 = .ok n → r.2.oid = id ∧ ∃ i, r.2 = db.objmeta i) :
      Triple (fun w => P w ∧ w.db = db) (objmetaUnlock >>= fun _ => pure r) fun r w =>
        P w ∧ ∀ n, r.1 = .ok n → r.2.oid = id ∧ ∃ i, r.2 = w.db.objmeta i := by
    rintro w _ w' ⟨hw, rfl⟩ hrun
    cases hrun
    exact ⟨hP _ _ hw rfl rfl (Nat.le_refl _), hr⟩
  refine Triple.bind (R := fun _ => P) ?_ fun _ => Triple.bind readDb_spec fun db => ?_
  · intro w _ w' hw hrun
    cases hrun
    exact hP _ _ hw (atomic_lock_db w) (atomic_lock_heapLog w) (le_tick_lock w)
  · cases hi : db.findmetaById id with
    | none => exact hend fun _ hr => by cases hr
    | some i =>
        refine Triple.ite (fun _ => hend fun _ hr => by cases hr) fun _ => hend fun _ _ => ?_
        exact ⟨(Db.findmetaById_some hi).2, i, rfl⟩

theorem findChildren_spec {P : World → Prop} {oid : ObjId} :
    Triple P (findChildren env.atomic oid) fun children w =>
      P w ∧ ∀ c ∈ children, c ≠ 0 := by
  refine Triple.bind (R := fun _ => P) ?_ fun ⟨err, childObjlist⟩ => ?_
  · intro w r w' hw hrun
    rwa [searchinfoNolock_some hrun]
  · cases err with
    | error e => exact Triple.pure fun w hw => ⟨hw, fun _ hc => by cases hc⟩
    | ok n => exact Triple.pure fun w hw => ⟨hw, fun _ hc => IdList.ne_zero_of_mem_entries hc⟩

namespace KeepsTimed

theorem deleteLocked [Rounding] (hP : KeepsTimed env known imm P) {metadata : ObjInfo}
    {immediatelyDelete : Bool} (hoid : known → metadata.oid ≠ 0)
    (himm : immediatelyDelete = true → imm metadata.oid) :
    Triple P (KogmoRtdb.deleteLocked env.atomic h metadata immediatelyDelete) fun r w =>
      P w ∧ ∀ c ∈ r.2.2, c ≠ 0 := by
  have hend {r : Result × ObjInfo × List ObjId} (hr : ∀ c ∈ r.2.2, c ≠ 0) :
      Triple P (objmetaUnlock >>= fun _ => pure r) fun r w => P w ∧ ∀ c ∈ r.2.2, c ≠ 0 :=
    .bind hP.unlock fun _ => Triple.pure fun w hw => ⟨hw, hr⟩
  have hno : ∀ c ∈ ([] : List ObjId), c ≠ 0 := fun _ hc => by cases hc
  refine Triple.bind hP.lock_any fun _ => Triple.bind readDb_spec fun db => ?_
  have hweak {c : Call (Result × ObjInfo × List ObjId)} {Q : Result × ObjInfo × List ObjId →
      World → Prop} (hc : Triple P c Q) : Triple (fun w => P w ∧ w.db = db) c Q :=
    hc.conseq (fun w hw => hw.1) fun _ _ hq => hq
  cases hi : db.findmetaById metadata.oid with
  | none => exact hweak (hend hno)
  | some i =>
      have hfound := (Db.findmetaById_some hi).2
      have hocc : known → (db.objmeta i).oid ≠ 0 := by rwa [hfound]
      refine Triple.ite (fun _ => hweak (hend hno)) fun _ =>
        Triple.ite (fun _ => hweak (hend hno)) fun hlive => ?_
      -- a second delete needs the flag or the option
      have hmark : (db.objmeta i).deletedTs = 0 ∨ (db.objmeta i).Immediate imm := by
        by_cases hts : (db.objmeta i).deletedTs = 0
        · exact Or.inl hts
        · cases hflag : (db.objmeta i).flags.immediatelyDelete with
          | true => exact Or.inr (Or.inl hflag)
          | false =>
              cases hdel : immediatelyDelete with
              | true => exact Or.inr (Or.inr (hfound ▸ himm hdel))
              | false => exact absurd ⟨hts, by rw [hflag]; rfl, by rw [hdel]; rfl⟩ hlive
      refine Triple.bind findChildren_spec fun children => ?_
      by_cases hchildren : ∀ c ∈ children, c ≠ 0
      · refine Triple.bind (R := fun ts w => (P w ∧ w.db = db) ∧ ∃ k < w.tick, ts = env.now k)
          (hP.timestampNow.conseq (fun _ hw => hw.1) fun _ _ hw => hw) fun ts => ?_
        refine Triple.bind (R := fun _ w => P w ∧ w.db.objmeta i =
          { db.objmeta i with deletedProc := h.procOid, deletedTs := ts }) ?_ fun _ => ?_
        · rintro w _ w' ⟨⟨hw, rfl⟩, k, -, rfl⟩ hrun
          cases hrun
          exact ⟨hP.mark w i k h.procOid hw hocc hmark, by simp [World.write]⟩
        · refine Triple.bind (R := fun _ => P) (Triple.ite (fun hdel => ?_)
            fun _ => Triple.pure fun w hw => hw.1) fun _ => hend hchildren
          refine Triple.conseq hP.purgeslot (fun w hw => ?_) fun _ _ hw => hw
          rw [hw.2]
          refine ⟨hw.1, hocc, Or.inl ?_⟩
          rcases Bool.or_eq_true_iff.mp hdel with hflag | hdel
          · exact Or.inl hflag
          · exact Or.inr (hfound ▸ himm hdel)
      · intro w _ _ hw
        exact absurd hw.2 hchildren

theorem deleteImm [Rounding] (hP : KeepsTimed env known imm P) :
    ∀ fuel {metadata : ObjInfo} {immediatelyDelete : Bool}, (known → metadata.oid ≠ 0) →
      (immediatelyDelete = true → imm metadata.oid) →
      Keeps P (KogmoRtdb.deleteImm env.atomic h fuel metadata immediatelyDelete)
  | 0, _, _, _, _ => Triple.diverge
  | fuel + 1, metadata, immediatelyDelete, hoid, himm => by
      refine Triple.bind (hP.deleteLocked hoid himm) fun ⟨ret, metadata, children⟩ => ?_
      intro w r w' hw
      refine (?_ : Keeps P _) w r w' hw.1
      cases ret with
      | error e => exact .pure
      | ok _ =>
          refine Keeps.bind (Keeps.forM fun oid hmem => ?_) fun _ => .pure
          refine Triple.bind (readinfo_spec hP.idle) fun ⟨err, childObjmeta⟩ => ?_
          intro w r w' hchild
          refine (?_ : Keeps P _) w r w' hchild.1
          cases err with
          | error e => exact .pure
          | ok n =>
              have hchildOid : known → childObjmeta.oid ≠ 0 := by
                intro _
                rw [(hchild.2 n rfl).1]
                exact hw.2 oid hmem
              -- children are not deleted with the option
              exact Keeps.ite (.bind (hP.deleteImm fuel hchildOid fun h => by cases h)
                fun _ => .pure) .pure

end KeepsTimed

/-! ## Whatever the times -/

namespace KeepsEffects

theorem purgeObjs [Rounding] (hP : KeepsEffects env known P) : Keeps P
    (KogmoRtdb.purgeObjs env.atomic) :=
  (hP.timed fun _ => True).purgeObjs

theorem deleteImm [Rounding] (hP : KeepsEffects env known P) (fuel : Nat) {metadata : ObjInfo}
    {immediatelyDelete : Bool} (hoid : known → metadata.oid ≠ 0) :
    Keeps P (KogmoRtdb.deleteImm env.atomic h fuel metadata immediatelyDelete) :=
  (hP.timed fun _ => True).deleteImm fuel hoid fun _ => trivial

end KeepsEffects

end KogmoRtdb
