import KogmoRtdb.Meta.Cascade
import KogmoRtdb.Procs.PurgeProcs

/-!
# Leaving in order, and not

What `kogmo_rtdb_disconnect` and `kogmo_rtdb_objmeta_purge_procs` do to the objects of a process
when nobody else is at work. Both go through the same list and delete the same objects with what
they take along; but the process itself may take along only what it may delete, and the manager
everything.
-/

namespace KogmoRtdb

open Prog Marking

/-! ## The two ways -/

def cleanupObject (env : Env) (h : Handle) (fuel : Nat) (immediatelyDelete : Bool) (oid : ObjId) :
    Call PUnit := do
  let (err, usedObjmeta) ← readinfo env oid 0 {}
  if err.isOk ∧ usedObjmeta.flags.persistent then return ⟨⟩
  else do
    let _ ← deleteImm env h fuel { usedObjmeta with oid := oid } immediatelyDelete
    return ⟨⟩

/-- `kogmo_rtdb_disconnect` of a client, up to the process's own objects; `procobjmeta` is its
process object. -/
def disconnect (env : Env) (h : Handle) (fuel : Nat) (procobjmeta : ObjInfo)
    (immediatelyDelete : Bool) : Call Result :=
  if procobjmeta.oid ≠ 0 then do
    let (err, objlist) ← searchinfoDeleted env (some []) 0 0 h.procOid 0 (some env.uninit) 0
    match err with
    | .error e => return .error e
    | .ok _ => do
        (objlist.getD env.uninit).entries.forM (cleanupObject env h fuel immediatelyDelete)
        let _ ← deleteImm env h fuel procobjmeta immediatelyDelete
        return .ok 0
  else return .ok 0

/-- What `kogmo_rtdb_objmeta_purge_procs` does for a process that is dead. -/
def purgeProc (env : Env) (fuel : Nat) (slot : ProcSlot) : Call PUnit := do
  let (err, objlist) ← searchinfoDeleted env (some []) 0 0 slot.procOid 0 (some env.uninit) 0
  match err with
  | .error _ => return ⟨⟩
  | .ok _ =>
      (objlist.getD env.uninit).entries.forM
        (cleanupObject env manager fuel slot.immediatelyDelete)

/-- The loop of `kogmo_rtdb_objmeta_purge_procs`; `alive` is the answer of `kill`. -/
def purgeProcs (env : Env) (alive : Int → Bool) (fuel : Nat) :
    List Nat → ProcTable → Call ProcTable
  | [], table => return table
  | i :: is, table =>
      if (table.proc i).procOid ≠ 0 ∧ alive (table.proc i).pid = false then do
        purgeProc env fuel (table.proc i)
        purgeProcs env alive fuel is (table.clear i)
      else purgeProcs env alive fuel is table

/-! ## What is compared -/

def liveObjects (t : Nat → ObjInfo) : Set ObjId := (fun i => (t i).oid) '' liveSlots t

/-- No object of the process is live that is not persistent. -/
def NoneLeft (procOid : ObjId) (t : Nat → ObjInfo) : Prop :=
  ∀ i ∈ liveSlots t, (t i).createdProc = procOid → (t i).flags.persistent = true

/-- The table after an orderly and after a disorderly end agree, and neither keeps what it should
not. -/
structure CleanupAgrees (procOid : ObjId) (t t' : Nat → ObjInfo) : Prop where
  live : liveObjects t = liveObjects t'
  left : NoneLeft procOid t
  left' : NoneLeft procOid t'

/-- The objects of the process that are deleted one by one: those that are live but not
persistent, and those already deleted that a second delete frees. -/
def CleanupRoot (procOid : ObjId) (immediatelyDelete : Bool) (t : Nat → ObjInfo) : Set Nat :=
  {i | (t i).oid ≠ 0 ∧ (t i).createdProc = procOid ∧
    ((t i).deletedTs = 0 ∧ (t i).flags.persistent = false ∨
      (t i).deletedTs ≠ 0 ∧ ((t i).flags.immediatelyDelete = true ∨ immediatelyDelete = true))}

/-- The process may delete all that goes along with these. -/
def MayDeleteAll (procOid : ObjId) (immediatelyDelete : Bool) (t : Nat → ObjInfo) : Prop :=
  ∀ j ∈ Reached (Takes manager t) (CleanupRoot procOid immediatelyDelete t),
    (t j).createdProc = procOid ∨ (t j).flags.writeAllow = true

/-- The table with a process that is connected: it has its process object, which is below an
object of another process. -/
structure HasProcess (t : Nat → ObjInfo) (procOid : ObjId) (procobjmeta : ObjInfo) : Prop
    extends InsertedTable t where
  procOid_ne : procOid ≠ 0
  few : ((List.range objMax).countP fun i =>
    (t i).oid ≠ 0 ∧ (t i).createdProc = procOid) < idlistMax
  procobj_ne : procobjmeta.oid ≠ 0
  procobj : ∃ i, (t i).oid = procobjmeta.oid ∧ (t i).createdProc = procOid ∧
    (t i).flags.persistent = false ∧
      ∀ j, (t j).oid ≠ 0 → (t j).oid = (t i).parentOid → (t j).createdProc ≠ procOid

/-- Of the processes in the table this one is dead, and no other. -/
def OnlyDead (alive : Int → Bool) (table : ProcTable) (procOid : ObjId)
    (immediatelyDelete : Bool) : Prop :=
  ∃ k < procMax, (table.proc k).procOid = procOid ∧ alive (table.proc k).pid = false ∧
    (table.proc k).immediatelyDelete = immediatelyDelete ∧
      ∀ i < procMax, i ≠ k → (table.proc i).procOid ≠ 0 → alive (table.proc i).pid = true

variable {env : Env} {h : Handle} {w w' : World} {t : Nat → ObjInfo} {procOid : ObjId}
  {procobjmeta : ObjInfo} {imm : Bool} {fuel : Nat}

/-! ## The objects of a process -/

/-- Lists of children do not overflow where the process deletes. -/
theorem HasProcess.roomy (hp : HasProcess t procOid procobjmeta) {x : Nat} (hx : (t x).oid ≠ 0)
    (hproc : (t x).createdProc = procOid) : ∀ j ∈ Reached (Takes h t) {x}, Roomy t (t j).oid := by
  obtain ⟨q, hq, -, -, hparent⟩ := hp.procobj
  have hqlt : q < objMax := hp.bound q (by rw [hq]; exact hp.procobj_ne)
  have hreach {j : Nat} (hj : Relation.ReflTransGen (Takes h t) x j) :
      (t j).oid ≠ 0 ∧ ((t q).parentOid ≠ (t j).oid ∨ (t j).parentOid ≠ (t j).oid) := by
    induction hj with
    | refl => exact ⟨hx, Or.inl fun heq => hparent x hx heq.symm hproc⟩
    | @tail b c _ hbc ih =>
        refine ⟨hbc.1.1, ?_⟩
        by_cases heq : (t b).oid = (t c).oid
        · exact hp.unique b c ih.1 heq ▸ ih.2
        · exact Or.inr fun hc => heq (hbc.2.1.symm.trans hc)
  rintro j ⟨_, rfl, hj⟩
  obtain ⟨hocc, hne | hne⟩ := hreach hj
  · exact ⟨q, hqlt, hne⟩
  · exact ⟨j, hp.bound j hocc, hne⟩

/-- The handle may delete what the process has created. -/
def MayDelete (h : Handle) (procOid : ObjId) : Prop := h.procOid = procOid ∨ h.admin = true

theorem MayDelete.writeDenied (hm : MayDelete h procOid) {info : ObjInfo}
    (hproc : info.createdProc = procOid) : info.writeDenied h = false := by
  unfold ObjInfo.writeDenied
  rcases hm with heq | hadmin
  · simp [hproc, heq]
  · simp [hadmin]

/-- The table `t'` in the course of a cleanup of `t`: what is out is reached from the roots. -/
structure Cleaning (h : Handle) (procOid : ObjId) (imm : Bool) (t t' : Nat → ObjInfo) : Prop where
  remains : Remains t t'
  pass : Pass (Takes h t) (CleanupRoot procOid imm t) (liveSlots t) (liveSlots t')

/-- The object in slot `x` is out, with what goes along. -/
def Out (h : Handle) (t t' : Nat → ObjInfo) (x : Nat) : Prop :=
  x ∉ liveSlots t' ∧ ∀ b, Takes h t x b → b ∉ liveSlots t'

theorem Cleaning.delete {x : Nat} {db db' : Db} (hc : Cleaning h procOid imm t db.objmeta)
    (hm : MayDelete h procOid) (hx : (t x).oid ≠ 0) (hproc : (t x).createdProc = procOid)
    (hroot : x ∈ liveSlots db.objmeta → x ∈ CleanupRoot procOid imm t)
    (ho : DeleteOutcome h t x imm db db') :
    Cleaning h procOid imm t db'.objmeta ∧
      (x ∈ liveSlots t ∨ db.objmeta x = t x → x ∈ CleanupRoot procOid imm t →
        Out h t db'.objmeta x) := by
  have hmay : (db.objmeta x).writeDenied h = false := by
    rw [hc.remains.writeDenied]
    exact hm.writeDenied hproc
  rcases ho with ⟨hno, rfl⟩ | ⟨⟨hocc, -, hacc⟩, hr', hpass, hout, -⟩
  · refine ⟨hc, fun hcases hx' => ?_⟩
    by_cases hlive : x ∈ liveSlots t
    · by_cases hlive' : x ∈ liveSlots db'.objmeta
      · exact absurd ⟨hlive'.1, hmay, Or.inl hlive'.2⟩ hno
      · exact ⟨hlive', hc.pass.closed x hlive hlive'⟩
    · have hsame := hcases.resolve_left hlive
      rcases hx'.2.2 with hdel | hdel
      · exact absurd ⟨hx, hdel.1⟩ hlive
      · refine absurd ⟨by rwa [hsame], hmay, Or.inr ?_⟩ hno
        rw [hsame]
        exact hdel.2
  · refine ⟨⟨hr', hc.pass.trans (hpass.mono (Set.singleton_subset_iff.mpr ?_))⟩, fun _ _ => hout⟩
    by_cases hlive' : x ∈ liveSlots db.objmeta
    · exact Reached.root (hroot hlive')
    by_cases hlive : x ∈ liveSlots t
    · exact hc.pass.reached x hlive hlive'
    · refine Reached.root ⟨hx, hproc, Or.inr ⟨fun h0 => hlive ⟨hx, h0⟩, ?_⟩⟩
      rw [← hc.remains.flags]
      exact hacc.resolve_left fun h0 => hlive' ⟨hocc, h0⟩

theorem Out.mono {t₁ t₂ : Nat → ObjInfo} {x : Nat} (ho : Out h t t₁ x)
    (hsub : liveSlots t₂ ⊆ liveSlots t₁) : Out h t t₂ x :=
  ⟨fun hx => ho.1 (hsub hx), fun b hb hlive => ho.2 b hb (hsub hlive)⟩

theorem HasProcess.delete_run (hp : HasProcess t procOid procobjmeta)
    (hremap : env.nameRemap [] = []) (hnow : ∀ k, env.now k ≠ 0) (hfuel : objMax < fuel) {x : Nat}
    {metadata : ObjInfo} (hx : (t x).oid ≠ 0) (hproc : (t x).createdProc = procOid)
    (hr : Remains t w.db.objmeta) (hoid : metadata.oid = (t x).oid) :
    ∃ r w', deleteImm env.atomic h fuel metadata imm w = some (r, w') ∧
      DeleteOutcome h t x imm w.db w'.db :=
  deleteImm_run hp.toInsertedTable hremap hnow fuel hr hoid hx
    (fun _ j hj => (hp.roomy hx hproc j hj).spare)
    (Or.inl (lt_of_le_of_lt (liveCount_le_objMax _) hfuel))

theorem cleanupObject_run (hp : HasProcess t procOid procobjmeta) (hm : MayDelete h procOid)
    (hremap : env.nameRemap [] = []) (hnow : ∀ k, env.now k ≠ 0) (hfuel : objMax < fuel) {x : Nat}
    (hx : (t x).oid ≠ 0) (hproc : (t x).createdProc = procOid)
    (hc : Cleaning h procOid imm t w.db.objmeta)
    (hsame : x ∈ liveSlots t ∨ w.db.objmeta x = t x) :
    ∃ w', cleanupObject env.atomic h fuel imm (t x).oid w = some (⟨⟩, w') ∧
      Cleaning h procOid imm t w'.db.objmeta ∧
      liveSlots w'.db.objmeta ⊆ liveSlots w.db.objmeta ∧
      (x ∈ CleanupRoot procOid imm t → Out h t w'.db.objmeta x) ∧
      ∀ i, i ∉ liveSlots t → i ≠ x → w'.db.objmeta i = w.db.objmeta i := by
  obtain ⟨w₁, hdb, hcases⟩ : ∃ w₁, w₁.db = w.db ∧
      (x ∈ liveSlots w.db.objmeta ∧ readinfo env.atomic (t x).oid 0 {} w =
          some ((.ok 0, w.db.objmeta x), w₁) ∨
        x ∉ liveSlots w.db.objmeta ∧ readinfo env.atomic (t x).oid 0 {} w =
          some ((.error .notFound, {}), w₁)) :=
    readinfo_run hp.toInsertedTable hx hc.remains
  have hdelete {metadata : ObjInfo} (hoid : metadata.oid = (t x).oid) :
      ∃ r w₂, deleteImm env.atomic h fuel metadata imm w₁ = some (r, w₂) ∧
        DeleteOutcome h t x imm w.db w₂.db := by
    have hrun : ∃ r w₂, deleteImm env.atomic h fuel metadata imm w₁ = some (r, w₂) ∧
        DeleteOutcome h t x imm w₁.db w₂.db :=
      hp.delete_run hremap hnow hfuel hx hproc (by rw [hdb]; exact hc.remains) hoid
    rwa [hdb] at hrun
  rcases hcases with ⟨hlive, hread⟩ | ⟨hlive, hread⟩
  · by_cases hpers : (w.db.objmeta x).flags.persistent = true
    · refine ⟨w₁, bind_some.mpr ⟨_, _, hread, ?_⟩, by rwa [hdb], by rw [hdb], fun hroot => ?_,
        fun i _ _ => by rw [hdb]⟩
      · dsimp only
        rw [if_pos ⟨rfl, hpers⟩]
        rfl
      · rw [hc.remains.flags] at hpers
        rcases hroot.2.2 with h1 | h1
        · rw [hpers] at h1
          exact absurd h1.2 Bool.noConfusion
        · exact absurd (hc.remains.live hlive).2 h1.1
    · have hoid : ({ w.db.objmeta x with oid := (t x).oid } : ObjInfo).oid = (t x).oid := rfl
      obtain ⟨r, w₂, hrun, ho⟩ := hdelete hoid
      have hroot : x ∈ CleanupRoot procOid imm t := by
        refine ⟨hx, hproc, Or.inl ⟨(hc.remains.live hlive).2, ?_⟩⟩
        rw [← hc.remains.flags]
        exact Bool.not_eq_true _ ▸ hpers
      obtain ⟨hc', hout⟩ := hc.delete hm hx hproc (fun _ => hroot) ho
      refine ⟨w₂, bind_some.mpr ⟨_, _, hread, ?_⟩, hc', ho.subset, hout hsame,
        fun i hi => ho.frame hi⟩
      dsimp only
      rw [if_neg fun h => hpers h.2]
      exact bind_some.mpr ⟨_, _, hrun, rfl⟩
  · have hoid : ({ oid := (t x).oid } : ObjInfo).oid = (t x).oid := rfl
    obtain ⟨r, w₂, hrun, ho⟩ := hdelete hoid
    obtain ⟨hc', hout⟩ := hc.delete hm hx hproc (fun hlive' => absurd hlive' hlive) ho
    refine ⟨w₂, bind_some.mpr ⟨_, _, hread, ?_⟩, hc', ho.subset, hout hsame,
      fun i hi => ho.frame hi⟩
    exact bind_some.mpr ⟨_, _, hrun, rfl⟩

/-- The treatment of a list of them. An object that was not live is as it was until its turn. -/
theorem cleanupObjects_run (hp : HasProcess t procOid procobjmeta) (hm : MayDelete h procOid)
    (hremap : env.nameRemap [] = []) (hnow : ∀ k, env.now k ≠ 0) (hfuel : objMax < fuel)
    {l : List ObjId} (hnodup : l.Nodup) (hc : Cleaning h procOid imm t w.db.objmeta)
    (hl : ∀ c ∈ l, ∃ x, (t x).oid = c ∧ c ≠ 0 ∧ (t x).createdProc = procOid ∧
      (x ∈ liveSlots t ∨ w.db.objmeta x = t x)) :
    ∃ w', l.forM (cleanupObject env.atomic h fuel imm) w = some (⟨⟩, w') ∧
      Cleaning h procOid imm t w'.db.objmeta ∧
      liveSlots w'.db.objmeta ⊆ liveSlots w.db.objmeta ∧
      ∀ x, (t x).oid ∈ l → x ∈ CleanupRoot procOid imm t → Out h t w'.db.objmeta x := by
  induction l generalizing w with
  | nil => exact ⟨w, rfl, hc, Set.Subset.refl _, fun x hx => nomatch hx⟩
  | cons c l ih =>
      obtain ⟨hcl, hnodup'⟩ := List.nodup_cons.mp hnodup
      obtain ⟨x, rfl, hx, hproc, hsame⟩ := hl c List.mem_cons_self
      obtain ⟨w₁, hrun₁, hc₁, hsub₁, hout₁, hframe₁⟩ :=
        cleanupObject_run hp hm hremap hnow hfuel hx hproc hc hsame
      have hl₁ : ∀ c ∈ l, ∃ y, (t y).oid = c ∧ c ≠ 0 ∧ (t y).createdProc = procOid ∧
          (y ∈ liveSlots t ∨ w₁.db.objmeta y = t y) := by
        intro c hcmem
        obtain ⟨y, hyc, hy, hyproc, hysame⟩ := hl c (List.mem_cons_of_mem _ hcmem)
        refine ⟨y, hyc, hy, hyproc, ?_⟩
        by_cases hlive : y ∈ liveSlots t
        · exact Or.inl hlive
        · have hyx : y ≠ x := fun heq => hcl (by rw [← heq, hyc]; exact hcmem)
          exact Or.inr ((hframe₁ y hlive hyx).trans (hysame.resolve_left hlive))
      obtain ⟨w₂, hrun₂, hc₂, hsub₂, hout₂⟩ := ih hnodup' hc₁ hl₁
      refine ⟨w₂, bind_some.mpr ⟨_, _, hrun₁, hrun₂⟩, hc₂, hsub₂.trans hsub₁, ?_⟩
      intro y hy hroot
      rcases List.mem_cons.mp hy with heq | hy
      · have hyx : y = x := hp.unique y x (by rwa [heq]) heq
        exact (hyx ▸ hout₁ (hyx ▸ hroot)).mono hsub₂
      · exact hout₂ y hy hroot

/-! ## What is left -/

/-- The table `t'` after a cleanup of `t`. -/
structure CleanedUp (h : Handle) (procOid : ObjId) (imm : Bool) (t t' : Nat → ObjInfo) :
    Prop where
  remains : Remains t t'
  live : ∀ i, i ∈ liveSlots t' ↔
    i ∈ liveSlots t ∧ i ∉ Reached (Takes h t) (CleanupRoot procOid imm t)

theorem Cleaning.cleanedUp {t' : Nat → ObjInfo} (hc : Cleaning h procOid imm t t')
    (hroots : ∀ x ∈ CleanupRoot procOid imm t, Out h t t' x) : CleanedUp h procOid imm t t' where
  remains := hc.remains
  live _ := hc.pass.mem_iff (fun _ _ hab => hab.1) hroots

theorem CleanedUp.noneLeft {t' : Nat → ObjInfo} (hc : CleanedUp h procOid imm t t') :
    NoneLeft procOid t' := by
  intro i hi hproc
  obtain ⟨hlive, hno⟩ := (hc.live i).mp hi
  by_contra hpers
  rw [hc.remains.flags, Bool.not_eq_true] at hpers
  rw [hc.remains.createdProc] at hproc
  exact hno (Reached.root ⟨hlive.1, hproc, Or.inl ⟨hlive.2, hpers⟩⟩)

theorem HasProcess.searchinfoDeleted_run (hp : HasProcess w.db.objmeta procOid procobjmeta)
    (env : Env) (hremap : env.nameRemap [] = []) :
    ∃ n out w', searchinfoDeleted env.atomic (some []) 0 0 procOid 0 (some env.atomic.uninit) 0 w =
        some ((.ok n, some out), w') ∧ w'.db = w.db ∧ out.entries.Nodup ∧
      ∀ c, c ∈ out.entries ↔ ∃ x, (w.db.objmeta x).oid = c ∧ c ≠ 0 ∧
        (w.db.objmeta x).createdProc = procOid := by
  have hmem (c : ObjId) : c ∈ searchTable w.db .any 0 0 procOid 0 0 true ↔
      ∃ x, (w.db.objmeta x).oid = c ∧ c ≠ 0 ∧ (w.db.objmeta x).createdProc = procOid := by
    rw [mem_searchTable_iff]
    constructor
    · rintro ⟨i, -, hoid, hc, -, -, hproc, -⟩
      exact ⟨i, hoid, hc, hproc.resolve_right hp.procOid_ne⟩
    · rintro ⟨i, rfl, hc, hproc⟩
      exact ⟨i, hp.bound i hc, rfl, hc, hp.createdTs i hc, Or.inr rfl, Or.inl hproc, Or.inr rfl⟩
  have htable : searchTable w.db .any 0 0 procOid 0 0 true =
      ((List.range objMax).filter fun i =>
        (w.db.objmeta i).matches .any 0 0 procOid 0 true).map fun i => (w.db.objmeta i).oid := by
    unfold searchTable
    rw [if_neg (by decide), List.filter_map, List.map_map]
    rfl
  have hmatch {i : Nat} (hi : (w.db.objmeta i).matches .any 0 0 procOid 0 true = true) :
      (w.db.objmeta i).oid ≠ 0 ∧ (w.db.objmeta i).createdProc = procOid := by
    simp only [ObjInfo.matches, Bool.and_eq_true, Bool.or_eq_true, decide_eq_true_eq] at hi
    obtain ⟨⟨⟨⟨⟨⟨⟨hoid, -⟩, -⟩, -⟩, hproc⟩, -⟩, -⟩, -⟩ := hi
    exact ⟨hoid, hproc.resolve_right hp.procOid_ne⟩
  have hlen : (searchTable w.db .any 0 0 procOid 0 0 true).length < idlistMax := by
    rw [htable, List.length_map, ← List.countP_eq_length_filter]
    refine lt_of_le_of_lt (List.countP_mono_left fun i _ hi => ?_) hp.few
    exact decide_eq_true (hmatch hi)
  have hnodup : (searchTable w.db .any 0 0 procOid 0 0 true).Nodup := by
    rw [htable]
    refine List.Nodup.map_on (fun i hi j _ hij => ?_) (List.nodup_range.filter _)
    exact hp.unique i j (hmatch (List.mem_filter.mp hi).2).1 hij
  obtain ⟨ret, out, w', hrun, hdb, ⟨-, hnil⟩ | ⟨⟨n, rfl⟩, hout⟩⟩ :=
    searchinfoMode_run hremap w hlen
  · obtain ⟨q, hq, hproc, -, -⟩ := hp.procobj
    have hfound := (hmem (w.db.objmeta q).oid).mpr ⟨q, rfl, by rw [hq]; exact hp.procobj_ne, hproc⟩
    rw [hnil] at hfound
    exact absurd hfound List.not_mem_nil
  · exact ⟨n, out, w', hrun, hdb, hout ▸ hnodup, fun c => by rw [hout]; exact hmem c⟩

theorem HasProcess.cleanup_run (hp : HasProcess w.db.objmeta procOid procobjmeta)
    (hm : MayDelete h procOid) (hremap : env.nameRemap [] = []) (hnow : ∀ k, env.now k ≠ 0)
    (hfuel : objMax < fuel) (imm : Bool) :
    ∃ n out w₁ w', searchinfoDeleted env.atomic (some []) 0 0 procOid 0 (some env.atomic.uninit) 0
        w = some ((.ok n, some out), w₁) ∧
      out.entries.forM (cleanupObject env.atomic h fuel imm) w₁ = some (⟨⟩, w') ∧
      Cleaning h procOid imm w.db.objmeta w'.db.objmeta ∧
      ∀ x ∈ CleanupRoot procOid imm w.db.objmeta, Out h w.db.objmeta w'.db.objmeta x := by
  obtain ⟨n, out, w₁, hsearch, hdb, hnodup, hmem⟩ := hp.searchinfoDeleted_run env hremap
  have hstart : Cleaning h procOid imm w.db.objmeta w₁.db.objmeta :=
    ⟨hdb ▸ Remains.refl, hdb ▸ Pass.refl⟩
  obtain ⟨w', hrun, hc, -, hout⟩ := cleanupObjects_run hp hm hremap hnow hfuel hnodup hstart
    fun c hc => by
      obtain ⟨x, hxc, hx, hproc⟩ := (hmem c).mp hc
      exact ⟨x, hxc, hx, hproc, Or.inr (by rw [hdb])⟩
  exact ⟨n, out, w₁, w', hsearch, hrun, hc, fun x hx =>
    hout x ((hmem _).mpr ⟨x, rfl, hx.1, hx.2.1⟩) hx⟩

theorem disconnect_run (env : Env) (hp : HasProcess w.db.objmeta h.procOid procobjmeta)
    (hremap : env.nameRemap [] = []) (hnow : ∀ k, env.now k ≠ 0) (hfuel : objMax < fuel)
    (imm : Bool) :
    ∃ w', disconnect env.atomic h fuel procobjmeta imm w = some (.ok 0, w') ∧
      CleanedUp h h.procOid imm w.db.objmeta w'.db.objmeta := by
  obtain ⟨n, out, w₁, w₂, hsearch, hloop, hc, hout⟩ :=
    hp.cleanup_run (Or.inl rfl) hremap hnow hfuel imm
  obtain ⟨q, hq, hproc, hpers, -⟩ := hp.procobj
  have hocc : (w.db.objmeta q).oid ≠ 0 := by
    rw [hq]
    exact hp.procobj_ne
  obtain ⟨r, w₃, hrun, ho⟩ := hp.delete_run hremap hnow hfuel hocc hproc hc.remains hq.symm
  have hroot (hlive : q ∈ liveSlots w₂.db.objmeta) : q ∈ CleanupRoot h.procOid imm w.db.objmeta :=
    ⟨hocc, hproc, Or.inl ⟨(hc.remains.live hlive).2, hpers⟩⟩
  obtain ⟨hc', -⟩ := hc.delete (Or.inl rfl) hocc hproc hroot ho
  refine ⟨w₃, ?_, hc'.cleanedUp fun x hx => (hout x hx).mono ho.subset⟩
  unfold disconnect
  rw [if_pos hp.procobj_ne]
  exact bind_some.mpr ⟨_, _, hsearch, bind_some.mpr ⟨_, _, hloop, bind_some.mpr ⟨_, _, hrun, rfl⟩⟩⟩

theorem purgeProc_run {slot : ProcSlot} (hp : HasProcess w.db.objmeta slot.procOid procobjmeta)
    (hremap : env.nameRemap [] = []) (hnow : ∀ k, env.now k ≠ 0) (hfuel : objMax < fuel) :
    ∃ w', purgeProc env.atomic fuel slot w = some (⟨⟩, w') ∧
      CleanedUp manager slot.procOid slot.immediatelyDelete w.db.objmeta w'.db.objmeta := by
  obtain ⟨n, out, w₁, w₂, hsearch, hloop, hc, hout⟩ :=
    hp.cleanup_run (h := manager) (Or.inr rfl) hremap hnow hfuel slot.immediatelyDelete
  exact ⟨w₂, bind_some.mpr ⟨_, _, hsearch, hloop⟩, hc.cleanedUp hout⟩

/-! ## The loop of the manager -/

theorem purgeProcs_alive {alive : Int → Bool} {table : ProcTable} {is : List Nat}
    (halive : ∀ i ∈ is, (table.proc i).procOid ≠ 0 → alive (table.proc i).pid = true) :
    purgeProcs env alive fuel is table w = some (table, w) := by
  induction is with
  | nil => rfl
  | cons i is ih =>
      unfold purgeProcs
      rw [if_neg fun hdead => Bool.false_ne_true
        (hdead.2.symm.trans (halive i List.mem_cons_self hdead.1))]
      exact ih fun j hj => halive j (List.mem_cons_of_mem _ hj)

theorem purgeProcs_dead {alive : Int → Bool} {table : ProcTable} {is : List Nat} {k : Nat}
    (hnodup : is.Nodup) (hk : k ∈ is) (hocc : (table.proc k).procOid ≠ 0)
    (hdead : alive (table.proc k).pid = false)
    (halive : ∀ i ∈ is, i ≠ k → (table.proc i).procOid ≠ 0 → alive (table.proc i).pid = true)
    (hrun : purgeProc env fuel (table.proc k) w = some (⟨⟩, w')) :
    purgeProcs env alive fuel is table w = some (table.clear k, w') := by
  induction is with
  | nil => nomatch hk
  | cons i is ih =>
      obtain ⟨hi, hnodup'⟩ := List.nodup_cons.mp hnodup
      unfold purgeProcs
      by_cases hik : i = k
      · subst hik
        rw [if_pos ⟨hocc, hdead⟩]
        refine bind_some.mpr ⟨_, _, hrun, purgeProcs_alive fun j hj => ?_⟩
        have hji : j ≠ i := fun heq => hi (heq ▸ hj)
        unfold ProcTable.clear
        dsimp only
        rw [Function.update_of_ne hji]
        exact halive j (List.mem_cons_of_mem _ hj) hji
      · rw [if_neg fun h => Bool.false_ne_true
          (h.2.symm.trans (halive i List.mem_cons_self hik h.1))]
        exact ih hnodup' ((List.mem_cons.mp hk).resolve_left fun heq => hik heq.symm)
          fun j hj => halive j (List.mem_cons_of_mem _ hj)

/-- The loop over the table of processes. -/
theorem purgeProcs_run (env : Env) {alive : Int → Bool} {table : ProcTable}
    (hp : HasProcess w.db.objmeta procOid procobjmeta) (hremap : env.nameRemap [] = [])
    (hnow : ∀ k, env.now k ≠ 0) (hfuel : objMax < fuel)
    (hdead : OnlyDead alive table procOid imm) :
    ∃ table' w', purgeProcs env.atomic alive fuel (List.range procMax) table w =
        some (table', w') ∧ CleanedUp manager procOid imm w.db.objmeta w'.db.objmeta := by
  obtain ⟨k, hk, rfl, hgone, rfl, halive⟩ := hdead
  obtain ⟨w', hrun, hc⟩ := purgeProc_run hp hremap hnow hfuel
  exact ⟨table.clear k, w', purgeProcs_dead List.nodup_range (List.mem_range.mpr hk)
    hp.procOid_ne hgone (fun i hi => halive i (List.mem_range.mp hi)) hrun, hc⟩

/-! ## When they agree -/

/-- The same objects are live when the same slots are. -/
theorem liveObjects_eq_iff {t₁ t₂ : Nat → ObjInfo} (ht : OidTable t) (hr₁ : Remains t t₁)
    (hr₂ : Remains t t₂) : liveObjects t₁ = liveObjects t₂ ↔ liveSlots t₁ = liveSlots t₂ := by
  have himage {t' : Nat → ObjInfo} (hr : Remains t t') :
      liveObjects t' = (fun i => (t i).oid) '' liveSlots t' :=
    Set.image_congr fun i hi => hr.oid i hi.1
  have hinj : Set.InjOn (fun i => (t i).oid) (liveSlots t) :=
    fun i hi j _ hij => ht.unique i j hi.1 hij
  rw [himage hr₁, himage hr₂]
  exact hinj.image_eq_image_iff hr₁.live hr₂.live

theorem Takes.manager {i j : Nat} (htake : Takes h t i j) : Takes manager t i j :=
  ⟨htake.1, htake.2.1, htake.2.2.1, by simp [ObjInfo.writeDenied, KogmoRtdb.manager]⟩

theorem writeDenied_eq_false (hadmin : h.admin = false) {info : ObjInfo} :
    info.writeDenied h = false ↔ info.createdProc = h.procOid ∨ info.flags.writeAllow = true := by
  unfold ObjInfo.writeDenied
  cases hw : info.flags.writeAllow <;> simp [hadmin]

/-- What the process and the manager reach from the same roots. -/
theorem reached_eq_iff (hadmin : h.admin = false) :
    (∀ i ∈ liveSlots t, i ∈ Reached (Takes h t) (CleanupRoot h.procOid imm t) ↔
      i ∈ Reached (Takes manager t) (CleanupRoot h.procOid imm t)) ↔
      MayDeleteAll h.procOid imm t := by
  constructor
  · rintro hsame j ⟨a, ha, haj⟩
    rcases haj.cases_tail with rfl | ⟨b, hab, hbj⟩
    · exact Or.inl ha.2.1
    · obtain ⟨a', ha', haj'⟩ := (hsame j hbj.1).mpr ⟨a, ha, haj⟩
      rcases haj'.cases_tail with rfl | ⟨c, -, hcj⟩
      · exact Or.inl ha'.2.1
      · exact (writeDenied_eq_false hadmin).mp hcj.2.2.2
  · rintro hmay i -
    constructor
    · rintro ⟨a, ha, hai⟩
      exact ⟨a, ha, hai.lift id fun _ _ htake => htake.manager⟩
    · rintro ⟨a, ha, hai⟩
      refine ⟨a, ha, ?_⟩
      induction hai with
      | refl => exact Relation.ReflTransGen.refl
      | @tail b c hab hbc ih =>
          exact ih.tail ⟨hbc.1, hbc.2.1, hbc.2.2.1,
            (writeDenied_eq_false hadmin).mpr (hmay c ⟨a, ha, hab.tail hbc⟩)⟩

theorem CleanedUp.agrees_iff_mayDeleteAll {t₁ t₂ : Nat → ObjInfo} (ht : OidTable t)
    (hadmin : h.admin = false)
    (h₁ : CleanedUp h h.procOid imm t t₁) (h₂ : CleanedUp manager h.procOid imm t t₂) :
    CleanupAgrees h.procOid t₁ t₂ ↔ MayDeleteAll h.procOid imm t := by
  have hlive : CleanupAgrees h.procOid t₁ t₂ ↔ liveSlots t₁ = liveSlots t₂ :=
    ⟨fun hagree => (liveObjects_eq_iff ht h₁.remains h₂.remains).mp hagree.live,
      fun heq => ⟨(liveObjects_eq_iff ht h₁.remains h₂.remains).mpr heq, h₁.noneLeft,
        h₂.noneLeft⟩⟩
  rw [hlive, ← reached_eq_iff hadmin, Set.ext_iff]
  refine forall_congr' fun i => ?_
  rw [h₁.live, h₂.live]
  tauto

/-- A client that leaves and one that dies leave the same objects exactly when it may delete all
that goes along with its own. -/
theorem cleanupAgrees_iff (env : Env) (alive : Int → Bool) (table : ProcTable) (h : Handle)
    (imm : Bool) (procobjmeta : ObjInfo) (w : World) {fuel : Nat} (hfuel : objMax < fuel)
    (hremap : env.nameRemap [] = []) (hnow : ∀ k, env.now k ≠ 0) (hadmin : h.admin = false)
    (hp : HasProcess w.db.objmeta h.procOid procobjmeta)
    (hdead : OnlyDead alive table h.procOid imm) :
    ∃ r w₁ table' w₂, disconnect env.atomic h fuel procobjmeta imm w = some (r, w₁) ∧
      purgeProcs env.atomic alive fuel (List.range procMax) table w = some (table', w₂) ∧
      (CleanupAgrees h.procOid w₁.db.objmeta w₂.db.objmeta ↔
        MayDeleteAll h.procOid imm w.db.objmeta) := by
  obtain ⟨w₁, hrun₁, hc₁⟩ := disconnect_run env hp hremap hnow hfuel imm
  obtain ⟨table', w₂, hrun₂, hc₂⟩ := purgeProcs_run env hp hremap hnow hfuel hdead
  exact ⟨_, w₁, table', w₂, hrun₁, hrun₂, hc₁.agrees_iff_mayDeleteAll hp.toOidTable hadmin hc₂⟩

/-! ## Two processes -/

/-- The process 2 with its process object below the manager's, and an object below that: it is
created by `createdProc` and goes with its parent. -/
def processTable (createdProc : ObjId) (i : Nat) : ObjInfo :=
  if i = 0 then { oid := 1, createdTs := 1, createdProc := managerOid, parentOid := 1 }
  else if i = 1 then { oid := 2, createdTs := 1, createdProc := 2, parentOid := 1 }
  else if i = 2 then
    { oid := 3, createdTs := 1, createdProc := createdProc, parentOid := 2,
      flags := { parentDelete := true } }
  else {}

def processWorld (createdProc : ObjId) : World :=
  let w := World.initial (stillEnv 4096).atomic 4096
  { w with db := { w.db with objmeta := processTable createdProc } }

def processProcs : ProcTable := { ProcTable.initial with
  proc := Function.update ProcTable.initial.proc 0 { procOid := 2, pid := 42 } }

theorem processTable_cases {createdProc : ObjId} {i : Nat}
    (hi : (processTable createdProc i).oid ≠ 0) : i = 0 ∨ i = 1 ∨ i = 2 := by
  by_contra hno
  rw [not_or, not_or] at hno
  unfold processTable at hi
  rw [if_neg hno.1, if_neg hno.2.1, if_neg hno.2.2] at hi
  exact hi rfl

theorem processWorld_hasProcess (createdProc : ObjId) :
    HasProcess (processWorld createdProc).db.objmeta 2 { oid := 2 } where
  unique i j hi hij := by
    have hj : (processTable createdProc j).oid ≠ 0 := fun h0 => hi (hij.trans h0)
    rcases processTable_cases hi with rfl | rfl | rfl <;>
      rcases processTable_cases hj with rfl | rfl | rfl <;> first | rfl | exact nomatch hij
  bound i hi := by
    have hle : i ≤ 2 := by rcases processTable_cases hi with rfl | rfl | rfl <;> decide
    refine lt_of_le_of_lt hle ?_
    unfold objMax
    decide
  createdTs i hi := by
    have hts : (1 : Timestamp) ≠ 0 := by decide
    rcases processTable_cases hi with rfl | rfl | rfl <;> exact hts
  procOid_ne := by decide
  few := by
    rw [idlistMax_eq_objMax, List.countP_eq_length_filter]
    refine lt_of_lt_of_eq (List.length_filter_lt_length_iff_exists.mpr
      ⟨0, List.mem_range.mpr ?_, ?_⟩) List.length_range
    · unfold objMax
      decide
    · have hother : managerOid ≠ 2 := by decide
      exact fun h => hother (of_decide_eq_true h).2
  procobj_ne := by decide
  procobj := ⟨1, rfl, rfl, rfl, fun j hj hparent => by
    rcases processTable_cases hj with rfl | rfl | rfl
    · have hother : managerOid ≠ 2 := by decide
      exact hother
    · exact nomatch hparent
    · exact nomatch hparent⟩

theorem processProcs_onlyDead : OnlyDead (fun _ => false) processProcs 2 false :=
  ⟨0, by unfold procMax; decide, rfl, rfl, rfl, fun i _ hi hocc => absurd rfl (by
    unfold processProcs at hocc
    dsimp only at hocc
    rw [Function.update_of_ne hi] at hocc
    exact hocc)⟩

/-- A process whose objects are all its own. -/
theorem cleanupAgrees_iff_own :
    ∃ r w₁ table' w₂, disconnect (stillEnv 4096).atomic ⟨2, false⟩ (objMax + 1) { oid := 2 } false
        (processWorld 2) = some (r, w₁) ∧
      purgeProcs (stillEnv 4096).atomic (fun _ => false) (objMax + 1) (List.range procMax)
        processProcs (processWorld 2) = some (table', w₂) ∧
      (CleanupAgrees 2 w₁.db.objmeta w₂.db.objmeta ↔
        MayDeleteAll 2 false (processWorld 2).db.objmeta) :=
  cleanupAgrees_iff (stillEnv 4096) (fun _ => false) processProcs ⟨2, false⟩ false { oid := 2 }
    (processWorld 2) (Nat.lt_succ_self objMax) rfl (stillEnv_now 4096) rfl
    (processWorld_hasProcess 2) processProcs_onlyDead

/-- The process 2 leaves an object of the process 3 that the manager deletes. -/
theorem exists_not_cleanupAgrees :
    ∃ r w₁ table' w₂, disconnect (stillEnv 4096).atomic ⟨2, false⟩ (objMax + 1) { oid := 2 } false
        (processWorld 3) = some (r, w₁) ∧
      purgeProcs (stillEnv 4096).atomic (fun _ => false) (objMax + 1) (List.range procMax)
        processProcs (processWorld 3) = some (table', w₂) ∧
      ¬ CleanupAgrees 2 w₁.db.objmeta w₂.db.objmeta := by
  have hp := processWorld_hasProcess 3
  obtain ⟨w₁, hrun₁, hc₁⟩ := disconnect_run (stillEnv 4096) (h := ⟨2, false⟩) hp rfl
    (stillEnv_now 4096) (Nat.lt_succ_self objMax) false
  obtain ⟨table', w₂, hrun₂, hc₂⟩ := purgeProcs_run (stillEnv 4096) hp rfl
    (stillEnv_now 4096) (Nat.lt_succ_self objMax) processProcs_onlyDead
  refine ⟨_, w₁, table', w₂, hrun₁, hrun₂, fun hagree => ?_⟩
  have hroot : 1 ∈ CleanupRoot 2 false (processTable 3) :=
    ⟨by decide, rfl, Or.inl ⟨rfl, rfl⟩⟩
  have htake : Takes manager (processTable 3) 1 2 := ⟨⟨by decide, rfl⟩, rfl, rfl, rfl⟩
  have hmay := (hc₁.agrees_iff_mayDeleteAll hp.toOidTable rfl hc₂).mp hagree 2 (Reached.step
    (Reached.root hroot) htake)
  exact hmay.elim (fun h => nomatch h) (fun h => nomatch h)

end KogmoRtdb
