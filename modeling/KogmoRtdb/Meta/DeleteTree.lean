import KogmoRtdb.Meta.Api

/-!
# Which objects a delete takes

`kogmo_rtdb_obj_delete_imm` deletes the object with the given oid and, by its recursive
calls, those in the trees of `parent_delete` objects below it. `Within` says that the
table differs from what it was in such slots only.

The recursion runs over an `objid_list`, whose last place a search with as many
results as places counts but does not fill. `ListFits` and `NoFullFamily` exclude that
all slots of the table match.
-/

namespace KogmoRtdb

open Prog

variable {env : Env} {h : Handle} {w w' : World} {t : Nat → ObjInfo} {oid : ObjId}

/-! ## Result lists -/

theorem idlistMax_eq_objMax : idlistMax = objMax := by
  unfold idlistMax objMax
  rfl

/-- A list that does not overflow has the oids that were found, and no others. -/
theorem mem_entries_fill {idlist : IdList} {found : List ObjId} {c : ObjId}
    (hlen : found.length < idlistMax) (hc : c ∈ (idlist.fill found).entries) : c ∈ found := by
  have hend : idlist.fill found found.length = 0 := by
    have hend := idlist.fill_end found
    rwa [Nat.min_eq_left (by omega)] at hend
  rw [IdList.entries_of_end (by omega) hend] at hc
  obtain ⟨k, hk, rfl⟩ := List.mem_map.mp (List.takeWhile_subset _ hc)
  have hlt := List.mem_range.mp hk
  rw [idlist.fill_getElem hlt (by omega)]
  exact List.getElem_mem hlt

theorem mem_searchTable {db : Db} {test : NameTest} {otype parentOid procOid : Int}
    {ts : Timestamp} {includedeleted : Bool} {c : ObjId}
    (hc : c ∈ searchTable db test otype parentOid procOid ts 0 includedeleted) :
    ∃ i, (db.objmeta i).oid = c ∧ c ≠ 0 ∧
      (parentOid ≠ 0 → (db.objmeta i).parentOid = parentOid) ∧
      (procOid ≠ 0 → (db.objmeta i).createdProc = procOid) := by
  unfold searchTable at hc
  rw [if_neg (by decide)] at hc
  obtain ⟨info, hmem, rfl⟩ := List.mem_map.mp hc
  obtain ⟨hmem, hmatch⟩ := List.mem_filter.mp hmem
  obtain ⟨i, -, rfl⟩ := List.mem_map.mp hmem
  simp only [ObjInfo.matches, Bool.and_eq_true, Bool.or_eq_true, decide_eq_true_eq] at hmatch
  obtain ⟨⟨⟨⟨⟨⟨⟨hoid, -⟩, -⟩, hparent⟩, hproc⟩, -⟩, -⟩, -⟩ := hmatch
  exact ⟨i, rfl, hoid, fun hne => hparent.resolve_right hne, fun hne => hproc.resolve_right hne⟩

/-- Some slot of the table is none of those searched for. -/
def Db.ListFits (db : Db) (parentOid procOid : ObjId) : Prop :=
  ∃ i < objMax, (db.objmeta i).oid = 0 ∨
    (parentOid ≠ 0 ∧ (db.objmeta i).parentOid ≠ parentOid) ∨
    (procOid ≠ 0 ∧ (db.objmeta i).createdProc ≠ procOid)

instance (db : Db) (parentOid procOid : ObjId) : Decidable (db.ListFits parentOid procOid) := by
  unfold Db.ListFits
  infer_instance

theorem length_searchTable {db : Db} {test : NameTest} {otype parentOid procOid : Int}
    {ts : Timestamp} {includedeleted : Bool} (hfits : db.ListFits parentOid procOid) :
    (searchTable db test otype parentOid procOid ts 0 includedeleted).length < idlistMax := by
  obtain ⟨i, hi, hno⟩ := hfits
  unfold searchTable
  rw [if_neg (by decide), List.length_map, idlistMax_eq_objMax]
  have hlen : ((List.range objMax).map db.objmeta).length = objMax := by simp
  refine Nat.lt_of_lt_of_eq (List.length_filter_lt_length_iff_exists.mpr
    ⟨db.objmeta i, List.mem_map.mpr ⟨i, List.mem_range.mpr hi, rfl⟩, ?_⟩) hlen
  intro hmatch
  simp only [ObjInfo.matches, Bool.and_eq_true, Bool.or_eq_true, decide_eq_true_eq] at hmatch
  obtain ⟨⟨⟨⟨⟨⟨⟨hoid, -⟩, -⟩, hparent⟩, hproc⟩, -⟩, -⟩, -⟩ := hmatch
  rcases hno with h0 | ⟨hne, hp⟩ | ⟨hne, hp⟩
  · exact hoid h0
  · exact hparent.elim hp hne
  · exact hproc.elim hp hne

/-- An empty search name excludes no slot for its own sake. -/
theorem searchName_empty (env : Env) (otype : Int) :
    ∃ test, searchName env (some []) otype = .scan test otype := by
  cases hname : env.nameRemap [] with
  | nil => exact ⟨.any, by simp only [searchName, hname]⟩
  | cons c name => exact ⟨.exact (c :: name), by simp only [searchName, hname]⟩

theorem searchinfoMode_idle {name : Option ObjName} {otype : Int} {parentOid procOid : ObjId}
    {ts : Timestamp} {idlist : Option IdList} {nth : Int} {nolock includedeleted : Bool}
    {r : Result × Option IdList}
    (hrun : searchinfoMode env.atomic name otype parentOid procOid ts idlist nth nolock
      includedeleted w = some (r, w')) :
    w'.db = w.db ∧ w'.heapLog = w.heapLog ∧ w.tick ≤ w'.tick := by
  rw [searchinfoMode_matches] at hrun
  cases hname : searchName env.atomic name otype with
  | badPattern =>
      rw [hname] at hrun
      rw [(pure_some.mp hrun).2]
      exact ⟨rfl, rfl, Nat.le_refl _⟩
  | oid oid =>
      rw [hname] at hrun
      obtain ⟨db, w₁, hdb, hrun⟩ := bind_some.mp hrun
      cases hdb
      rw [(pure_some.mp hrun).2]
      exact ⟨rfl, rfl, Nat.le_refl _⟩
  | scan test otype =>
      rw [hname] at hrun
      cases nolock <;> cases hrun
      · exact ⟨atomic_lock_db w, atomic_lock_heapLog w, le_tick_lock w⟩
      · exact ⟨rfl, rfl, Nat.le_refl _⟩

theorem searchinfoMode_db {name : Option ObjName} {otype : Int} {parentOid procOid : ObjId}
    {ts : Timestamp} {idlist : Option IdList} {nth : Int} {nolock includedeleted : Bool}
    {r : Result × Option IdList}
    (hrun : searchinfoMode env.atomic name otype parentOid procOid ts idlist nth nolock
      includedeleted w = some (r, w')) : w'.db = w.db := (searchinfoMode_idle hrun).1

/-- What is in the list after a search by parent or process. -/
theorem searchinfoMode_entries {parentOid procOid : ObjId} {idlist : IdList}
    {out : Option IdList} {n : Int} {nolock includedeleted : Bool}
    (hfits : w.db.ListFits parentOid procOid)
    (hrun : searchinfoMode env.atomic (some []) 0 parentOid procOid 0 (some idlist) 0 nolock
      includedeleted w = some ((.ok n, out), w')) :
    ∃ list, out = some list ∧ ∀ c ∈ list.entries,
      ∃ i, (w.db.objmeta i).oid = c ∧ c ≠ 0 ∧
        (parentOid ≠ 0 → (w.db.objmeta i).parentOid = parentOid) ∧
        (procOid ≠ 0 → (w.db.objmeta i).createdProc = procOid) := by
  obtain ⟨test, hname⟩ := searchName_empty env.atomic 0
  rw [searchinfoMode_matches, hname] at hrun
  obtain ⟨_, w₁, hlock, hrun⟩ := bind_some.mp hrun
  obtain ⟨db, _, hdb, hrun⟩ := bind_some.mp hrun
  cases hdb
  obtain ⟨_, w₂, hunlock, hrun⟩ := bind_some.mp hrun
  obtain ⟨db, _, hdb, hrun⟩ := bind_some.mp hrun
  cases hdb
  have hw₁ : w₁.db = w.db := by
    cases nolock with
    | true =>
        cases hlock
        rfl
    | false =>
        cases hlock
        exact atomic_lock_db w
  obtain ⟨hans, -⟩ := pure_some.mp hrun
  rw [hw₁] at hans
  unfold searchAnswer at hans
  split at hans
  · cases hans
  · cases hans
    exact ⟨_, rfl, fun c hc => mem_searchTable (mem_entries_fill (length_searchTable hfits) hc)⟩

/-! ## The tree below an object -/

/-- The object in slot `j` is deleted with that in slot `i`. -/
def GoesWith (t : Nat → ObjInfo) (i j : Nat) : Prop :=
  (t j).oid ≠ 0 ∧ (t j).parentOid = (t i).oid ∧ (t j).flags.parentDelete = true

/-- Slot `i` is in the tree below the object `oid`. -/
def InTree (t : Nat → ObjInfo) (oid : ObjId) (i : Nat) : Prop :=
  ∃ r, (t r).oid = oid ∧ Relation.ReflTransGen (GoesWith t) r i

/-- The slots are not all occupied by children of one object. -/
def NoFullFamily (t : Nat → ObjInfo) : Prop :=
  ∃ i < objMax, (t i).oid = 0 ∨ (t i).parentOid = 0 ∨ (t i).parentOid ≠ (t 0).parentOid

instance (t : Nat → ObjInfo) : Decidable (NoFullFamily t) := by
  unfold NoFullFamily
  infer_instance

/-- The table is `t`, but for objects in the tree below `root` that were deleted. -/
structure Within (t : Nat → ObjInfo) (root : ObjId) (w : World) : Prop where
  parentOid : ∀ i, (w.db.objmeta i).parentOid = (t i).parentOid
  flags : ∀ i, (w.db.objmeta i).flags = (t i).flags
  oid : ∀ i, (w.db.objmeta i).oid ≠ 0 → (w.db.objmeta i).oid = (t i).oid
  changed : ∀ i, w.db.objmeta i ≠ t i → InTree t root i

theorem Within.refl : Within w.db.objmeta oid w where
  parentOid _ := rfl
  flags _ := rfl
  oid _ _ := rfl
  changed _ h := absurd rfl h

theorem Within.congr (hw : Within t oid w) (hdb : w'.db.objmeta = w.db.objmeta) :
    Within t oid w' := by
  obtain ⟨h1, h2, h3, h4⟩ := hw
  rw [← hdb] at h1 h2 h3 h4
  exact ⟨h1, h2, h3, h4⟩

/-- A slot of the tree is marked as deleted, or given up. -/
theorem Within.update {i : Nat} {info : ObjInfo} (hw : Within t oid w)
    (hobj : w'.db.objmeta = Function.update w.db.objmeta i info)
    (hparent : info.parentOid = (w.db.objmeta i).parentOid)
    (hflags : info.flags = (w.db.objmeta i).flags)
    (hoid : info.oid ≠ 0 → info.oid = (w.db.objmeta i).oid) (hi : InTree t oid i) :
    Within t oid w' := by
  have hself : w'.db.objmeta i = info := by rw [hobj, Function.update_self]
  have hother {j : Nat} (hji : j ≠ i) : w'.db.objmeta j = w.db.objmeta j := by
    rw [hobj, Function.update_of_ne hji]
  refine ⟨fun j => ?_, fun j => ?_, fun j hj => ?_, fun j hj => ?_⟩ <;> by_cases hji : j = i
  · rw [hji, hself, hparent, hw.parentOid]
  · rw [hother hji, hw.parentOid]
  · rw [hji, hself, hflags, hw.flags]
  · rw [hother hji, hw.flags]
  · subst hji
    rw [hself] at hj ⊢
    rw [hoid hj]
    exact hw.oid j (by rwa [← hoid hj])
  · rw [hother hji] at hj ⊢
    exact hw.oid j hj
  · rwa [hji]
  · rw [hother hji] at hj
    exact hw.changed j hj

theorem Within.listFits (hw : Within t oid w) (hfam : NoFullFamily t) {p : ObjId} (hp : p ≠ 0) :
    w.db.ListFits p 0 := by
  obtain ⟨i, hi, hno⟩ := hfam
  have hpos : 0 < objMax := by omega
  by_cases h0 : (t 0).parentOid = p
  · refine ⟨i, hi, ?_⟩
    rcases hno with hoid | hparent | hne
    · refine Or.inl ?_
      by_contra hocc
      exact hocc ((hw.oid i hocc).trans hoid)
    · exact Or.inr (Or.inl ⟨hp, by rw [hw.parentOid, hparent]; exact hp.symm⟩)
    · exact Or.inr (Or.inl ⟨hp, by rw [hw.parentOid, ← h0]; exact hne⟩)
  · exact ⟨0, hpos, Or.inr (Or.inl ⟨hp, by rwa [hw.parentOid]⟩)⟩

/-! ## `kogmo_rtdb_obj_delete_imm` -/

/-- The children found, as slots of the table before. -/
def ChildrenOf (t : Nat → ObjInfo) (p : ObjId) (children : List ObjId) : Prop :=
  ∀ c ∈ children, c ≠ 0 ∧ ∃ j, (t j).oid = c ∧ (t j).parentOid = p

theorem within_findChildren {p : ObjId} (hp : p ≠ 0) (hfam : NoFullFamily t) {db : Db} :
    Triple (fun w => Within t oid w ∧ w.db = db) (findChildren env.atomic p) fun children w =>
      (Within t oid w ∧ w.db = db) ∧ ChildrenOf t p children := by
  intro w children w' hw hrun
  obtain ⟨⟨err, out⟩, w₁, hsearch, hrun⟩ := bind_some.mp hrun
  obtain rfl := searchinfoNolock_some hsearch
  cases err with
  | error e =>
      cases hrun
      exact ⟨hw, fun c hc => nomatch hc⟩
  | ok n =>
      obtain ⟨rfl, rfl⟩ := pure_some.mp hrun
      obtain ⟨list, rfl, hlist⟩ := searchinfoMode_entries (hw.1.listFits hfam hp) hsearch
      refine ⟨hw, fun c hc => ?_⟩
      obtain ⟨j, rfl, hne, hparent, -⟩ := hlist c hc
      exact ⟨hne, j, (hw.1.oid j hne).symm, (hw.1.parentOid j).symm.trans (hparent hp)⟩

theorem within_deleteLocked {metadata : ObjInfo} {immediatelyDelete : Bool}
    (hoid : metadata.oid ≠ 0) (hfam : NoFullFamily t)
    (htree : ∀ i, (t i).oid = metadata.oid → InTree t oid i) :
    Triple (Within t oid) (deleteLocked env.atomic h metadata immediatelyDelete) fun r w =>
      Within t oid w ∧ ChildrenOf t metadata.oid r.2.2 ∧
        (r.2.2 ≠ [] → ∃ i, (t i).oid = metadata.oid) := by
  have hend {r : Result × ObjInfo × List ObjId} (hr : ChildrenOf t metadata.oid r.2.2)
      (hne : r.2.2 ≠ [] → ∃ i, (t i).oid = metadata.oid) :
      Triple (Within t oid) (objmetaUnlock >>= fun _ => pure r) fun r w =>
        Within t oid w ∧ ChildrenOf t metadata.oid r.2.2 ∧
          (r.2.2 ≠ [] → ∃ i, (t i).oid = metadata.oid) := by
    intro w _ w' hw hrun
    cases hrun
    exact ⟨hw.congr rfl, hr, hne⟩
  have hno {ret : Result} {m : ObjInfo} :
      Triple (Within t oid) (objmetaUnlock >>= fun _ => pure (ret, m, [])) fun r w =>
        Within t oid w ∧ ChildrenOf t metadata.oid r.2.2 ∧
          (r.2.2 ≠ [] → ∃ i, (t i).oid = metadata.oid) :=
    hend (fun c hc => nomatch hc) fun hne => absurd rfl hne
  refine Triple.bind (R := fun _ => Within t oid) ?_ fun _ =>
    Triple.bind (R := fun db w => Within t oid w ∧ w.db = db) ?_ fun db => ?_
  · intro w _ w' hw hrun
    cases hrun
    exact hw.congr (congrArg Db.objmeta (atomic_lock_db w))
  · intro w _ w' hw hrun
    cases hrun
    exact ⟨hw, rfl⟩
  have hweak {c : Call (Result × ObjInfo × List ObjId)} {Q : Result × ObjInfo × List ObjId →
      World → Prop} (hc : Triple (Within t oid) c Q) :
      Triple (fun w => Within t oid w ∧ w.db = db) c Q :=
    hc.conseq (fun w hw => hw.1) fun _ _ hq => hq
  cases hi : db.findmetaById metadata.oid with
  | none => exact hweak hno
  | some i =>
      obtain ⟨-, hioid⟩ := Db.findmetaById_some hi
      refine Triple.ite (fun _ => hweak hno) fun _ => Triple.ite (fun _ => hweak hno) fun _ => ?_
      refine Triple.bind (within_findChildren hoid hfam) fun children => ?_
      refine Triple.bind (R := fun _ w => (Within t oid w ∧ w.db = db) ∧
        ChildrenOf t metadata.oid children) ?_ fun ts => ?_
      · intro w _ w' hw hrun
        cases hrun
        exact ⟨⟨hw.1.1.congr rfl, hw.1.2⟩, hw.2⟩
      rintro w r w' ⟨⟨hw, rfl⟩, hchildren⟩ hrun
      have htoid : (t i).oid = metadata.oid := by
        rw [← hioid]
        exact (hw.oid i (by rwa [hioid])).symm
      obtain ⟨_, w₁, hwrite, hrun⟩ := bind_some.mp hrun
      have hmark : Within t oid w₁ := by
        cases hwrite
        exact hw.update rfl rfl rfl (fun _ => rfl) (htree i htoid)
      obtain ⟨_, w₂, hpurge, hrun⟩ := bind_some.mp hrun
      refine hend hchildren (fun _ => ⟨i, htoid⟩) w₂ r w' ?_ hrun
      unfold Prog.when at hpurge
      split at hpurge
      · obtain rfl := purgeslot_some hpurge
        exact hmark.update (purged_objmeta i w₁) rfl rfl (fun h => absurd rfl h) (htree i htoid)
      · cases hpurge
        exact hmark

theorem within_deleteImm (ht : OidTable t) (hfam : NoFullFamily t) :
    ∀ fuel {metadata : ObjInfo} {immediatelyDelete : Bool}, metadata.oid ≠ 0 →
      (∀ i, (t i).oid = metadata.oid → InTree t oid i) →
      Keeps (Within t oid) (deleteImm env.atomic h fuel metadata immediatelyDelete)
  | 0, _, _, _, _ => Triple.diverge
  | fuel + 1, metadata, immediatelyDelete, hoid, htree => by
      refine Triple.bind (within_deleteLocked hoid hfam htree)
        fun ⟨ret, metadata', children⟩ => ?_
      rintro w r w' ⟨hw, hchildren, hne⟩
      refine (?_ : Keeps (Within t oid) _) w r w' hw
      cases ret with
      | error e => exact .pure
      | ok _ =>
          refine Keeps.bind (Keeps.forM fun c hmem => ?_) fun _ => .pure
          obtain ⟨hc, j, hj, hparent⟩ := hchildren c hmem
          obtain ⟨i, hi⟩ := hne (List.ne_nil_of_mem hmem)
          refine Triple.bind
            (readinfo_spec fun _ _ hw hdb _ _ => hw.congr (congrArg Db.objmeta hdb))
            fun ⟨err, childObjmeta⟩ => ?_
          rintro w r w' ⟨hw, hchild⟩
          refine (?_ : Keeps (Within t oid) _) w r w' hw
          cases err with
          | error e => exact .pure
          | ok n =>
              obtain ⟨hcoid, k, rfl⟩ := hchild n rfl
              have hk : (t k).oid = c := (hw.oid k (by rwa [hcoid])).symm.trans hcoid
              obtain rfl : k = j := ht.unique k j (by rwa [hk]) (hk.trans hj.symm)
              refine Triple.ite (fun hflag => ?_) fun _ => Keeps.pure
              refine .bind (within_deleteImm ht hfam fuel (by rwa [hcoid]) fun k' hk' => ?_)
                fun _ => Keeps.pure
              obtain rfl : k' = k := ht.unique k' k (by rwa [hk', hcoid])
                (hk'.trans (hcoid.trans hk.symm))
              obtain ⟨r, hr, hchain⟩ := htree i hi
              exact ⟨r, hr, hchain.tail ⟨by rwa [hk], hparent.trans hi.symm,
                by rw [← hw.flags]; exact hflag⟩⟩

end KogmoRtdb
