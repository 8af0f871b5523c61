import KogmoRtdb.Meta.DeleteCascade
import KogmoRtdb.Meta.SearchLists

/-!
# One notion of visibility

Whether an object is there at a time is asked in four places: by `readinfo`, by the scan of
`_kogmo_rtdb_obj_searchinfo`, by its direct form for a name like `~(42)`, and by its test of
the parent when nothing is found. The scan has the tests of `readinfo` and one more, for a
`created_ts` of 0. The direct form has none, and the test of the parent compares `deleted_ts`
the other way round and leaves `created_ts` out. `oneVisibility_iff` says of every table and
every search when the answers agree all the same.
-/

namespace KogmoRtdb

open Prog

/-! ## The questions -/

/-- `readinfo` succeeds. -/
def ReadinfoOk (env : Env) (w : World) (oid : ObjId) (ts : Timestamp) : Prop :=
  ∃ info w', readinfo env oid ts {} w = some ((.ok 0, info), w')

/-- The object is one of the matches of a search without filters. -/
def UnfilteredMatch (env : Env) (w : World) (ts : Timestamp) (oid : ObjId) : Prop :=
  ∃ (k : Nat) (w' : World),
    searchinfo env none 0 0 0 ts none k w = some ((.ok oid, none), w')

structure Query where
  name : Option ObjName
  otype : Int
  parentOid : ObjId
  procOid : ObjId
  idlist : Option IdList
  nth : Int

/-- `kogmo_rtdb_obj_searchinfo`. -/
def Query.search (q : Query) (env : Env) (ts : Timestamp) : Call (Result × Option IdList) :=
  searchinfo env q.name q.otype q.parentOid q.procOid ts q.idlist q.nth

/-- The search returns the object, as its answer or in its list. -/
def Query.Returns (q : Query) (env : Env) (w : World) (ts : Timestamp) (oid : ObjId) : Prop :=
  ∃ ret list w', q.search env ts w = some ((.ok ret, list), w') ∧
    match list with
    | none => ret = oid
    | some idlist => oid ∈ idlist.entries

def Query.NoMatch (q : Query) (env : Env) (db : Db) (ts : Timestamp) : Prop :=
  match searchName env q.name q.otype with
  | .oid oid => db.findmetaById oid = none
  | .scan test otype => allMatches db test otype q.parentOid q.procOid ts = []
  | .badPattern => False

/-- The calls agree on which objects are there at `ts`. -/
structure OneVisibility (env : Env) (w : World) (q : Query) (ts : Timestamp) : Prop where
  unfiltered : ∀ oid, 0 < oid → (ReadinfoOk env w oid ts ↔ UnfilteredMatch env w ts oid)
  returned : ∀ oid, q.Returns env w ts oid → ReadinfoOk env w oid ts
  parent : q.parentOid ≠ 0 → q.NoMatch env w.db ts → ∃ ret list w',
    q.search env ts w = some ((.error ret, list), w') ∧
      (ReadinfoOk env w q.parentOid ts → ret = .notFound) ∧
      (¬ ReadinfoOk env w q.parentOid ts → ret = .invalid)

/-! ## When they agree -/

/-- An object that the scan does not pass over for its times. -/
def ObjInfo.Listed (info : ObjInfo) (ts : Timestamp) : Prop :=
  info.createdTs ≠ 0 ∧ info.hidden ts = false

/-- The object that is known by the oid exists at `ts`. -/
def Shown (db : Db) (oid : ObjId) (ts : Timestamp) : Prop :=
  ∃ i, db.findmetaById oid = some i ∧ (db.objmeta i).hidden ts = false

/-- The oid of a listed object does not stand in an earlier slot whose object does not exist
at `ts`, and that of an existing one is listed. -/
structure OidsAgree (db : Db) (ts : Timestamp) : Prop where
  unmasked : ∀ i j, 0 < (db.objmeta i).oid → db.findmetaById (db.objmeta i).oid = some i →
    (db.objmeta i).hidden ts = true → j < objMax → (db.objmeta j).Listed ts →
      (db.objmeta j).oid ≠ (db.objmeta i).oid
  stamped : ∀ i, 0 < (db.objmeta i).oid → db.findmetaById (db.objmeta i).oid = some i →
    (db.objmeta i).hidden ts = false → ∃ j < objMax, (db.objmeta j).oid = (db.objmeta i).oid ∧
      (db.objmeta j).Listed ts

/-- The times of a parent at which its two tests agree. -/
def ObjInfo.ParentAgrees (info : ObjInfo) (ts : Timestamp) : Prop :=
  ts = 0 ∨
    (¬ ts.toInt < info.createdTs.toInt ∧ (info.deletedTs = 0 ∨ info.deletedTs = ts)) ∨
    (ts.toInt < info.createdTs.toInt ∧ info.deletedTs ≠ 0 ∧ ts.toInt < info.deletedTs.toInt)

/-- What a search must be like for its answer to agree with `readinfo`. -/
def Query.Agrees (q : Query) (env : Env) (db : Db) (ts : Timestamp) : Prop :=
  match searchName env q.name q.otype with
  | .oid oid =>
      -- the direct form looks at no times, and not at the parent
      match db.findmetaById oid with
      | some i => (db.objmeta i).hidden ts = true → q.idlist = none ∧ q.nth ≠ 1
      | none => q.parentOid ≠ 0 → Shown db q.parentOid ts
  | .scan test otype =>
      match allMatches db test otype q.parentOid q.procOid ts with
      | [] => q.parentOid ≠ 0 → ∀ i, db.findmetaById q.parentOid = some i →
          (db.objmeta i).ParentAgrees ts
      | found =>
          -- the entry of a full list that is not set
          ∀ idlist, q.idlist = some idlist → idlistMax ≤ (upTo q.nth found).length →
            idlist (idlistMax - 1) = 0 ∨ Shown db (idlist (idlistMax - 1)) ts
  | .badPattern => True

/-! ## `readinfo` and the scan -/

variable {env : Env} {w : World} {q : Query} {ts : Timestamp} {oid : ObjId} {db : Db}
  {test : NameTest} {otype : Int} {parentOid procOid : ObjId}

theorem readinfoOk_iff : ReadinfoOk env.atomic w oid ts ↔ Shown w.db oid ts := by
  have hdb : (w.lock env.atomic).db = w.db := atomic_lock_db w
  unfold ReadinfoOk Shown
  cases hfind : w.db.findmetaById oid with
  | none =>
      have hrun : readinfo env.atomic oid ts {} w =
          some ((.error .notFound, {}), (w.lock env.atomic).unlock) := by
        unfold readinfo
        refine bind_some.mpr ⟨_, _, rfl, bind_some.mpr ⟨_, _, rfl, ?_⟩⟩
        rw [hdb, hfind]
        rfl
      rw [hrun]
      simp
  | some i =>
      have hrun : readinfo env.atomic oid ts {} w = some
          (if (w.db.objmeta i).hidden ts then (.error .notFound, {})
            else (.ok 0, w.db.objmeta i), (w.lock env.atomic).unlock) := by
        unfold readinfo
        refine bind_some.mpr ⟨_, _, rfl, bind_some.mpr ⟨_, _, rfl, ?_⟩⟩
        rw [hdb, hfind]
        dsimp only
        cases (w.db.objmeta i).hidden ts <;> rfl
      rw [hrun]
      cases hhidden : (w.db.objmeta i).hidden ts <;> simp [hhidden]

/-- The tests on the times are those of `readinfo`, and one more. -/
theorem ObjInfo.matches_times {info : ObjInfo}
    (h : info.matches test otype parentOid procOid ts false = true) :
    info.oid ≠ 0 ∧ info.Listed ts := by
  unfold ObjInfo.matches at h
  simp only [Bool.and_eq_true, decide_eq_true_eq, Bool.not_false, Bool.and_true] at h
  obtain ⟨⟨⟨⟨⟨⟨⟨hoid, hcreated⟩, -⟩, -⟩, -⟩, hdeleted⟩, hlater⟩, -⟩ := h
  refine ⟨hoid, hcreated, ?_⟩
  unfold ObjInfo.hidden
  rw [Bool.or_eq_false_iff]
  exact ⟨Bool.eq_false_of_not_eq_true' hlater, Bool.eq_false_of_not_eq_true' hdeleted⟩

theorem ObjInfo.matches_any {info : ObjInfo} :
    info.matches .any 0 0 0 ts false = true ↔ info.oid ≠ 0 ∧ info.Listed ts := by
  refine ⟨ObjInfo.matches_times, fun ⟨hoid, hcreated, hhidden⟩ => ?_⟩
  unfold ObjInfo.hidden at hhidden
  rw [Bool.or_eq_false_iff] at hhidden
  obtain ⟨hlater, hdeleted⟩ := hhidden
  have hcreated : ¬ info.createdTs = 0#64 := hcreated
  unfold ObjInfo.matches
  simp only [Bool.and_eq_true, decide_eq_true_eq, Bool.not_false, Bool.and_true, hlater, hdeleted]
  simp [hoid, hcreated, NameTest.ok]

theorem mem_allMatches :
    oid ∈ allMatches db test otype parentOid procOid ts ↔ ∃ i < objMax, (db.objmeta i).oid = oid ∧
      (db.objmeta i).matches test otype parentOid procOid ts false = true := by
  unfold allMatches
  rw [List.mem_map]
  constructor
  · rintro ⟨info, hmem, rfl⟩
    obtain ⟨hmem, hmatch⟩ := List.mem_filter.mp hmem
    obtain ⟨i, hi, rfl⟩ := List.mem_map.mp hmem
    exact ⟨i, List.mem_range.mp hi, rfl, hmatch⟩
  · rintro ⟨i, hi, rfl, hmatch⟩
    exact ⟨db.objmeta i, List.mem_filter.mpr
      ⟨List.mem_map.mpr ⟨i, List.mem_range.mpr hi, rfl⟩, hmatch⟩, rfl⟩

theorem upTo_subset (nth : Int) (found : List ObjId) : upTo nth found ⊆ found := by
  unfold upTo
  split
  · exact List.take_subset _ found
  · exact List.Subset.refl found

theorem answer_mem {found : List ObjId} {nth : Int} {ret : ObjId}
    (h : (searchAnswer db (upTo nth found) parentOid ts none nth).1 = .ok ret) : ret ∈ found := by
  apply upTo_subset nth
  generalize upTo nth found = found at h ⊢
  unfold searchAnswer at h
  by_cases hnil : found = []
  · rw [if_pos hnil] at h
    cases h
  · rw [if_neg hnil] at h
    dsimp only at h
    split at h
    · cases h
      rw [List.getLastD_eq_getLast?, List.getLast?_eq_some_getLast hnil]
      exact List.getLast_mem hnil
    · cases h

/-- The matches of a search without filters are the listed objects. -/
theorem unfilteredMatch_iff : UnfilteredMatch env.atomic w ts oid ↔
    oid ≠ 0 ∧ ∃ i < objMax, (w.db.objmeta i).oid = oid ∧ (w.db.objmeta i).Listed ts := by
  have hname : searchName env.atomic none 0 = .scan .any 0 := rfl
  have hmem : oid ∈ allMatches w.db .any 0 0 0 ts ↔
      oid ≠ 0 ∧ ∃ i < objMax, (w.db.objmeta i).oid = oid ∧ (w.db.objmeta i).Listed ts := by
    rw [mem_allMatches]
    constructor
    · rintro ⟨i, hi, rfl, hmatch⟩
      obtain ⟨hoid, hlisted⟩ := ObjInfo.matches_any.mp hmatch
      exact ⟨hoid, i, hi, rfl, hlisted⟩
    · rintro ⟨hoid, i, hi, rfl, hlisted⟩
      exact ⟨i, hi, rfl, ObjInfo.matches_any.mpr ⟨hoid, hlisted⟩⟩
  rw [← hmem]
  unfold UnfilteredMatch
  simp only [searchinfo_eq hname, atomic_lock_db]
  generalize allMatches w.db .any 0 0 0 ts = found
  constructor
  · rintro ⟨k, w', hrun⟩
    cases hans : searchAnswer w.db (upTo k found) 0 ts none k with
    | mk ret list =>
        rw [hans] at hrun
        cases hrun
        exact answer_mem (congrArg Prod.fst hans)
  · intro hmem
    obtain ⟨k, hk, rfl⟩ := List.mem_iff_getElem.mp hmem
    obtain ⟨ret, hret, hok, -⟩ :=
      searchAnswer_nth w.db 0 ts found (Nat.succ_le_succ (Nat.zero_le k))
    refine ⟨k + 1, (w.lock env.atomic).unlock, ?_⟩
    rw [hret, hok _ (List.getElem?_eq_getElem hk)]

theorem exists_findmeta {j : Nat} (hj : j < objMax) (hoid : (db.objmeta j).oid = oid) :
    ∃ i, db.findmetaById oid = some i := by
  cases hfind : db.findmetaById oid with
  | some i => exact ⟨i, rfl⟩
  | none =>
      have := List.find?_eq_none.mp hfind j (List.mem_range.mpr hj)
      exact absurd (decide_eq_true hoid) this

/-- A listed object exists for `readinfo`. -/
theorem OidsAgree.shown (hids : OidsAgree db ts) {j : Nat} (hj : j < objMax)
    (hpos : 0 < (db.objmeta j).oid) (hlisted : (db.objmeta j).Listed ts) :
    Shown db (db.objmeta j).oid ts := by
  obtain ⟨i, hfind⟩ := exists_findmeta hj rfl
  have hoid := (Db.findmetaById_some hfind).2
  refine ⟨i, hfind, ?_⟩
  cases hhidden : (db.objmeta i).hidden ts with
  | false => rfl
  | true =>
      rw [← hoid] at hpos hfind
      exact absurd hoid.symm (hids.unmasked i j hpos hfind hhidden hj hlisted)

/-- `readinfo` and a search without filters agree on every object. -/
theorem oidsAgree_iff : (∀ oid, 0 < oid →
    (ReadinfoOk env.atomic w oid ts ↔ UnfilteredMatch env.atomic w ts oid)) ↔
      OidsAgree w.db ts := by
  simp only [readinfoOk_iff, unfilteredMatch_iff]
  constructor
  · intro hagree
    refine ⟨fun i j hpos hfind hhidden hj hlisted heq => ?_, fun i hpos hfind hhidden => ?_⟩
    · obtain ⟨k, hk, hshown⟩ := (hagree _ hpos).mpr ⟨Int.ne_of_gt hpos, j, hj, heq, hlisted⟩
      rw [hfind] at hk
      cases hk
      rw [hhidden] at hshown
      cases hshown
    · obtain ⟨-, j, hj, heq, hlisted⟩ := (hagree _ hpos).mp ⟨i, hfind, hhidden⟩
      exact ⟨j, hj, heq, hlisted⟩
  · intro hids oid hpos
    constructor
    · rintro ⟨i, hfind, hhidden⟩
      obtain ⟨-, rfl⟩ := Db.findmetaById_some hfind
      obtain ⟨j, hj, heq, hlisted⟩ := hids.stamped i hpos hfind hhidden
      exact ⟨Int.ne_of_gt hpos, j, hj, heq, hlisted⟩
    · rintro ⟨-, j, hj, rfl, hlisted⟩
      exact hids.shown hj hpos hlisted

/-! ## The search -/

def Query.answer (q : Query) (env : Env) (db : Db) (ts : Timestamp) : Result × Option IdList :=
  searchDb env db q.name q.otype q.parentOid q.procOid ts q.idlist q.nth

theorem search_eq (q : Query) (env : Env) (w : World) (ts : Timestamp) :
    ∃ w', q.search env.atomic ts w = some (q.answer env.atomic w.db ts, w') := by
  have hdb : (w.lock env.atomic).db = w.db := atomic_lock_db w
  unfold Query.search Query.answer searchDb
  cases hname : searchName env.atomic q.name q.otype with
  | badPattern =>
      refine ⟨w, ?_⟩
      unfold searchinfo
      rw [searchinfoMode_matches, hname]
      rfl
  | oid oid =>
      refine ⟨w, ?_⟩
      unfold searchinfo
      rw [searchinfoMode_matches, hname]
      rfl
  | scan test otype =>
      refine ⟨(w.lock env.atomic).unlock, ?_⟩
      rw [searchinfo_eq hname, hdb]
      rfl

theorem returns_iff : q.Returns env.atomic w ts oid ↔
    ∃ ret list, q.answer env.atomic w.db ts = (.ok ret, list) ∧
      match list with
      | none => ret = oid
      | some idlist => oid ∈ idlist.entries := by
  obtain ⟨w', hrun⟩ := search_eq q env w ts
  unfold Query.Returns
  rw [hrun]
  constructor
  · rintro ⟨ret, list, w'', heq, hmem⟩
    exact ⟨ret, list, (Prod.mk.inj (Option.some.inj heq)).1, hmem⟩
  · rintro ⟨ret, list, heq, hmem⟩
    exact ⟨ret, list, w', by rw [heq], hmem⟩

theorem searchName_oid_ne {name : Option ObjName} (h : searchName env name otype = .oid oid) :
    oid ≠ 0 := by
  unfold searchName at h
  split at h
  · cases h
  · split at h
    · cases h
      assumption
    · dsimp only at h
      split at h <;> cases h
  · split at h <;> cases h

/-- The part of the property that is about one search. -/
def Query.Consistent (q : Query) (env : Env) (db : Db) (ts : Timestamp) : Prop :=
  (∀ oid ret list, q.answer env db ts = (.ok ret, list) →
    (match list with
      | none => ret = oid
      | some idlist => oid ∈ idlist.entries) → Shown db oid ts) ∧
  (q.parentOid ≠ 0 → q.NoMatch env db ts → ∃ ret list,
    q.answer env db ts = (.error ret, list) ∧
      (Shown db q.parentOid ts → ret = .notFound) ∧ (¬ Shown db q.parentOid ts → ret = .invalid))

theorem oneVisibility_iff_consistent : OneVisibility env.atomic w q ts ↔
    OidsAgree w.db ts ∧ q.Consistent env.atomic w.db ts := by
  obtain ⟨w', hrun⟩ := search_eq q env w ts
  constructor
  · rintro ⟨hunfiltered, hreturned, hparent⟩
    refine ⟨oidsAgree_iff.mp hunfiltered, fun oid ret list hans hmem => ?_, fun h0 hno => ?_⟩
    · exact readinfoOk_iff.mp (hreturned oid (returns_iff.mpr ⟨ret, list, hans, hmem⟩))
    · obtain ⟨ret, list, w'', heq, hret⟩ := hparent h0 hno
      rw [hrun] at heq
      rw [readinfoOk_iff] at hret
      exact ⟨ret, list, (Prod.mk.inj (Option.some.inj heq)).1, hret⟩
  · rintro ⟨hids, hreturned, hparent⟩
    refine ⟨oidsAgree_iff.mpr hids, fun oid hret => ?_, fun h0 hno => ?_⟩
    · obtain ⟨ret, list, hans, hmem⟩ := returns_iff.mp hret
      exact readinfoOk_iff.mpr (hreturned oid ret list hans hmem)
    · obtain ⟨ret, list, hans, hret⟩ := hparent h0 hno
      have hok : ReadinfoOk env.atomic w q.parentOid ts ↔ Shown w.db q.parentOid ts :=
        readinfoOk_iff
      exact ⟨ret, list, w', by rw [hrun, hans], by rwa [hok]⟩

theorem entries_single {idlist : IdList} (hne : oid ≠ 0) :
    (idlist.fill [oid]).entries = [oid] := by
  have hlen : 1 < idlistMax := by
    unfold idlistMax
    decide
  refine entries_fill hlen fun c hc => ?_
  rw [List.mem_singleton.mp hc]
  exact hne

/-- The direct form agrees if the object exists at the time, or none is looked for. -/
theorem direct_consistent_iff (hname : searchName env.atomic q.name q.otype = .oid oid) :
    q.Consistent env.atomic db ts ↔ match db.findmetaById oid with
      | some i => (db.objmeta i).hidden ts = true → q.idlist = none ∧ q.nth ≠ 1
      | none => q.parentOid ≠ 0 → Shown db q.parentOid ts := by
  have hne := searchName_oid_ne hname
  unfold Query.Consistent Query.answer Query.NoMatch searchDb searchDirect
  rw [hname]
  dsimp only
  cases hfind : db.findmetaById oid with
  | none =>
      dsimp only
      constructor
      · rintro ⟨-, hparent⟩ h0
        obtain ⟨ret, list, heq, -, hgone⟩ := hparent h0 rfl
        cases heq
        by_contra hnot
        cases hgone hnot
      · intro hshown
        refine ⟨fun _ _ _ heq => ?_, fun h0 _ => ⟨_, _, rfl, fun _ => rfl, fun hnot => ?_⟩⟩
        · cases heq
        · exact absurd (hshown h0) hnot
  | some i =>
      have hshown : Shown db oid ts ↔ (db.objmeta i).hidden ts = false := by
        constructor
        · rintro ⟨j, hj, hhidden⟩
          rw [hfind] at hj
          cases hj
          exact hhidden
        · exact fun hhidden => ⟨i, hfind, hhidden⟩
      dsimp only
      constructor
      · rintro ⟨hreturned, -⟩ hhidden
        cases hlist : q.idlist with
        | none =>
            rw [hlist] at hreturned
            refine ⟨rfl, fun h1 => ?_⟩
            have := hshown.mp (hreturned oid oid none (by rw [h1]; rfl) rfl)
            rw [hhidden] at this
            cases this
        | some idlist =>
            rw [hlist] at hreturned
            have hmem : oid ∈ (idlist.fill [oid]).entries := by
              rw [entries_single hne]
              exact List.mem_singleton_self oid
            have := hshown.mp (hreturned oid 1 _ rfl hmem)
            rw [hhidden] at this
            cases this
      · intro hvisible
        refine ⟨fun o ret list heq hmem => ?_, fun _ hnone => by cases hnone⟩
        cases hlist : q.idlist with
        | none =>
            rw [hlist] at heq
            by_cases h1 : q.nth = 1
            · rw [if_pos h1] at heq
              cases heq
              cases hmem
              refine hshown.mpr (Bool.eq_false_iff.mpr fun hhidden => ?_)
              exact (hvisible hhidden).2 h1
            · rw [if_neg h1] at heq
              cases heq
        | some idlist =>
            rw [hlist] at heq
            cases heq
            have hmem : o ∈ (idlist.fill [oid]).entries := hmem
            rw [entries_single hne] at hmem
            cases List.mem_singleton.mp hmem
            refine hshown.mpr (Bool.eq_false_iff.mpr fun hhidden => ?_)
            have := (hvisible hhidden).1
            rw [hlist] at this
            cases this

theorem findmeta_shown {i : Nat} (hfind : db.findmetaById oid = some i) :
    Shown db oid ts ↔ (db.objmeta i).hidden ts = false := by
  constructor
  · rintro ⟨j, hj, hhidden⟩
    rw [hfind] at hj
    cases hj
    exact hhidden
  · exact fun hhidden => ⟨i, hfind, hhidden⟩

theorem noMatch_agrees_iff (hne : parentOid ≠ 0) :
    ((Shown db parentOid ts → noMatch db parentOid ts = .notFound) ∧
        (¬ Shown db parentOid ts → noMatch db parentOid ts = .invalid)) ↔
      ∀ i, db.findmetaById parentOid = some i → (db.objmeta i).ParentAgrees ts := by
  unfold noMatch
  rw [if_neg hne]
  cases hfind : db.findmetaById parentOid with
  | none =>
      have hgone : ¬ Shown db parentOid ts := by
        rintro ⟨i, hi, -⟩
        rw [hfind] at hi
        cases hi
      simp [hgone]
  | some i =>
      have hi : (∀ j, some i = some j → (db.objmeta j).ParentAgrees ts) ↔
          (db.objmeta i).ParentAgrees ts := by simp
      rw [findmeta_shown hfind, hi]
      dsimp only
      unfold ObjInfo.ParentAgrees ObjInfo.hidden
      generalize (db.objmeta i).createdTs = created
      generalize (db.objmeta i).deletedTs = deleted
      by_cases h0 : ts = 0
      · by_cases hdel : deleted = 0 <;> simp [h0, hdel]
      · -- equal stamps are equal numbers
        have heq : deleted = ts ↔ deleted.toInt = ts.toInt := BitVec.toInt_inj.symm
        by_cases hdel : deleted = 0
        · by_cases hlt : ts.toInt < created.toInt <;> simp [hdel, hlt]
        · rw [heq]
          have h0' : ¬ ts = 0#64 := h0
          have hdel' : ¬ deleted = 0#64 := hdel
          by_cases hlt : ts.toInt < created.toInt
          · by_cases hbefore : ts.toInt < deleted.toInt <;> simp [h0', hdel', hlt, hbefore]
          · rcases Int.lt_trichotomy ts.toInt deleted.toInt with h | h | h
            · simp [h0', hdel', hlt, h]
              omega
            · simp [h0', hdel', h]
            · simp [h0', hdel', hlt, h]
              omega

theorem upTo_ne_nil {nth : Int} {found : List ObjId} (h : found ≠ []) : upTo nth found ≠ [] := by
  cases found with
  | nil => exact absurd rfl h
  | cons o found =>
      rw [upTo_cons]
      exact List.cons_ne_nil _ _

theorem allMatches_length_le :
    (allMatches db test otype parentOid procOid ts).length ≤ idlistMax := by
  unfold allMatches
  rw [List.length_map, idlistMax_eq_objMax]
  refine (List.length_filter_le ..).trans ?_
  rw [List.length_map, List.length_range]

theorem upTo_length_le (nth : Int) (found : List ObjId) :
    (upTo nth found).length ≤ found.length := by
  unfold upTo
  split
  · exact List.length_take_le' ..
  · exact Nat.le_refl _

/-- The scan agrees, without a match on the parent, and otherwise unless a full list ends with
what the caller had left in it. -/
theorem scan_consistent_iff (hids : OidsAgree db ts)
    (hpos : ∀ i, (db.objmeta i).oid ≠ 0 → 0 < (db.objmeta i).oid)
    (hname : searchName env.atomic q.name q.otype = .scan test otype) :
    q.Consistent env.atomic db ts ↔
      match allMatches db test otype q.parentOid q.procOid ts with
      | [] => q.parentOid ≠ 0 → ∀ i, db.findmetaById q.parentOid = some i →
          (db.objmeta i).ParentAgrees ts
      | found => ∀ idlist, q.idlist = some idlist → idlistMax ≤ (upTo q.nth found).length →
          idlist (idlistMax - 1) = 0 ∨ Shown db (idlist (idlistMax - 1)) ts := by
  have hmatch : ∀ o ∈ allMatches db test otype q.parentOid q.procOid ts, o ≠ 0 ∧ Shown db o ts := by
    intro o ho
    obtain ⟨i, hi, rfl, hm⟩ := mem_allMatches.mp ho
    obtain ⟨hne, hlisted⟩ := ObjInfo.matches_times hm
    exact ⟨hne, hids.shown hi (hpos i hne) hlisted⟩
  have hmax : (allMatches db test otype q.parentOid q.procOid ts).length ≤ idlistMax :=
    allMatches_length_le
  unfold Query.Consistent Query.answer Query.NoMatch searchDb
  rw [hname]
  dsimp only
  rw [searchTable_eq]
  generalize allMatches db test otype q.parentOid q.procOid ts = found at hmatch hmax ⊢
  cases found with
  | nil =>
      have hnil : upTo q.nth [] = [] := by simp [upTo]
      unfold searchAnswer
      rw [hnil, if_pos rfl]
      dsimp only
      constructor
      · rintro ⟨-, hparent⟩ h0
        obtain ⟨ret, list, heq, hret⟩ := hparent h0 rfl
        cases heq
        exact (noMatch_agrees_iff h0).mp hret
      · intro hagrees
        refine ⟨fun _ _ _ heq => (by cases heq), fun h0 _ => ⟨_, _, rfl, ?_⟩⟩
        exact (noMatch_agrees_iff h0).mpr (hagrees h0)
  | cons o rest =>
      have hne : upTo q.nth (o :: rest) ≠ [] := upTo_ne_nil (List.cons_ne_nil o rest)
      have hsub := upTo_subset q.nth (o :: rest)
      have hlen := upTo_length_le q.nth (o :: rest)
      dsimp only
      cases hlist : q.idlist with
      | none =>
          refine ⟨fun _ idlist heq => (by cases heq), fun _ => ⟨fun c ret list heq hmem => ?_,
            fun _ hnil => (by cases hnil)⟩⟩
          have hmem' := answer_mem (congrArg Prod.fst heq)
          unfold searchAnswer at heq
          rw [if_neg hne] at heq
          obtain rfl : none = list := (Prod.mk.inj heq).2
          cases hmem
          exact (hmatch _ hmem').2
      | some idlist =>
          generalize upTo q.nth (o :: rest) = found at hne hsub hlen ⊢
          unfold searchAnswer
          rw [if_neg hne]
          dsimp only
          have hne' : ∀ c ∈ found, c ≠ 0 := fun c hc => (hmatch c (hsub hc)).1
          have hpos' : 0 < idlistMax := by
            unfold idlistMax
            decide
          constructor
          · rintro ⟨hreturned, -⟩ _ heq hfull
            cases heq
            have hlen' : found.length = idlistMax := by omega
            by_cases h0 : idlist (idlistMax - 1) = 0
            · exact Or.inl h0
            · refine Or.inr (hreturned _ _ _ rfl ?_)
              exact (mem_entries_full hlen' hpos' hne').mpr (Or.inr ⟨rfl, h0⟩)
          · intro hlast
            refine ⟨fun c ret list heq hmem => ?_, fun _ hnil => (by cases hnil)⟩
            cases heq
            have hmem : c ∈ (idlist.fill found).entries := hmem
            by_cases hfull : idlistMax ≤ found.length
            · have hlen' : found.length = idlistMax := by omega
              rcases (mem_entries_full hlen' hpos' hne').mp hmem with htake | ⟨rfl, h0⟩
              · exact (hmatch c (hsub (List.mem_of_mem_take htake))).2
              · exact (hlast idlist rfl hfull).resolve_left h0
            · rw [entries_fill (by omega) hne'] at hmem
              exact (hmatch c (hsub hmem)).2

/-! ## Every reachable table -/

/-- An occupied slot is in the table and has a positive oid. -/
def OidsPositive (t : Nat → ObjInfo) : Prop := ∀ i, (t i).oid ≠ 0 → 0 < (t i).oid

theorem OidsPositive.update {t : Nat → ObjInfo} {i : Nat} {info : ObjInfo} (ht : OidsPositive t)
    (hinfo : info.oid ≠ 0 → 0 < info.oid) : OidsPositive (Function.update t i info) := by
  intro j
  by_cases hji : j = i
  · rw [hji, Function.update_self]
    exact hinfo
  · rw [Function.update_of_ne hji]
    exact ht j

theorem keepsEffects_oidsPositive :
    KeepsEffects env False fun w => OidsPositive w.db.objmeta where
  idle w w' hw hdb _ := by rwa [hdb]
  mark w i k proc hw _ := hw.update (hw i)
  purge w i hw _ := by
    rw [purged_objmeta]
    exact hw.update fun hne => absurd rfl hne

section

variable [Rounding]

theorem oidsPositive_step {heapSize : Int} {s s' : RunState} {op : Op}
    (ht : OidsPositive s.world.db.objmeta) (hs : (apiLts env heapSize).step s op = some s') :
    OidsPositive s'.world.db.objmeta := by
  obtain ⟨events, hrun, -⟩ := apiLts_step hs
  have hchange : ∀ h oid metadata, op = .changeinfo h oid metadata →
      KeepsChange (fun w => OidsPositive w.db.objmeta) s.world.db h oid metadata :=
    fun _ _ _ _ w i hw _ _ _ => hw.update (hw i)
  rcases op_cases_keeps keepsEffects_oidsPositive hchange (fun hk => hk.elim) ht hrun with
    ⟨h, metadata, r, rfl, hins, -⟩ | ⟨h, oid, data, out, rfl, hout, hw, -⟩ | ⟨ht', -⟩
  · rcases insert_table hins with ⟨hobj, -⟩ | ⟨i, newIdx, m', w₁, -, hslot, -, hcases⟩
    · rwa [hobj]
    rcases hcases with ⟨-, -, hobj⟩ | ⟨hpos, -, hobj⟩
    · rw [hobj]
      exact ht.update fun hne => absurd hslot.db_eq.2.2 hne
    · rw [hobj]
      generalize s.world.db.nextOid = oid at hpos ⊢
      exact ht.update fun _ => hpos
  · rw [hw]
    rcases writedata_cases hout with ⟨e, -, hdb⟩ | ⟨i, -, -, -, -, -, hdb⟩ <;> rw [hdb]
    · exact ht
    · exact ht.update (ht i)
  · exact ht'

theorem oidsPositive_of_reachable {heapSize : Int} {s : RunState}
    (h : (apiLts env heapSize).Reachable s) : OidsPositive s.world.db.objmeta := by
  refine h.invariant (I := fun s => OidsPositive s.world.db.objmeta) ?_
    fun s op s' ht hs => oidsPositive_step ht hs
  rintro s rfl i hi
  exact absurd (initial_oid env.atomic heapSize i) hi

/-- The calls agree on which objects are there at a time if the oids in the table do, and the
search is not one of those that leave out a test or turn it round. -/
theorem oneVisibility_iff {heapSize : Int} {s : RunState}
    (h : (apiLts env heapSize).Reachable s) (q : Query) (ts : Timestamp) :
    OneVisibility env.atomic s.world q ts ↔
      OidsAgree s.world.db ts ∧ q.Agrees env.atomic s.world.db ts := by
  rw [oneVisibility_iff_consistent]
  refine and_congr_right fun hids => ?_
  unfold Query.Agrees
  cases hname : searchName env.atomic q.name q.otype with
  | oid oid => exact direct_consistent_iff hname
  | scan test otype => exact scan_consistent_iff hids (oidsPositive_of_reachable h) hname
  | badPattern =>
      unfold Query.Consistent Query.answer Query.NoMatch searchDb
      rw [hname]
      refine iff_of_true ⟨fun _ _ _ heq => ?_, fun _ hno => hno.elim⟩ trivial
      cases heq

end

/-- The oids agree if no two slots have the same and every object has a `created_ts`. -/
theorem oidsAgree_of_distinct
    (hdistinct : ∀ i < objMax, ∀ j < objMax, (db.objmeta i).oid ≠ 0 →
      (db.objmeta j).oid = (db.objmeta i).oid → j = i)
    (hcreated : ∀ i < objMax, (db.objmeta i).oid ≠ 0 → (db.objmeta i).createdTs ≠ 0) :
    OidsAgree db ts where
  unmasked i j hpos hfind hhidden hj hlisted heq := by
    obtain ⟨hi, -⟩ := Db.findmetaById_some hfind
    rw [hdistinct i hi j hj (Int.ne_of_gt hpos) heq] at hlisted
    have hvisible := hlisted.2
    rw [hhidden] at hvisible
    cases hvisible
  stamped i hpos hfind hhidden := by
    obtain ⟨hi, -⟩ := Db.findmetaById_some hfind
    exact ⟨i, hi, rfl, hcreated i hi (Int.ne_of_gt hpos), hhidden⟩

/-- An environment in which `~(1)` stands for object 1. -/
def directEnv : Env :=
  { exampleEnv 4096 with directOid := fun name => if name = ['~', '(', '1', ')'] then 1 else 0 }

/-- A search for `~(1)`. -/
def directQuery : Query := ⟨some ['~', '(', '1', ')'], 0, 0, 0, none, 1⟩

/-- One live object, found by its oid. -/
theorem oneVisibility_iff_live :
    ∃ s, (apiLts directEnv 4096).Reachable s ∧ insertedOids s.log = [1] ∧
      OneVisibility directEnv.atomic s.world directQuery 0 := by
  obtain ⟨s, hr, hp⟩ := (apiLts directEnv 4096).exists_of_exec [.insert aProcess anObject]
    (fun s => decide (insertedOids s.log = [1] ∧ s.world.db.findmetaById 1 = some 0 ∧
      (s.world.db.objmeta 0).hidden 0 = false ∧ (s.world.db.objmeta 0).createdTs ≠ 0 ∧
      ∀ i < objMax, (s.world.db.objmeta i).oid ≠ 0 → i = 0))
    (s := ⟨World.initial directEnv.atomic 4096, []⟩) rfl (by decide +kernel)
  obtain ⟨hlog, hfind, hhidden, hcreated, hslots⟩ := of_decide_eq_true hp
  refine ⟨s, hr, hlog, (oneVisibility_iff hr directQuery 0).mpr ⟨?_, ?_⟩⟩
  · refine oidsAgree_of_distinct (fun i hi j hj hne heq => ?_) fun i hi hne => ?_
    · rw [hslots i hi hne, hslots j hj (by rwa [heq])]
    · rw [hslots i hi hne]
      exact hcreated
  · have hname : searchName directEnv.atomic directQuery.name directQuery.otype = .oid 1 := rfl
    unfold Query.Agrees
    rw [hname]
    dsimp only
    rw [hfind]
    intro h
    rw [hhidden] at h
    cases h

/-- An object is deleted. It is still found by its oid, and at the time it was created it is
there but not as a parent. -/
theorem exists_not_oneVisibility :
    ∃ s, (apiLts directEnv 4096).Reachable s ∧
      ¬ OneVisibility directEnv.atomic s.world directQuery 0 ∧
      ∃ ts, ¬ OneVisibility directEnv.atomic s.world ⟨none, 0, 1, 0, none, 1⟩ ts := by
  obtain ⟨s, hr, hp⟩ := (apiLts directEnv 4096).exists_of_exec
    [.insert aProcess anObject, .deleteImm aProcess { anObject with oid := 1 } false 1]
    (fun s => decide (s.world.db.findmetaById 1 = some 0 ∧
      (s.world.db.objmeta 0).hidden 0 = true ∧
      allMatches s.world.db .any 0 1 0 (s.world.db.objmeta 0).createdTs = [] ∧
      (s.world.db.objmeta 0).createdTs ≠ 0 ∧ (s.world.db.objmeta 0).deletedTs ≠ 0 ∧
      (s.world.db.objmeta 0).deletedTs ≠ (s.world.db.objmeta 0).createdTs))
    (s := ⟨World.initial directEnv.atomic 4096, []⟩) rfl (by decide +kernel)
  obtain ⟨hfind, hhidden, hnone, hcreated, hdeleted, hne⟩ := of_decide_eq_true hp
  refine ⟨s, hr, fun hv => ?_, (s.world.db.objmeta 0).createdTs, fun hv => ?_⟩
  · have hcons := (oneVisibility_iff_consistent.mp hv).2
    have hname : searchName directEnv.atomic directQuery.name directQuery.otype = .oid 1 := rfl
    rw [direct_consistent_iff hname, hfind] at hcons
    exact (hcons hhidden).2 rfl
  · obtain ⟨hids, hcons⟩ := oneVisibility_iff_consistent.mp hv
    have hname : searchName directEnv.atomic none 0 = .scan .any 0 := rfl
    rw [scan_consistent_iff hids (oidsPositive_of_reachable hr) hname, hnone] at hcons
    rcases hcons (by decide) 0 hfind with h | ⟨-, h | h⟩ | ⟨h, -⟩
    · exact hcreated h
    · exact hdeleted h
    · exact hne h
    · exact Int.lt_irrefl _ h

end KogmoRtdb
