import Mathlib.Data.Finset.Card
import KogmoRtdb.Lib.Marking
import KogmoRtdb.Meta.ObjectIds
import KogmoRtdb.Meta.Unique

/-!
# What a delete leaves

`kogmo_rtdb_obj_delete_imm` with nobody else at work: it returns, and the objects that are live
afterwards are those that were, but for the object itself and what it takes along. Of the objects
with `parent_delete` it takes those that the calling process may delete, and what these take along.

Slots are the nodes of the graph, since an oid names at most one of them.
-/

namespace KogmoRtdb

open Prog Marking

variable {env : Env} {h : Handle} {w w' : World} {t t₀ : Nat → ObjInfo}

/-! ## Searches -/

theorem entries_fill {idlist : IdList} {found : List ObjId} (hlen : found.length < idlistMax)
    (hne : ∀ c ∈ found, c ≠ 0) : (idlist.fill found).entries = found := by
  have hend : idlist.fill found found.length = 0 := by
    have hend := idlist.fill_end found
    rwa [Nat.min_eq_left (by omega)] at hend
  have hmap : (List.range found.length).map (idlist.fill found) = found := by
    refine List.ext_getElem (by simp) fun k hk hk' => ?_
    rw [List.getElem_map, List.getElem_range]
    exact idlist.fill_getElem hk' (by omega)
  rw [IdList.entries_of_end (by omega) hend, hmap]
  exact List.takeWhile_eq_self_iff.mpr fun c hc => decide_eq_true (hne c hc)

theorem mem_searchTable_iff {db : Db} {parentOid procOid : Int} {includedeleted : Bool}
    {c : ObjId} :
    c ∈ searchTable db .any 0 parentOid procOid 0 0 includedeleted ↔
      ∃ i < objMax, (db.objmeta i).oid = c ∧ c ≠ 0 ∧ (db.objmeta i).createdTs ≠ 0 ∧
        ((db.objmeta i).parentOid = parentOid ∨ parentOid = 0) ∧
        ((db.objmeta i).createdProc = procOid ∨ procOid = 0) ∧
        ((db.objmeta i).deletedTs = 0 ∨ includedeleted = true) := by
  have hmatch (info : ObjInfo) :
      info.matches .any 0 parentOid procOid 0 includedeleted = true ↔
        info.oid ≠ 0 ∧ info.createdTs ≠ 0 ∧ (info.parentOid = parentOid ∨ parentOid = 0) ∧
          (info.createdProc = procOid ∨ procOid = 0) ∧
          (info.deletedTs = 0 ∨ includedeleted = true) := by
    cases includedeleted <;> simp [ObjInfo.matches, NameTest.ok] <;> tauto
  unfold searchTable
  rw [if_neg (by decide), List.mem_map]
  constructor
  · rintro ⟨info, hmem, rfl⟩
    obtain ⟨hmem, hm⟩ := List.mem_filter.mp hmem
    obtain ⟨i, hi, rfl⟩ := List.mem_map.mp hmem
    obtain ⟨h1, h2, h3, h4, h5⟩ := (hmatch _).mp hm
    exact ⟨i, List.mem_range.mp hi, rfl, h1, h2, h3, h4, h5⟩
  · rintro ⟨i, hi, rfl, h1, h2, h3, h4, h5⟩
    exact ⟨db.objmeta i, List.mem_filter.mpr ⟨List.mem_map.mpr ⟨i, List.mem_range.mpr hi, rfl⟩,
      (hmatch _).mpr ⟨h1, h2, h3, h4, h5⟩⟩, rfl⟩

theorem searchinfoMode_eq (hremap : env.nameRemap [] = []) (parentOid procOid : ObjId)
    (idlist : IdList) (nolock includedeleted : Bool) (w : World) :
    ∃ w', w'.db = w.db ∧
      searchinfoMode env.atomic (some []) 0 parentOid procOid 0 (some idlist) 0 nolock
        includedeleted w = some (searchAnswer w.db
          (searchTable w.db .any 0 parentOid procOid 0 0 includedeleted) parentOid 0
          (some idlist) 0, w') := by
  have hname : searchName env.atomic (some []) 0 = .scan .any 0 := by
    have hremap : env.atomic.nameRemap [] = [] := hremap
    simp only [searchName, hremap]
  have hlock : (w.lock env.atomic).db = w.db := atomic_lock_db w
  rw [searchinfoMode_matches, hname]
  cases nolock with
  | true => exact ⟨w, rfl, rfl⟩
  | false =>
      refine ⟨(w.lock env.atomic).unlock, hlock, ?_⟩
      refine bind_some.mpr ⟨_, _, rfl, bind_some.mpr ⟨_, _, rfl, bind_some.mpr ⟨_, _, rfl,
        bind_some.mpr ⟨_, _, rfl, ?_⟩⟩⟩⟩
      rw [show (w.lock env.atomic).unlock.db = w.db from hlock, hlock]
      rfl

theorem searchinfoMode_run (hremap : env.nameRemap [] = []) {parentOid procOid : ObjId}
    {idlist : IdList} {nolock includedeleted : Bool} (w : World)
    (hlen : (searchTable w.db .any 0 parentOid procOid 0 0 includedeleted).length < idlistMax) :
    ∃ ret out w', searchinfoMode env.atomic (some []) 0 parentOid procOid 0 (some idlist) 0 nolock
        includedeleted w = some ((ret, some out), w') ∧ w'.db = w.db ∧
      ((∃ e, ret = .error e) ∧ searchTable w.db .any 0 parentOid procOid 0 0 includedeleted = [] ∨
        (∃ n, ret = .ok n) ∧
          out.entries = searchTable w.db .any 0 parentOid procOid 0 0 includedeleted) := by
  obtain ⟨w₁, hdb, hrun⟩ :=
    searchinfoMode_eq hremap parentOid procOid idlist nolock includedeleted w
  unfold searchAnswer at hrun
  by_cases hnil : searchTable w.db .any 0 parentOid procOid 0 0 includedeleted = []
  · rw [if_pos hnil] at hrun
    exact ⟨_, _, w₁, hrun, hdb, Or.inl ⟨⟨_, rfl⟩, hnil⟩⟩
  · rw [if_neg hnil] at hrun
    refine ⟨_, _, w₁, hrun, hdb, Or.inr ⟨⟨_, rfl⟩, entries_fill hlen fun c hc => ?_⟩⟩
    obtain ⟨i, -, -, hne, -⟩ := mem_searchTable_iff.mp hc
    exact hne

theorem findChildren_run (hremap : env.nameRemap [] = []) (oid : ObjId) (w : World)
    (hlen : (searchTable w.db .any 0 oid 0 0 0 false).length < idlistMax) :
    findChildren env.atomic oid w = some (searchTable w.db .any 0 oid 0 0 0 false, w) := by
  obtain ⟨ret, out, w₁, hrun, -, hcases⟩ : ∃ ret out w', searchinfoNolock env.atomic (some []) 0
      oid 0 0 (some env.atomic.uninit.clear) 0 w = some ((ret, some out), w') ∧ _ :=
    searchinfoMode_run hremap w hlen
  obtain rfl := searchinfoNolock_some hrun
  refine bind_some.mpr ⟨_, _, hrun, ?_⟩
  rcases hcases with ⟨⟨e, rfl⟩, hnil⟩ | ⟨⟨n, rfl⟩, hout⟩
  · rw [hnil]
    rfl
  · rw [← hout]
    rfl

/-! ## What is live -/

def liveSlots (t : Nat → ObjInfo) : Set Nat := {i | (t i).Live}

/-- The object in slot `j` is taken along when that in slot `i` is deleted. -/
def Takes (h : Handle) (t : Nat → ObjInfo) (i j : Nat) : Prop :=
  (t j).Live ∧ (t j).parentOid = (t i).oid ∧ (t j).flags.parentDelete = true ∧
    (t j).writeDenied h = false

def Accepts (h : Handle) (info : ObjInfo) (immediatelyDelete : Bool) : Prop :=
  info.writeDenied h = false ∧
    (info.deletedTs = 0 ∨ info.flags.immediatelyDelete = true ∨ immediatelyDelete = true)

/-- The table, all objects of it being fully inserted. -/
structure InsertedTable (t : Nat → ObjInfo) : Prop extends OidTable t where
  createdTs : ∀ i, (t i).oid ≠ 0 → (t i).createdTs ≠ 0

/-- The table `t` is what deletes have left of `t₀`. -/
structure Remains (t₀ t : Nat → ObjInfo) : Prop where
  parentOid : ∀ i, (t i).parentOid = (t₀ i).parentOid
  flags : ∀ i, (t i).flags = (t₀ i).flags
  createdProc : ∀ i, (t i).createdProc = (t₀ i).createdProc
  createdTs : ∀ i, (t i).createdTs = (t₀ i).createdTs
  oid : ∀ i, (t i).oid ≠ 0 → (t i).oid = (t₀ i).oid
  live : liveSlots t ⊆ liveSlots t₀

/-- The object in a slot is marked as deleted, and perhaps given up. -/
structure Marked (info info' : ObjInfo) : Prop where
  parentOid : info'.parentOid = info.parentOid
  flags : info'.flags = info.flags
  createdProc : info'.createdProc = info.createdProc
  createdTs : info'.createdTs = info.createdTs
  oid : info'.oid ≠ 0 → info'.oid = info.oid
  deletedTs : info'.deletedTs ≠ 0

theorem Remains.refl : Remains t t where
  parentOid _ := rfl
  flags _ := rfl
  createdProc _ := rfl
  createdTs _ := rfl
  oid _ _ := rfl
  live := Set.Subset.refl _

theorem Marked.not_live {info info' : ObjInfo} (hm : Marked info info') : ¬ info'.Live :=
  fun hlive => hm.deletedTs hlive.2

theorem liveSlots_mark {i : Nat} {info : ObjInfo} (hm : Marked (t i) info) :
    liveSlots (Function.update t i info) = liveSlots t \ {i} := by
  ext j
  by_cases hji : j = i
  · subst hji
    refine iff_of_false ?_ fun hj => hj.2 rfl
    unfold liveSlots
    rw [Set.mem_ofPred_eq, Function.update_self]
    exact hm.not_live
  · unfold liveSlots
    rw [Set.mem_ofPred_eq, Function.update_of_ne hji]
    exact ⟨fun hj => ⟨hj, hji⟩, fun hj => hj.1⟩

theorem Remains.mark {i : Nat} {info : ObjInfo} (hr : Remains t₀ t) (hm : Marked (t i) info) :
    Remains t₀ (Function.update t i info) := by
  have hcases {P : ObjInfo → ObjInfo → Prop} (hself : P info (t₀ i))
      (hother : ∀ j, P (t j) (t₀ j)) (j : Nat) : P (Function.update t i info j) (t₀ j) := by
    by_cases hji : j = i
    · rw [hji, Function.update_self]
      exact hself
    · rw [Function.update_of_ne hji]
      exact hother j
  exact {
    parentOid := hcases (P := fun a b => a.parentOid = b.parentOid)
      (hm.parentOid.trans (hr.parentOid i)) hr.parentOid
    flags := hcases (P := fun a b => a.flags = b.flags) (hm.flags.trans (hr.flags i)) hr.flags
    createdProc := hcases (P := fun a b => a.createdProc = b.createdProc)
      (hm.createdProc.trans (hr.createdProc i)) hr.createdProc
    createdTs := hcases (P := fun a b => a.createdTs = b.createdTs)
      (hm.createdTs.trans (hr.createdTs i)) hr.createdTs
    oid := hcases (P := fun a b => a.oid ≠ 0 → a.oid = b.oid)
      (fun hne => (hm.oid hne).trans (hr.oid i (by rwa [← hm.oid hne]))) hr.oid
    live := by
      rw [liveSlots_mark hm]
      exact Set.sdiff_subset.trans hr.live }

/-! ## The critical section -/

theorem deleteLocked_refused (env : Env) {metadata : ObjInfo} {immediatelyDelete : Bool}
    (hno : ∀ i, w.db.findmetaById metadata.oid = some i →
      ¬ Accepts h (w.db.objmeta i) immediatelyDelete) :
    ∃ e w', deleteLocked env.atomic h metadata immediatelyDelete w =
      some ((.error e, metadata, []), w') ∧ w'.db = w.db := by
  have hdb : (w.lock env.atomic).db = w.db := atomic_lock_db w
  have hunlock : (w.lock env.atomic).unlock.db = w.db := hdb
  cases hi : w.db.findmetaById metadata.oid with
  | none =>
      refine ⟨.notFound, _, bind_some.mpr ⟨⟨⟩, w.lock env.atomic, rfl,
        bind_some.mpr ⟨_, _, rfl, ?_⟩⟩, hunlock⟩
      rw [hdb, hi]
      rfl
  | some i =>
      by_cases hdenied : (w.db.objmeta i).writeDenied h = true
      · refine ⟨.noPerm, _, bind_some.mpr ⟨⟨⟩, w.lock env.atomic, rfl,
          bind_some.mpr ⟨_, _, rfl, ?_⟩⟩, hunlock⟩
        rw [hdb, hi]
        dsimp only
        rw [if_pos hdenied]
        rfl
      · have hdeleted : (w.db.objmeta i).deletedTs ≠ 0 ∧
            !(w.db.objmeta i).flags.immediatelyDelete ∧ !immediatelyDelete := by
          have hrefused := hno i hi
          unfold Accepts at hrefused
          simp only [Bool.not_eq_true] at hdenied
          simp only [hdenied, true_and, not_or, Bool.not_eq_true] at hrefused
          simpa using hrefused
        refine ⟨.notFound, _, bind_some.mpr ⟨⟨⟩, w.lock env.atomic, rfl,
          bind_some.mpr ⟨_, _, rfl, ?_⟩⟩, hunlock⟩
        rw [hdb, hi]
        dsimp only
        rw [if_neg hdenied, if_pos hdeleted]
        rfl

/-- An accepted delete marks the object and has the children that were found. -/
theorem deleteLocked_marks (hnow : ∀ k, env.now k ≠ 0) {metadata : ObjInfo}
    {immediatelyDelete : Bool} {children : List ObjId} {i : Nat}
    (hi : w.db.findmetaById metadata.oid = some i)
    (hacc : Accepts h (w.db.objmeta i) immediatelyDelete)
    (hchildren : findChildren env.atomic metadata.oid (w.lock env.atomic) =
      some (children, w.lock env.atomic)) :
    ∃ n metadata' w' info, deleteLocked env.atomic h metadata immediatelyDelete w =
        some ((.ok n, metadata', children), w') ∧
      w'.db.objmeta = Function.update w.db.objmeta i info ∧ Marked (w.db.objmeta i) info := by
  have hdb : (w.lock env.atomic).db = w.db := atomic_lock_db w
  have hdeleted : ¬ ((w.db.objmeta i).deletedTs ≠ 0 ∧
      !(w.db.objmeta i).flags.immediatelyDelete ∧ !immediatelyDelete) := by
    rcases hacc.2 with h1 | h1 | h1 <;> simp [h1]
  let info : ObjInfo := { w.db.objmeta i with
    deletedProc := h.procOid, deletedTs := env.now (w.lock env.atomic).tick }
  let w₁ : World := (w.lock env.atomic).ask.write fun db => db.setMeta i info
  have hobj : w₁.db.objmeta = Function.update w.db.objmeta i info :=
    congrArg (fun db : Db => Function.update db.objmeta i info) hdb
  have hmark : Marked (w.db.objmeta i) info :=
    ⟨rfl, rfl, rfl, rfl, fun _ => rfl, hnow _⟩
  have hlocked {w' : World}
      (hpurge : Prog.when (info.flags.immediatelyDelete || immediatelyDelete) (purgeslot i) w₁ =
        some (⟨⟩, w')) :
      deleteLocked env.atomic h metadata immediatelyDelete w =
        some ((.ok 0, info, children), w'.unlock) := by
    refine bind_some.mpr ⟨⟨⟩, w.lock env.atomic, rfl, bind_some.mpr ⟨_, _, rfl, ?_⟩⟩
    rw [hdb, hi]
    dsimp only
    rw [hacc.1, if_neg Bool.false_ne_true, if_neg hdeleted]
    exact bind_some.mpr ⟨_, _, hchildren, bind_some.mpr ⟨_, _, rfl, bind_some.mpr ⟨_, _, rfl,
      bind_some.mpr ⟨_, _, hpurge, rfl⟩⟩⟩⟩
  by_cases himm : info.flags.immediatelyDelete || immediatelyDelete
  · refine ⟨0, info, (w₁.purged i).unlock, { info with oid := 0 }, hlocked ?_, ?_,
      ⟨rfl, rfl, rfl, rfl, fun hne => absurd rfl hne, hnow _⟩⟩
    · rw [Prog.when_pos himm]
      exact purgeslot_eq i w₁
    · have hpurged : (w₁.purged i).unlock.db.objmeta = _ := purged_objmeta i w₁
      rw [hpurged, hobj, Function.update_self, Function.update_idem]
  · refine ⟨0, info, w₁.unlock, info, hlocked ?_, hobj, hmark⟩
    unfold Prog.when
    rw [if_neg himm]
    rfl

theorem deleteLocked_accepted (hremap : env.nameRemap [] = []) (hnow : ∀ k, env.now k ≠ 0)
    {metadata : ObjInfo} {immediatelyDelete : Bool} {i : Nat}
    (hi : w.db.findmetaById metadata.oid = some i)
    (hacc : Accepts h (w.db.objmeta i) immediatelyDelete)
    (hlen : (searchTable w.db .any 0 metadata.oid 0 0 0 false).length < idlistMax) :
    ∃ n metadata' w' info, deleteLocked env.atomic h metadata immediatelyDelete w =
        some ((.ok n, metadata', searchTable w.db .any 0 metadata.oid 0 0 0 false), w') ∧
      w'.db.objmeta = Function.update w.db.objmeta i info ∧ Marked (w.db.objmeta i) info := by
  have hrun := findChildren_run hremap metadata.oid (w.lock env.atomic)
  rw [atomic_lock_db] at hrun
  exact deleteLocked_marks hnow hi hacc (hrun hlen)

/-! ## How deep it goes -/

def liveCount (t : Nat → ObjInfo) : Nat := ((Finset.range objMax).filter fun i => (t i).Live).card

theorem liveCount_le (hsub : liveSlots t ⊆ liveSlots t₀) : liveCount t ≤ liveCount t₀ := by
  refine Finset.card_le_card fun i hi => ?_
  obtain ⟨hrange, hlive⟩ := Finset.mem_filter.mp hi
  exact Finset.mem_filter.mpr ⟨hrange, hsub hlive⟩

theorem liveCount_lt {i : Nat} (hsub : liveSlots t ⊆ liveSlots t₀) (hi : i < objMax)
    (hlive : i ∈ liveSlots t₀) (hdead : i ∉ liveSlots t) : liveCount t < liveCount t₀ := by
  refine Finset.card_lt_card ((Finset.ssubset_iff_of_subset fun j hj => ?_).mpr
    ⟨i, Finset.mem_filter.mpr ⟨Finset.mem_range.mpr hi, hlive⟩,
      fun h => hdead (Finset.mem_filter.mp h).2⟩)
  obtain ⟨hrange, hj⟩ := Finset.mem_filter.mp hj
  exact Finset.mem_filter.mpr ⟨hrange, hsub hj⟩

theorem liveCount_le_objMax (t : Nat → ObjInfo) : liveCount t ≤ objMax := by
  refine (Finset.card_filter_le _ _).trans ?_
  rw [Finset.card_range]

/-! ## The recursion -/

def Roomy (t : Nat → ObjInfo) (oid : ObjId) : Prop := ∃ i < objMax, (t i).parentOid ≠ oid

def Spare (t : Nat → ObjInfo) (oid : ObjId) : Prop :=
  ∃ i < objMax, ¬ ((t i).Live ∧ (t i).parentOid = oid)

theorem Roomy.spare {oid : ObjId} (hr : Roomy t oid) : Spare t oid := by
  obtain ⟨i, hi, hne⟩ := hr
  exact ⟨i, hi, fun hchild => hne hchild.2⟩

theorem Spare.remains {oid : ObjId} (hs : Spare t₀ oid) (hr : Remains t₀ t) : Spare t oid := by
  obtain ⟨i, hi, hno⟩ := hs
  exact ⟨i, hi, fun hchild => hno ⟨hr.live hchild.1, by rw [← hr.parentOid]; exact hchild.2⟩⟩

theorem Spare.length_lt {db : Db} {oid : ObjId} (hs : Spare db.objmeta oid) (hoid : oid ≠ 0) :
    (searchTable db .any 0 oid 0 0 0 false).length < idlistMax := by
  obtain ⟨i, hi, hno⟩ := hs
  have hlen : ((List.range objMax).map db.objmeta).length = objMax := by simp
  unfold searchTable
  rw [if_neg (by decide), List.length_map, idlistMax_eq_objMax]
  refine Nat.lt_of_lt_of_eq (List.length_filter_lt_length_iff_exists.mpr
    ⟨db.objmeta i, List.mem_map.mpr ⟨i, List.mem_range.mpr hi, rfl⟩, fun hmatch => hno ?_⟩) hlen
  simp only [ObjInfo.matches, Bool.and_eq_true, Bool.or_eq_true, decide_eq_true_eq] at hmatch
  obtain ⟨⟨⟨⟨⟨⟨⟨hocc, -⟩, -⟩, hparent⟩, -⟩, hdel⟩, -⟩, -⟩ := hmatch
  exact ⟨⟨hocc, by simpa using hdel⟩, hparent.resolve_right hoid⟩

/-- A delete of the object in slot `x` leaves the table as it is, or takes the object out with
everything that goes along, and touches no other object that was not live. -/
def DeleteOutcome (h : Handle) (t₀ : Nat → ObjInfo) (x : Nat) (immediatelyDelete : Bool)
    (db db' : Db) : Prop :=
  ¬ ((db.objmeta x).oid ≠ 0 ∧ Accepts h (db.objmeta x) immediatelyDelete) ∧ db' = db ∨
  ((db.objmeta x).oid ≠ 0 ∧ Accepts h (db.objmeta x) immediatelyDelete) ∧
    Remains t₀ db'.objmeta ∧
    Pass (Takes h t₀) {x} (liveSlots db.objmeta) (liveSlots db'.objmeta) ∧
    (x ∉ liveSlots db'.objmeta ∧ ∀ b, Takes h t₀ x b → b ∉ liveSlots db'.objmeta) ∧
    ∀ i, i ∉ liveSlots t₀ → i ≠ x → db'.objmeta i = db.objmeta i

theorem DeleteOutcome.remains {x : Nat} {imm : Bool} {db db' : Db}
    (ho : DeleteOutcome h t₀ x imm db db') (hr : Remains t₀ db.objmeta) :
    Remains t₀ db'.objmeta := by
  rcases ho with ⟨-, rfl⟩ | ⟨-, hr', -⟩
  · exact hr
  · exact hr'

theorem DeleteOutcome.subset {x : Nat} {imm : Bool} {db db' : Db}
    (ho : DeleteOutcome h t₀ x imm db db') :
    liveSlots db'.objmeta ⊆ liveSlots db.objmeta := by
  rcases ho with ⟨-, rfl⟩ | ⟨-, -, hpass, -⟩
  · exact Set.Subset.refl _
  · exact hpass.subset

theorem DeleteOutcome.frame {x : Nat} {imm : Bool} {db db' : Db}
    (ho : DeleteOutcome h t₀ x imm db db') {i : Nat} (hi : i ∉ liveSlots t₀) (hix : i ≠ x) :
    db'.objmeta i = db.objmeta i := by
  rcases ho with ⟨-, rfl⟩ | ⟨-, -, -, -, hframe⟩
  · rfl
  · exact hframe i hi hix

theorem findmetaById_slot (ht : InsertedTable t₀) {db : Db} (hr : Remains t₀ db.objmeta) {x i : Nat}
    (hx : (t₀ x).oid ≠ 0) (hi : db.findmetaById (t₀ x).oid = some i) :
    i = x ∧ (db.objmeta x).oid ≠ 0 := by
  obtain ⟨-, hoid⟩ := Db.findmetaById_some hi
  have hocc : (db.objmeta i).oid ≠ 0 := by rwa [hoid]
  have heq := ht.unique i x (by rwa [← hr.oid i hocc]) ((hr.oid i hocc).symm.trans hoid)
  exact ⟨heq, heq ▸ hocc⟩

theorem findmetaById_present (ht : InsertedTable t₀) {db : Db} (hr : Remains t₀ db.objmeta)
    {x : Nat} (hocc : (db.objmeta x).oid ≠ 0) : db.findmetaById (t₀ x).oid = some x := by
  have hx : (t₀ x).oid ≠ 0 := by rwa [← hr.oid x hocc]
  cases hi : db.findmetaById (t₀ x).oid with
  | some i => rw [(findmetaById_slot ht hr hx hi).1]
  | none =>
      refine absurd (hr.oid x hocc) (Db.findmetaById_none (fun i hne => ?_) hx hi x)
      exact ht.bound i (by rwa [← hr.oid i hne])

theorem Remains.writeDenied (hr : Remains t₀ t) (h : Handle) (i : Nat) :
    (t i).writeDenied h = (t₀ i).writeDenied h := by
  unfold ObjInfo.writeDenied
  rw [hr.flags, hr.createdProc]

/-- What `kogmo_rtdb_obj_readinfo` finds of an object. -/
theorem readinfo_run (ht : InsertedTable t₀) {x : Nat} {metadata : ObjInfo} (hx : (t₀ x).oid ≠ 0)
    (hr : Remains t₀ w.db.objmeta) :
    ∃ w', w'.db = w.db ∧
      (x ∈ liveSlots w.db.objmeta ∧ readinfo env.atomic (t₀ x).oid 0 metadata w =
          some ((.ok 0, w.db.objmeta x), w') ∨
        x ∉ liveSlots w.db.objmeta ∧ readinfo env.atomic (t₀ x).oid 0 metadata w =
          some ((.error .notFound, metadata), w')) := by
  have hdb : (w.lock env.atomic).db = w.db := atomic_lock_db w
  have hhidden : (w.db.objmeta x).hidden 0 = true ↔ (w.db.objmeta x).deletedTs ≠ 0 := by
    simp [ObjInfo.hidden]
  refine ⟨(w.lock env.atomic).unlock, hdb, ?_⟩
  have hrun {r : Result × ObjInfo}
      (hr : (w.db.findmetaById (t₀ x).oid).elim (.error .notFound, metadata)
        (fun i => if (w.db.objmeta i).hidden 0 then (.error .notFound, metadata)
          else (.ok 0, w.db.objmeta i)) = r) :
      readinfo env.atomic (t₀ x).oid 0 metadata w = some (r, (w.lock env.atomic).unlock) := by
    refine bind_some.mpr ⟨⟨⟩, w.lock env.atomic, rfl, bind_some.mpr ⟨_, _, rfl, ?_⟩⟩
    rw [hdb, ← hr]
    cases w.db.findmetaById (t₀ x).oid with
    | none => rfl
    | some i =>
        dsimp only [Option.elim]
        split <;> rfl
  by_cases hocc : (w.db.objmeta x).oid = 0
  · refine Or.inr ⟨fun hlive => hlive.1 hocc, hrun ?_⟩
    cases hi : w.db.findmetaById (t₀ x).oid with
    | none => rfl
    | some i => exact absurd hocc (findmetaById_slot ht hr hx hi).2
  · have hi := findmetaById_present ht hr hocc
    by_cases hdel : (w.db.objmeta x).deletedTs = 0
    · refine Or.inl ⟨⟨hocc, hdel⟩, hrun ?_⟩
      rw [hi]
      exact if_neg fun hh => hhidden.mp hh hdel
    · refine Or.inr ⟨fun hlive => hdel hlive.2, hrun ?_⟩
      rw [hi]
      exact if_pos (hhidden.mpr hdel)

theorem deleteChild_run (ht : InsertedTable t₀) {del : ObjInfo → Call (Result × ObjInfo)}
    {x j : Nat}
    (hr : Remains t₀ w.db.objmeta) (hlive : j ∈ liveSlots t₀)
    (hparent : (t₀ j).parentOid = (t₀ x).oid)
    (hdel : ∀ {w' metadata}, w'.db = w.db → metadata.oid = (t₀ j).oid →
      j ∈ liveSlots w.db.objmeta → ((t₀ j).writeDenied h = false → Takes h t₀ x j) →
      ∃ r w'', del metadata w' = some (r, w'') ∧ DeleteOutcome h t₀ j false w.db w''.db) :
    ∃ w', deleteChild env.atomic del (t₀ j).oid w = some (⟨⟩, w') ∧ Remains t₀ w'.db.objmeta ∧
      Pass (Takes h t₀) {k | Takes h t₀ x k} (liveSlots w.db.objmeta) (liveSlots w'.db.objmeta) ∧
      (Takes h t₀ x j → j ∉ liveSlots w'.db.objmeta) ∧
      ∀ i, i ∉ liveSlots t₀ → w'.db.objmeta i = w.db.objmeta i := by
  obtain ⟨w₁, hdb, ⟨hj, hread⟩ | ⟨hj, hread⟩⟩ := readinfo_run ht hlive.1 hr
  · by_cases hflag : (w.db.objmeta j).flags.parentDelete = true
    · have htakes (hdenied : (t₀ j).writeDenied h = false) : Takes h t₀ x j :=
        ⟨hlive, hparent, by rw [← hr.flags]; exact hflag, hdenied⟩
      obtain ⟨r, w₂, hrun, hout⟩ := hdel hdb (hr.oid j hj.1) hj htakes
      have hchild : deleteChild env.atomic del (t₀ j).oid w = some (⟨⟩, w₂) := by
        refine bind_some.mpr ⟨_, _, hread, ?_⟩
        dsimp only
        rw [if_pos hflag]
        exact bind_some.mpr ⟨_, _, hrun, rfl⟩
      refine ⟨w₂, hchild, hout.remains hr, ?_, ?_,
        fun i hi => hout.frame hi fun hij => hi (hij ▸ hlive)⟩
      · rcases hout with ⟨-, hsame⟩ | ⟨hacc, -, hpass, -⟩
        · rw [hsame]
          exact Pass.refl
        · have hdenied : (t₀ j).writeDenied h = false := by
            rw [← hr.writeDenied]
            exact hacc.2.1
          exact hpass.mono fun k hk => by
            rw [Set.mem_singleton_iff.mp hk]
            exact Reached.root (htakes hdenied)
      · intro htake
        rcases hout with ⟨hno, -⟩ | ⟨-, -, -, ⟨hdead, -⟩, -⟩
        · exact absurd ⟨hj.1, by rw [hr.writeDenied]; exact htake.2.2.2, Or.inl hj.2⟩ hno
        · exact hdead
    · refine ⟨w₁, bind_some.mpr ⟨_, _, hread, ?_⟩, by rwa [hdb], by rw [hdb]; exact Pass.refl, ?_,
        fun i _ => by rw [hdb]⟩
      · dsimp only
        rw [if_neg hflag]
        rfl
      · intro htake
        rw [hr.flags] at hflag
        exact absurd htake.2.2.1 hflag
  · exact ⟨w₁, bind_some.mpr ⟨_, _, hread, rfl⟩, by rwa [hdb], by rw [hdb]; exact Pass.refl,
      fun _ => by rwa [hdb], fun i _ => by rw [hdb]⟩

theorem deleteChildren_run (ht : InsertedTable t₀) {del : ObjInfo → Call (Result × ObjInfo)}
    {x : Nat} {children : List ObjId} (hr : Remains t₀ w.db.objmeta)
    (hchildren : ∀ c ∈ children, ∃ j ∈ liveSlots t₀, (t₀ j).oid = c ∧
      (t₀ j).parentOid = (t₀ x).oid)
    (hdel : ∀ {w' j metadata}, Remains t₀ w'.db.objmeta →
      liveSlots w'.db.objmeta ⊆ liveSlots w.db.objmeta → metadata.oid = (t₀ j).oid →
      j ∈ liveSlots w'.db.objmeta → ((t₀ j).writeDenied h = false → Takes h t₀ x j) →
      ∃ r w'', del metadata w' = some (r, w'') ∧ DeleteOutcome h t₀ j false w'.db w''.db) :
    ∃ w', children.forM (deleteChild env.atomic del) w = some (⟨⟩, w') ∧
      Remains t₀ w'.db.objmeta ∧
      Pass (Takes h t₀) {k | Takes h t₀ x k} (liveSlots w.db.objmeta) (liveSlots w'.db.objmeta) ∧
      (∀ j, (t₀ j).oid ∈ children → Takes h t₀ x j → j ∉ liveSlots w'.db.objmeta) ∧
      ∀ i, i ∉ liveSlots t₀ → w'.db.objmeta i = w.db.objmeta i := by
  induction children generalizing w with
  | nil => exact ⟨w, rfl, hr, Pass.refl, fun j hj => (nomatch hj), fun _ _ => rfl⟩
  | cons c children ih =>
      obtain ⟨j, hj, rfl, hparent⟩ := hchildren c List.mem_cons_self
      obtain ⟨w₁, hrun₁, hr₁, hpass₁, hout₁, hframe₁⟩ := deleteChild_run (w := w) ht hr hj hparent
        fun hdb hoid hlive htakes => by
          have hdel' := hdel (hdb ▸ hr) (by rw [hdb]) hoid (by rwa [hdb]) htakes
          rwa [hdb] at hdel'
      obtain ⟨w₂, hrun₂, hr₂, hpass₂, hout₂, hframe₂⟩ := ih hr₁
        (fun c' hc' => hchildren c' (List.mem_cons_of_mem _ hc'))
        fun hr' hsub hoid hlive htakes => hdel hr' (hsub.trans hpass₁.subset) hoid hlive htakes
      refine ⟨w₂, bind_some.mpr ⟨_, _, hrun₁, hrun₂⟩, hr₂, hpass₁.trans hpass₂, ?_,
        fun i hi => (hframe₂ i hi).trans (hframe₁ i hi)⟩
      intro k hk htake
      rcases List.mem_cons.mp hk with heq | hk
      · obtain rfl := ht.unique k j htake.1.1 heq
        exact fun hlive => hout₁ htake (hpass₂.subset hlive)
      · exact hout₂ k hk htake

/-- A delete returns when there is fuel for every live object, and takes out what it should. -/
theorem deleteImm_run (ht : InsertedTable t₀) (hremap : env.nameRemap [] = [])
    (hnow : ∀ k, env.now k ≠ 0) :
    ∀ fuel {x : Nat} {metadata : ObjInfo} {immediatelyDelete : Bool} {w : World},
      Remains t₀ w.db.objmeta → metadata.oid = (t₀ x).oid → (t₀ x).oid ≠ 0 →
      ((t₀ x).writeDenied h = false →
        ∀ j ∈ Reached (Takes h t₀) {x}, Spare t₀ (t₀ j).oid) →
      (liveCount w.db.objmeta < fuel ∨
        x ∈ liveSlots w.db.objmeta ∧ liveCount w.db.objmeta ≤ fuel) →
      ∃ r w', deleteImm env.atomic h fuel metadata immediatelyDelete w = some (r, w') ∧
        DeleteOutcome h t₀ x immediatelyDelete w.db w'.db
  | 0, x, _, _, w, _, _, hx, _, hfuel => by
      rcases hfuel with hlt | ⟨hlive, hle⟩
      · omega
      · have hpos : 0 < liveCount w.db.objmeta := Finset.card_pos.mpr
          ⟨x, Finset.mem_filter.mpr ⟨Finset.mem_range.mpr (ht.bound x hx), hlive⟩⟩
        omega
  | fuel + 1, x, metadata, immediatelyDelete, w, hr, hoid, hx, hroom, hfuel => by
      by_cases hacc : (w.db.objmeta x).oid ≠ 0 ∧ Accepts h (w.db.objmeta x) immediatelyDelete
      · have hdenied : (t₀ x).writeDenied h = false := by
          rw [← hr.writeDenied]
          exact hacc.2.1
        have hroom := hroom hdenied
        have hi : w.db.findmetaById metadata.oid = some x := by
          rw [hoid]
          exact findmetaById_present ht hr hacc.1
        have hlen : (searchTable w.db .any 0 metadata.oid 0 0 0 false).length < idlistMax := by
          rw [hoid]
          exact ((hroom x (Reached.root rfl)).remains hr).length_lt hx
        obtain ⟨n, m', w₁, info, hlocked, hobj, hmark⟩ :=
          deleteLocked_accepted hremap hnow hi hacc.2 hlen
        have hr₁ : Remains t₀ w₁.db.objmeta := hobj ▸ hr.mark hmark
        have hlive₁ : liveSlots w₁.db.objmeta = liveSlots w.db.objmeta \ {x} := by
          rw [hobj]
          exact liveSlots_mark hmark
        have hcount : liveCount w₁.db.objmeta < fuel + 1 := by
          have hsub : liveSlots w₁.db.objmeta ⊆ liveSlots w.db.objmeta :=
            hlive₁ ▸ Set.sdiff_subset
          rcases hfuel with hlt | ⟨hlive, hle⟩
          · exact lt_of_le_of_lt (liveCount_le hsub) hlt
          · have hlt := liveCount_lt hsub (ht.bound x hx) hlive fun h => by
              rw [hlive₁] at h
              exact h.2 rfl
            omega
        have hchildren : ∀ c ∈ searchTable w.db .any 0 metadata.oid 0 0 0 false,
            ∃ j ∈ liveSlots t₀, (t₀ j).oid = c ∧ (t₀ j).parentOid = (t₀ x).oid := by
          intro c hc
          obtain ⟨i, -, hci, hc0, -, hparent, -, hdel⟩ := mem_searchTable_iff.mp hc
          have hlive : i ∈ liveSlots w.db.objmeta :=
            ⟨by rwa [hci], hdel.resolve_right Bool.false_ne_true⟩
          refine ⟨i, hr.live hlive, by rw [← hr.oid i hlive.1, hci], ?_⟩
          rw [← hr.parentOid, ← hoid]
          exact hparent.resolve_right (by rwa [hoid])
        obtain ⟨w₂, hloop, hr₂, hpass, hout, hframe⟩ := deleteChildren_run (h := h) ht hr₁ hchildren
          fun {w' j metadata} hr' hsub hoid' hlive htakes => deleteImm_run ht hremap hnow fuel hr'
            hoid' (hr'.live hlive).1
            (fun hdenied k hk => hroom k (Reached.subset (Set.singleton_subset_iff.mpr
              (Reached.step (Reached.root (Set.mem_singleton x)) (htakes hdenied))) hk))
            (Or.inr ⟨hlive, by have := liveCount_le hsub; omega⟩)
        have hdead : x ∉ liveSlots w₂.db.objmeta := fun hlive => by
          have hlive := hpass.subset hlive
          rw [hlive₁] at hlive
          exact hlive.2 rfl
        have hserved (b : Nat) (htake : Takes h t₀ x b) : b ∉ liveSlots w₂.db.objmeta := by
          intro hb
          have hb₁ := hpass.subset hb
          rw [hlive₁] at hb₁
          refine hout b (mem_searchTable_iff.mpr ⟨b, ht.bound b htake.1.1, hr.oid b hb₁.1.1,
            htake.1.1, ?_, Or.inl ?_, Or.inr rfl, Or.inl hb₁.1.2⟩) htake hb
          · rw [hr.createdTs]
            exact ht.createdTs b htake.1.1
          · rw [hr.parentOid, hoid]
            exact htake.2.1
        refine ⟨_, w₂, bind_some.mpr ⟨_, _, hlocked, bind_some.mpr ⟨_, _, hloop, rfl⟩⟩,
          Or.inr ⟨hacc, hr₂, ⟨?_, ?_, ?_⟩, ⟨hdead, hserved⟩, fun i hi hix => ?_⟩⟩
        · exact hpass.subset.trans (hlive₁ ▸ Set.sdiff_subset)
        · intro b hb hb'
          by_cases hbx : b = x
          · exact Reached.root hbx
          · refine Reached.subset (fun k hk => Reached.step (Reached.root (Set.mem_singleton x)) hk)
              (hpass.reached b ?_ hb')
            rw [hlive₁]
            exact ⟨hb, hbx⟩
        · intro a ha ha' b hab
          by_cases hax : a = x
          · exact hserved b (hax ▸ hab)
          · refine hpass.closed a ?_ ha' b hab
            rw [hlive₁]
            exact ⟨ha, hax⟩
        · rw [hframe i hi, hobj, Function.update_of_ne hix]
      · have hno : ∀ i, w.db.findmetaById metadata.oid = some i →
            ¬ Accepts h (w.db.objmeta i) immediatelyDelete := by
          intro i hi
          rw [hoid] at hi
          obtain ⟨rfl, hocc⟩ := findmetaById_slot ht hr hx hi
          exact fun hacc' => hacc ⟨hocc, hacc'⟩
        obtain ⟨e, w₁, hlocked, hdb⟩ := deleteLocked_refused env hno
        exact ⟨_, w₁, bind_some.mpr ⟨_, _, hlocked, rfl⟩, Or.inl ⟨hacc, hdb⟩⟩

end KogmoRtdb
