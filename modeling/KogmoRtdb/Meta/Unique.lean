import KogmoRtdb.Meta.ObjectIds

/-!
# Unique objects

`insert` is the one call that looks for objects with the name and type of the new one
if either is unique. It asks for the first, second, and so on live object of the type
until there is none, and reads its metadata by oid; `notUniq_false` is what the loop
has established when it finds nothing.

`changeinfo` gives an object a new name or type without such a check.
-/

namespace KogmoRtdb

open Prog

variable {env : Env} {h : Handle} {ts : Timestamp} {m : ObjInfo} {w w' : World} {db : Db}
  {t : Nat → ObjInfo}

def ObjInfo.Live (info : ObjInfo) : Prop := info.oid ≠ 0 ∧ info.deletedTs = 0

/-- Two objects that may not be live at the same time. -/
def ObjInfo.Clashes (a b : ObjInfo) : Prop :=
  a.name = b.name ∧ a.otype = b.otype ∧ (a.flags.unique = true ∨ b.flags.unique = true)

def UniqueObjects (t : Nat → ObjInfo) : Prop :=
  ∀ i j, i ≠ j → (t i).Live → (t j).Live → ¬ (t i).Clashes (t j)

instance (info : ObjInfo) : Decidable info.Live := by
  unfold ObjInfo.Live
  infer_instance

instance (a b : ObjInfo) : Decidable (a.Clashes b) := by
  unfold ObjInfo.Clashes
  infer_instance

theorem ObjInfo.Clashes.symm {a b : ObjInfo} (hc : a.Clashes b) : b.Clashes a :=
  ⟨hc.1.symm, hc.2.1.symm, hc.2.2.symm⟩

/-! ## The uniqueness check -/

def liveOids (db : Db) (otype : Int) : List ObjId := searchTable db .any otype 0 0 0 0 false

theorem searchTable_take (otype : Int) (k : Nat) :
    searchTable db .any otype 0 0 0 ((k : Int) + 1) false = (liveOids db otype).take (k + 1) := by
  unfold liveOids searchTable
  rw [if_pos (by omega), if_neg (by decide)]
  rfl

/-- The `k`th search finds the `k`th oid. -/
theorem searchNth_eq {otype : Int} {k : Nat} (hk : k < (liveOids db otype).length) :
    searchNth db otype ((k : Int) + 1) = .ok ((liveOids db otype)[k]) := by
  have hlen : ((liveOids db otype).take (k + 1)).length = k + 1 := by
    rw [List.length_take]
    omega
  have hne : (liveOids db otype).take (k + 1) ≠ [] := by
    intro hnil
    rw [hnil] at hlen
    cases hlen
  have hlast : ((liveOids db otype).take (k + 1)).getLastD 0 = (liveOids db otype)[k] := by
    rw [List.getLastD_eq_getLast?, List.getLast?_eq_getElem?, hlen, List.getElem?_take,
      if_pos (by omega), Nat.add_sub_cancel, List.getElem?_eq_getElem hk, Option.getD_some]
  unfold searchNth searchAnswer
  rw [searchTable_take, if_neg hne, hlen, hlast]
  exact if_pos rfl

/-- The object is one that the check must not let pass. -/
def Db.Forbids (db : Db) (m : ObjInfo) (j : Nat) : Prop :=
  (db.objmeta j).name = m.name ∧ ((db.objmeta j).flags.unique = true ∨ m.flags.unique = true)

/-- The loop of the check, from the `a`th object on, has seen all the objects there are. -/
theorem forbids_of_clash (hpos : ∀ oid ∈ liveOids db m.otype, 0 < oid) :
    ∀ {n a : Nat}, clash db m (List.range' a n) = false →
      ∀ k (hk : k < (liveOids db m.otype).length),
      a ≤ k → k < a + n → ∀ j, db.findmetaById ((liveOids db m.otype)[k]) = some j →
        ¬ db.Forbids m j
  | 0, a, _, k, _, hak, hka, _, _ => by omega
  | n + 1, a, hclash, k, hk, hak, hka, j, hj => by
      rw [List.range'_succ, clash, searchNth_eq (Nat.lt_of_le_of_lt hak hk)] at hclash
      have hoid := hpos _ (List.getElem_mem (Nat.lt_of_le_of_lt hak hk))
      dsimp only at hclash
      rw [if_neg (Int.not_le.mpr hoid)] at hclash
      by_cases hka' : k = a
      · subst hka'
        rw [hj] at hclash
        dsimp only at hclash
        intro hforbids
        unfold Db.Forbids at hforbids
        rw [if_pos hforbids] at hclash
        cases hclash
      · refine forbids_of_clash hpos (n := n) (a := a + 1) ?_ k hk (by omega) (by omega) j hj
        split at hclash
        · exact hclash
        · split at hclash
          · cases hclash
          · exact hclash

/-- What holds when the check finds nothing: it has passed over every live object of the
type that its oid leads to. -/
theorem notUniq_false (hpos : ∀ i, (db.objmeta i).oid ≠ 0 → 0 < (db.objmeta i).oid)
    (hu : db.notUniq m = false) {j : Nat} (hj : j < objMax) (hlive : (db.objmeta j).Live)
    (hcreated : (db.objmeta j).createdTs ≠ 0)
    (hfound : db.findmetaById (db.objmeta j).oid = some j) :
    ¬ (db.objmeta j).Clashes m := by
  rintro ⟨hname, htype, hunique⟩
  have hmem : (db.objmeta j).oid ∈ liveOids db m.otype := by
    unfold liveOids searchTable
    rw [if_neg (by decide)]
    refine List.mem_map.mpr ⟨db.objmeta j, List.mem_filter.mpr
      ⟨List.mem_map.mpr ⟨j, List.mem_range.mpr hj, rfl⟩, ?_⟩, rfl⟩
    have hcreated : ¬ (db.objmeta j).createdTs = 0#64 := hcreated
    simp [ObjInfo.matches, hlive.1, hlive.2, hcreated, htype, NameTest.ok]
  have hpos' : ∀ oid ∈ liveOids db m.otype, 0 < oid := by
    intro oid hoid
    obtain ⟨i, rfl, hne, -⟩ := mem_searchTable hoid
    exact hpos i hne
  have hlen : (liveOids db m.otype).length ≤ objMax := by
    unfold liveOids searchTable
    rw [if_neg (by decide), List.length_map]
    refine (List.length_filter_le ..).trans ?_
    rw [List.length_map, List.length_range]
  obtain ⟨k, hk, hget⟩ := List.mem_iff_getElem.mp hmem
  have hclash : clash db m (List.range' 0 objMax) = false := by
    rw [← List.range_eq_range']
    exact hu
  exact forbids_of_clash hpos' hclash k hk (Nat.zero_le k) (by omega) j (hget ▸ hfound)
    ⟨hname, hunique⟩

/-! ## The invariant -/

/-- Unique objects are unique, and an occupied slot has been filled by an insert. -/
structure UniqueTable (t : Nat → ObjInfo) : Prop where
  bound : ∀ i, (t i).oid ≠ 0 → i < objMax
  pos : ∀ i, (t i).oid ≠ 0 → 0 < (t i).oid
  created : ∀ i, (t i).oid ≠ 0 → (t i).createdTs ≠ 0
  unique : UniqueObjects t

namespace UniqueTable

theorem update {i : Nat} {info : ObjInfo} (ht : UniqueTable t)
    (hocc : info.oid ≠ 0 → i < objMax ∧ 0 < info.oid ∧ info.createdTs ≠ 0)
    (hclash : info.Live → ∀ j, j ≠ i → (t j).Live → ¬ info.Clashes (t j)) :
    UniqueTable (Function.update t i info) := by
  have hself : Function.update t i info i = info := Function.update_self ..
  have hother {j : Nat} (hji : j ≠ i) : Function.update t i info j = t j :=
    Function.update_of_ne hji ..
  refine ⟨fun j hj => ?_, fun j hj => ?_, fun j hj => ?_, fun j k hjk hj hk => ?_⟩
  · by_cases hji : j = i
    · subst hji
      rw [hself] at hj
      exact (hocc hj).1
    · rw [hother hji] at hj
      exact ht.bound j hj
  · by_cases hji : j = i
    · subst hji
      rw [hself] at hj ⊢
      exact (hocc hj).2.1
    · rw [hother hji] at hj ⊢
      exact ht.pos j hj
  · by_cases hji : j = i
    · subst hji
      rw [hself] at hj ⊢
      exact (hocc hj).2.2
    · rw [hother hji] at hj ⊢
      exact ht.created j hj
  · by_cases hji : j = i
    · subst hji
      rw [hself] at hj ⊢
      rw [hother hjk.symm] at hk ⊢
      exact hclash hj k hjk.symm hk
    · rw [hother hji] at hj ⊢
      by_cases hki : k = i
      · subst hki
        rw [hself] at hk ⊢
        exact fun hc => hclash hk j hji hj hc.symm
      · rw [hother hki] at hk ⊢
        exact ht.unique j k hjk hj hk

theorem update_of_eq {i : Nat} {info : ObjInfo} (ht : UniqueTable t)
    (hoid : info.oid = (t i).oid) (hcreated : info.createdTs = (t i).createdTs)
    (hdeleted : info.deletedTs = (t i).deletedTs) (hname : info.name = (t i).name)
    (htype : info.otype = (t i).otype) (hflags : info.flags = (t i).flags) :
    UniqueTable (Function.update t i info) := by
  refine ht.update (fun hocc => ?_) fun hlive j hji hj => ?_
  · rw [hoid] at hocc ⊢
    rw [hcreated]
    exact ⟨ht.bound i hocc, ht.pos i hocc, ht.created i hocc⟩
  · unfold ObjInfo.Live at hlive
    rw [hoid, hdeleted] at hlive
    unfold ObjInfo.Clashes
    rw [hname, htype, hflags]
    exact ht.unique i j hji.symm hlive hj

theorem update_dead {i : Nat} {info : ObjInfo} (ht : UniqueTable t)
    (hocc : info.oid ≠ 0 → info.oid = (t i).oid ∧ info.createdTs = (t i).createdTs)
    (hdead : ¬ info.Live) : UniqueTable (Function.update t i info) := by
  refine ht.update (fun hne => ?_) fun hlive => absurd hlive hdead
  obtain ⟨hoid, hcreated⟩ := hocc hne
  rw [hoid] at hne ⊢
  rw [hcreated]
  exact ⟨ht.bound i hne, ht.pos i hne, ht.created i hne⟩

end UniqueTable

theorem keepsEffects_unique (hnow : ∀ k, env.now k ≠ 0) :
    KeepsEffects env False fun w => UniqueTable w.db.objmeta where
  idle w w' hw hdb _ := by rwa [hdb]
  mark w i k proc hw _ := hw.update_dead (fun _ => ⟨rfl, rfl⟩) fun hlive => hnow k hlive.2
  purge w i hw _ := by
    rw [purged_objmeta]
    exact hw.update_dead (fun hne => absurd rfl hne) fun hlive => hlive.1 rfl

/-! ## The calls that create or change names -/

/-- A change gives a live object the name and type of another, one of them unique. -/
def ChangeClashes (db : Db) (h : Handle) (oid : ObjId) (metadata : ObjInfo) : Prop :=
  h.admin = true ∧ match db.findmetaById oid with
    | none => False
    | some i => ((db.objmeta i).change metadata).Live ∧
        ∃ j < objMax, j ≠ i ∧ (db.objmeta j).Live ∧
          ((db.objmeta i).change metadata).Clashes (db.objmeta j)

/-- An insert gets past the uniqueness check although there is a clash, because the oid of
the other object is in an earlier slot as well. -/
def HiddenClash [Rounding] (env : Env) (h : Handle) (metadata : ObjInfo) (w : World) : Prop :=
  TakesOid env h metadata w ∧ 0 < w.db.nextOid ∧ ∃ j < objMax, (w.db.objmeta j).Live ∧
    (w.db.objmeta j).Clashes (initMetadata env h (env.now w.tick) metadata) ∧
    w.db.findmetaById (w.db.objmeta j).oid ≠ some j

instance {oid : ObjId} {metadata : ObjInfo} : Decidable (ChangeClashes db h oid metadata) := by
  unfold ChangeClashes
  cases db.findmetaById oid <;> infer_instance

instance [Rounding] {metadata : ObjInfo} : Decidable (HiddenClash env h metadata w) := by
  unfold HiddenClash
  infer_instance

theorem unique_insert [Rounding] {metadata : ObjInfo} {r : Result × ObjInfo}
    (hnow : ∀ k, env.now k ≠ 0) (ht : UniqueTable w.db.objmeta)
    (hg : ¬ HiddenClash env h metadata w)
    (hrun : insert env.atomic h metadata w = some (r, w')) : UniqueTable w'.db.objmeta := by
  rcases insert_table hrun with ⟨hobj, -⟩ | ⟨i, newIdx, m', w₁, href, hs, hu, hcases⟩
  · rwa [hobj]
  have hoid := hs.db_eq.2.2
  have hm := hs.metadata_eq
  have huniq := hs.notUniq_eq
  rw [atomic_lock_db] at huniq
  rcases hcases with ⟨-, -, hobj⟩ | ⟨hpos, -, hobj⟩
  · rw [hobj]
    exact ht.update_dead (fun hne => absurd hoid hne) fun hlive => hlive.1 hoid
  have htakes := takesOid_of_slot href hs hu
  have hnew := hpos
  rw [hobj]
  generalize w.db.nextOid = oid at hpos ⊢
  have hkeep : ({ m'.withParent oid with oid := oid } : ObjInfo).createdTs = m'.createdTs ∧
      ({ m'.withParent oid with oid := oid } : ObjInfo).name = m'.name ∧
      ({ m'.withParent oid with oid := oid } : ObjInfo).otype = m'.otype ∧
      ({ m'.withParent oid with oid := oid } : ObjInfo).flags = m'.flags := by
    unfold ObjInfo.withParent
    split <;> exact ⟨rfl, rfl, rfl, rfl⟩
  obtain ⟨hcreated, hname, htype, hflags⟩ := hkeep
  have hcreated' : m'.createdTs ≠ 0 := by
    rw [hm]
    exact hnow w.tick
  refine ht.update (fun _ => ⟨hs.slot_lt, hpos, hcreated ▸ hcreated'⟩) fun _ j hji hlive hc => ?_
  have hj := ht.bound j hlive.1
  have hclash : (w.db.objmeta j).Clashes (initMetadata env h (env.now w.tick) metadata) := by
    have hc' := hc.symm
    unfold ObjInfo.Clashes at hc' ⊢
    rw [hname, htype, hflags, hm] at hc'
    exact hc'
  by_cases hfound : w.db.findmetaById (w.db.objmeta j).oid = some j
  · exact notUniq_false ht.pos (huniq.symm.trans hu) hj hlive (ht.created j hlive.1) hfound hclash
  · exact hg ⟨htakes, hnew, j, hj, hlive, hclash, hfound⟩

/-- The steps of a run that keep unique objects unique. -/
def UniqueGuard [Rounding] (env : Env) (s : RunState) : Op → Prop
  | .insert h metadata => ¬ HiddenClash env h metadata s.world
  | .changeinfo h oid metadata => ¬ ChangeClashes s.world.db h oid metadata
  | _ => True

instance [Rounding] (s : RunState) : DecidablePred (UniqueGuard env s)
  | .insert h metadata => inferInstanceAs (Decidable (¬ HiddenClash env h metadata s.world))
  | .changeinfo h oid metadata =>
      inferInstanceAs (Decidable (¬ ChangeClashes s.world.db h oid metadata))
  | .deleteImm .. | .purgeObjs | .writedata .. => isTrue trivial

theorem unique_changeinfo {oid : ObjId} {metadata : ObjInfo}
    (hg : ¬ ChangeClashes db h oid metadata) :
    KeepsChange (fun w => UniqueTable w.db.objmeta) db h oid metadata := by
  rintro w i ht rfl hadmin hfound
  refine ht.update (fun hocc => ⟨ht.bound i hocc, ht.pos i hocc, ht.created i hocc⟩)
    fun hlive j hji hj hc => hg ⟨hadmin, ?_⟩
  rw [hfound]
  exact ⟨hlive, j, ht.bound j hj.1, hji, hj, hc⟩

theorem unique_step [Rounding] {heapSize : Int} {s s' : RunState} {op : Op}
    (hnow : ∀ k, env.now k ≠ 0) (ht : UniqueTable s.world.db.objmeta) (hg : UniqueGuard env s op)
    (hs : (apiLts env heapSize).step s op = some s') : UniqueTable s'.world.db.objmeta := by
  obtain ⟨events, hrun, -⟩ := apiLts_step hs
  have hchange : ∀ h oid metadata, op = .changeinfo h oid metadata →
      KeepsChange (fun w => UniqueTable w.db.objmeta) s.world.db h oid metadata := by
    rintro h oid metadata rfl
    exact unique_changeinfo hg
  rcases op_cases_keeps (keepsEffects_unique hnow) hchange (fun hk => hk.elim) ht hrun with
    ⟨h, metadata, r, rfl, hins, -⟩ | ⟨h, oid, data, out, rfl, hout, hw, -⟩ | ⟨ht', -⟩
  · exact unique_insert hnow ht hg hins
  · rw [hw]
    rcases writedata_cases hout with ⟨e, -, hdb⟩ | ⟨i, -, -, -, -, -, hdb⟩ <;> rw [hdb]
    · exact ht
    · exact ht.update_of_eq rfl rfl rfl rfl rfl rfl
  · exact ht'

/-- Unique objects stay unique: in every run of calls in which no `changeinfo` makes a live
object clash with another, and no clash is hidden from an insert behind an oid that two
slots have. -/
theorem uniqueObjects_of_guarded [Rounding] {heapSize : Int} {s : RunState}
    (hnow : ∀ k, env.now k ≠ 0) (h : (apiLts env heapSize).Guarded (UniqueGuard env) s) :
    UniqueObjects s.world.db.objmeta := by
  have hinv : UniqueTable s.world.db.objmeta := by
    refine h.invariant (I := fun s => UniqueTable s.world.db.objmeta) ?_
      fun s op s' hI hg hs => unique_step hnow hI hg hs
    rintro s rfl
    have hfree : ∀ i, ((World.initial env.atomic heapSize).db.objmeta i).oid = 0 :=
      initial_oid env.atomic heapSize
    exact ⟨fun i hi => absurd (hfree i) hi, fun i hi => absurd (hfree i) hi,
      fun i hi => absurd (hfree i) hi, fun i j _ hi => absurd (hfree i) hi.1⟩
  exact hinv.unique

/-- The example's environment with a clock that stands still. -/
def stillEnv (heapSize : Int) : Env := { exampleEnv heapSize with now := fun _ => 1 }

theorem stillEnv_now (heapSize : Int) (k : Nat) : (stillEnv heapSize).now k ≠ 0 :=
  (by decide : (1 : Timestamp) ≠ 0)

def aUniqueObject : ObjInfo := { anObject with flags := { unique := true } }

theorem uniqueObjects_of_guarded_again :
    ∃ s, (apiLts (stillEnv 4096) 4096).Guarded (UniqueGuard (stillEnv 4096)) s ∧
      UniqueObjects s.world.db.objmeta ∧ insertedOids s.log = [2, 1] := by
  obtain ⟨s, hr, hp⟩ := (apiLts (stillEnv 4096) 4096).exists_of_execGuarded
    (G := UniqueGuard (stillEnv 4096))
    (g := fun s op => decide (UniqueGuard (stillEnv 4096) s op)) (fun _ _ => of_decide_eq_true)
    [.insert aProcess aUniqueObject, .insert aProcess anObject,
      .deleteImm aProcess { anObject with oid := 1 } false 1, .insert aProcess aUniqueObject]
    (fun s => decide (insertedOids s.log = [2, 1]))
    (s := ⟨World.initial (stillEnv 4096).atomic 4096, []⟩) rfl (by decide +kernel)
  exact ⟨s, hr, uniqueObjects_of_guarded (stillEnv_now 4096) hr, of_decide_eq_true hp⟩

/-- An object of another name is renamed to that of a unique one. -/
theorem exists_not_uniqueObjects :
    (∀ k, (stillEnv 4096).now k ≠ 0) ∧
      ∃ s, (apiLts (stillEnv 4096) 4096).Reachable s ∧ ¬ UniqueObjects s.world.db.objmeta := by
  obtain ⟨s, hr, hp⟩ := (apiLts (stillEnv 4096) 4096).exists_of_exec
    [.insert aProcess aUniqueObject, .insert aProcess { anObject with name := ['b'] },
      .changeinfo { aProcess with admin := true } 2 { name := ['a'] }]
    (fun s => decide ((s.world.db.objmeta 0).Live ∧ (s.world.db.objmeta 1).Live ∧
      (s.world.db.objmeta 0).Clashes (s.world.db.objmeta 1)))
    (s := ⟨World.initial (stillEnv 4096).atomic 4096, []⟩) rfl (by decide +kernel)
  obtain ⟨hlive, hlive', hclash⟩ := of_decide_eq_true hp
  exact ⟨stillEnv_now 4096, s, hr, fun hu => hu 0 1 (by decide) hlive hlive' hclash⟩

end KogmoRtdb
