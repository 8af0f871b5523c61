import KogmoRtdb.Meta.Cascade
import KogmoRtdb.Meta.InvalidIds

/-!
# Which objects go with a deleted one

A delete by an admin should take, besides the object itself, the live objects below it that are to
go with their parents, each of them once, and touch no other (`CascadesRight`). `Deletes` says of a
run that it is a sequence of single deletions, each of a live object; the sets come from
`deleteImm_run`.

The list of children has no place for as many as there are slots. Where every slot holds a child
of the object, itself included, the last one is counted and its place is left as it was
(`LosesChild`).
-/

namespace KogmoRtdb

open Prog Marking

variable {env : Env} {h : Handle} {metadata : ObjInfo} {w w' w₁ : World} {l l' : List Nat}
  {i x : Nat} {t t₀ : Nat → ObjInfo}

/-! ## Deletions one after the other -/

/-- The object in slot `i` is marked as deleted at `ts`, and its slot given up if its flag says
so. -/
def World.deletes (h : Handle) (i : Nat) (ts : Timestamp) (w : World) : World :=
  let w₁ := w.write fun db =>
    db.setMeta i { db.objmeta i with deletedProc := h.procOid, deletedTs := ts }
  if (w.db.objmeta i).flags.immediatelyDelete then w₁.purged i else w₁

/-- From `w` to `w'` the objects in these slots are deleted, in this order, each while it is
live, and nothing else happens to the table and the heap. -/
inductive Deletes (h : Handle) : List Nat → World → World → Prop where
  | done {w w' : World} (hdb : w'.db = w.db) (hlog : w'.heapLog = w.heapLog) : Deletes h [] w w'
  | one {i : Nat} {l : List Nat} {ts : Timestamp} {w w₁ w' : World}
      (hlive : (w.db.objmeta i).Live) (hts : ts ≠ 0)
      (hdb : w₁.db = (w.deletes h i ts).db) (hlog : w₁.heapLog = (w.deletes h i ts).heapLog)
      (hrest : Deletes h l w₁ w') : Deletes h (i :: l) w w'

theorem deletes_objmeta (h : Handle) (i : Nat) (ts : Timestamp) (w : World) :
    ∃ info, (w.deletes h i ts).db.objmeta = Function.update w.db.objmeta i info ∧
      info.deletedTs = ts := by
  unfold World.deletes
  dsimp only
  split
  · refine ⟨{ w.db.objmeta i with deletedProc := h.procOid, deletedTs := ts, oid := 0 }, ?_, rfl⟩
    rw [purged_objmeta]
    have hmark : (w.write fun db => db.setMeta i { db.objmeta i with
        deletedProc := h.procOid, deletedTs := ts }).db.objmeta =
        Function.update w.db.objmeta i { w.db.objmeta i with
          deletedProc := h.procOid, deletedTs := ts } := rfl
    rw [hmark, Function.update_self, Function.update_idem]
  · exact ⟨{ w.db.objmeta i with deletedProc := h.procOid, deletedTs := ts }, rfl, rfl⟩

/-- Only the database and the heap matter to a deletion. -/
theorem deletes_congr (h : Handle) (i : Nat) (ts : Timestamp) (hdb : w'.db = w.db)
    (hlog : w'.heapLog = w.heapLog) :
    (w'.deletes h i ts).db = (w.deletes h i ts).db ∧
      (w'.deletes h i ts).heapLog = (w.deletes h i ts).heapLog := by
  unfold World.deletes World.purged World.release World.write World.freed
  dsimp only
  rw [hdb, hlog]
  split
  · split <;> exact ⟨rfl, rfl⟩
  · exact ⟨rfl, rfl⟩

namespace Deletes

theorem trans {w₂ : World} (h₁ : Deletes h l w w₁) (h₂ : Deletes h l' w₁ w₂) :
    Deletes h (l ++ l') w w₂ := by
  induction h₁ with
  | done hdb hlog =>
      cases h₂ with
      | done hdb' hlog' => exact .done (hdb'.trans hdb) (hlog'.trans hlog)
      | one hlive hts hdb' hlog' hrest =>
          rw [hdb] at hlive
          obtain ⟨hsame, hsameLog⟩ := deletes_congr h _ _ hdb hlog
          exact .one hlive hts (hdb'.trans hsame) (hlog'.trans hsameLog) hrest
  | one hlive hts hdb hlog _ ih => exact .one hlive hts hdb hlog (ih h₂)

theorem frame (hd : Deletes h l w w') (hi : i ∉ l) : w'.db.objmeta i = w.db.objmeta i := by
  induction hd with
  | done hdb _ => rw [hdb]
  | @one j l ts w w₁ w' hlive hts hdb hlog hrest ih =>
      obtain ⟨info, hobj, -⟩ := deletes_objmeta h j ts w
      have hij : i ≠ j := fun heq => hi (heq ▸ List.mem_cons_self)
      rw [ih fun hmem => hi (List.mem_cons_of_mem j hmem), hdb, hobj, Function.update_of_ne hij]

theorem dead (hd : Deletes h l w w') (hi : (w.db.objmeta i).deletedTs ≠ 0) :
    (w'.db.objmeta i).deletedTs ≠ 0 ∧ i ∉ l := by
  induction hd with
  | done hdb _ => exact ⟨by rwa [hdb], List.not_mem_nil⟩
  | @one j l ts w w₁ w' hlive hts hdb hlog hrest ih =>
      obtain ⟨info, hobj, hinfo⟩ := deletes_objmeta h j ts w
      have hij : i ≠ j := fun heq => hi (heq ▸ hlive.2)
      obtain ⟨hdead, hmem⟩ := ih (by rwa [hdb, hobj, Function.update_of_ne hij])
      refine ⟨hdead, fun hcons => ?_⟩
      rcases List.mem_cons.mp hcons with heq | hmem'
      · exact hij heq
      · exact hmem hmem'

theorem nodup (hd : Deletes h l w w') : l.Nodup := by
  induction hd with
  | done => exact List.nodup_nil
  | @one j l ts w w₁ w' hlive hts hdb hlog hrest ih =>
      obtain ⟨info, hobj, hinfo⟩ := deletes_objmeta h j ts w
      refine List.nodup_cons.mpr ⟨(hrest.dead ?_).2, ih⟩
      rw [hdb, hobj, Function.update_self, hinfo]
      exact hts

/-- Those that are deleted were live, and are not any more. -/
theorem mem_iff (hd : Deletes h l w w') :
    i ∈ l ↔ i ∈ liveSlots w.db.objmeta ∧ i ∉ liveSlots w'.db.objmeta := by
  induction hd with
  | done hdb _ =>
      rw [hdb]
      simp
  | @one j l ts w w₁ w' hlive hts hdb hlog hrest ih =>
      obtain ⟨info, hobj, hinfo⟩ := deletes_objmeta h j ts w
      by_cases hij : i = j
      · subst hij
        have hdead : (w₁.db.objmeta i).deletedTs ≠ 0 := by
          rw [hdb, hobj, Function.update_self, hinfo]
          exact hts
        exact iff_of_true List.mem_cons_self ⟨hlive, fun hlive' => (hrest.dead hdead).1 hlive'.2⟩
      · have hsame : i ∈ liveSlots w₁.db.objmeta ↔ i ∈ liveSlots w.db.objmeta := by
          unfold liveSlots
          rw [Set.mem_ofPred_eq, Set.mem_ofPred_eq, hdb, hobj, Function.update_of_ne hij]
        rw [List.mem_cons, or_iff_right hij, ih, hsame]

end Deletes

/-! ## A delete is such a sequence -/

/-- A search for children changes nothing, and no entry of its list is 0. -/
theorem findChildren_some {oid : ObjId} {children : List ObjId}
    (hrun : findChildren env oid w = some (children, w')) : w' = w ∧ ∀ c ∈ children, c ≠ 0 := by
  obtain ⟨⟨err, out⟩, w₁, hsearch, hrun⟩ := bind_some.mp hrun
  obtain rfl := searchinfoNolock_some hsearch
  cases err with
  | error e =>
      cases hrun
      exact ⟨rfl, fun c hc => absurd hc List.not_mem_nil⟩
  | ok n =>
      obtain ⟨rfl, rfl⟩ := pure_some.mp hrun
      exact ⟨rfl, fun c hc => IdList.ne_zero_of_mem_entries hc⟩

/-- The critical section of a delete that is not immediate. -/
theorem deleteLocked_some {r : Result × ObjInfo × List ObjId}
    (hrun : deleteLocked env.atomic h metadata false w = some (r, w')) :
    (∃ e, r.1 = .error e) ∧ w'.db = w.db ∧ w'.heapLog = w.heapLog ∨
      ∃ i k, w.db.findmetaById metadata.oid = some i ∧
        w'.db = (w.deletes h i (env.now k)).db ∧
        w'.heapLog = (w.deletes h i (env.now k)).heapLog ∧ ∀ c ∈ r.2.2, c ≠ 0 := by
  have hdb : (w.lock env.atomic).db = w.db := atomic_lock_db w
  have hlog : (w.lock env.atomic).heapLog = w.heapLog := atomic_lock_heapLog w
  obtain ⟨_, w₁, hlock, hrun⟩ := bind_some.mp hrun
  cases hlock
  obtain ⟨db, _, hread, hrun⟩ := bind_some.mp hrun
  cases hread
  rw [hdb] at hrun
  cases hi : w.db.findmetaById metadata.oid with
  | none =>
      rw [hi] at hrun
      cases hrun
      exact Or.inl ⟨⟨_, rfl⟩, hdb, hlog⟩
  | some i =>
      rw [hi] at hrun
      dsimp only at hrun
      split at hrun
      · cases hrun
        exact Or.inl ⟨⟨_, rfl⟩, hdb, hlog⟩
      split at hrun
      · cases hrun
        exact Or.inl ⟨⟨_, rfl⟩, hdb, hlog⟩
      obtain ⟨children, w₂, hfind, hrun⟩ := bind_some.mp hrun
      obtain ⟨rfl, hne⟩ := findChildren_some hfind
      obtain ⟨ts, w₃, hnow, hrun⟩ := bind_some.mp hrun
      cases hnow
      obtain ⟨_, w₄, hwrite, hrun⟩ := bind_some.mp hrun
      cases hwrite
      obtain ⟨_, w₅, hpurge, hrun⟩ := bind_some.mp hrun
      obtain ⟨_, w₆, hunlock, hrun⟩ := bind_some.mp hrun
      cases hunlock
      obtain ⟨rfl, rfl⟩ := pure_some.mp hrun
      have hask : (w.lock env.atomic).ask.db = w.db := hdb
      have hdeleted : w₅ = (w.lock env.atomic).ask.deletes h i
          (env.now (w.lock env.atomic).tick) := by
        unfold World.deletes
        rw [hask]
        unfold Prog.when at hpurge
        by_cases himm : (w.db.objmeta i).flags.immediatelyDelete = true
        · rw [if_pos himm]
          rw [if_pos (by rw [Bool.or_false]; exact himm)] at hpurge
          rw [purgeslot_some hpurge]
          unfold World.write
          rw [hask]
          rfl
        · rw [if_neg himm]
          rw [if_neg (by rw [Bool.or_false]; exact himm)] at hpurge
          obtain ⟨-, rfl⟩ := pure_some.mp hpurge
          unfold World.write
          rw [hask]
          rfl
      have hlog' : (w.lock env.atomic).ask.heapLog = w.heapLog := hlog
      obtain ⟨hsame, hsameLog⟩ := deletes_congr h i (env.now (w.lock env.atomic).tick) hask hlog'
      refine Or.inr ⟨i, (w.lock env.atomic).tick, rfl, ?_, ?_, hne⟩
      · rw [← hsame, ← hdeleted]
        rfl
      · rw [← hsameLog, ← hdeleted]
        rfl

/-- What `kogmo_rtdb_obj_readinfo` returns of an object that is not deleted. -/
theorem readinfo_some {oid : ObjId} {r : Result × ObjInfo}
    (hrun : readinfo env.atomic oid 0 metadata w = some (r, w')) :
    w'.db = w.db ∧ w'.heapLog = w.heapLog ∧
      ((∃ e, r.1 = .error e) ∨
        ∃ i, w.db.findmetaById oid = some i ∧ (w.db.objmeta i).deletedTs = 0 ∧
          r.2 = w.db.objmeta i) := by
  have hdb : (w.lock env.atomic).db = w.db := atomic_lock_db w
  have hlog : (w.lock env.atomic).heapLog = w.heapLog := atomic_lock_heapLog w
  obtain ⟨_, w₁, hlock, hrun⟩ := bind_some.mp hrun
  cases hlock
  obtain ⟨db, _, hread, hrun⟩ := bind_some.mp hrun
  cases hread
  rw [hdb] at hrun
  cases hi : w.db.findmetaById oid with
  | none =>
      rw [hi] at hrun
      cases hrun
      exact ⟨hdb, hlog, Or.inl ⟨_, rfl⟩⟩
  | some i =>
      rw [hi] at hrun
      dsimp only at hrun
      split at hrun
      · cases hrun
        exact ⟨hdb, hlog, Or.inl ⟨_, rfl⟩⟩
      · rename_i hshown
        cases hrun
        refine ⟨hdb, hlog, Or.inr ⟨i, rfl, ?_, rfl⟩⟩
        simpa [ObjInfo.hidden] using hshown

/-- A call deletes objects one after the other, if the object it is called for is live. -/
def DeletesLive (h : Handle) (del : ObjInfo → Call (Result × ObjInfo)) : Prop :=
  ∀ metadata r w w', metadata.oid ≠ 0 →
    (∀ i, w.db.findmetaById metadata.oid = some i → (w.db.objmeta i).deletedTs = 0) →
    del metadata w = some (r, w') → ∃ l, Deletes h l w w'

theorem deleteChild_deletes {del : ObjInfo → Call (Result × ObjInfo)}
    (hdel : DeletesLive h del) {c : ObjId} {u : PUnit} (hc : c ≠ 0)
    (hrun : deleteChild env.atomic del c w = some (u, w')) : ∃ l, Deletes h l w w' := by
  obtain ⟨⟨err, info⟩, w₁, hread, hrun⟩ := bind_some.mp hrun
  obtain ⟨hdb, hlog, hcases⟩ := readinfo_some hread
  cases err with
  | error e =>
      obtain ⟨-, rfl⟩ := pure_some.mp hrun
      exact ⟨[], .done hdb hlog⟩
  | ok n =>
      obtain ⟨e, he⟩ | ⟨i, hi, hlive, hinfo⟩ := hcases
      · cases he
      have hinfo : info = w.db.objmeta i := hinfo
      have hoid : info.oid = c := by
        rw [hinfo]
        exact (Db.findmetaById_some hi).2
      dsimp only at hrun
      split at hrun
      · obtain ⟨r, w₂, hchild, hrun⟩ := bind_some.mp hrun
        obtain ⟨-, rfl⟩ := pure_some.mp hrun
        obtain ⟨l, hd⟩ := hdel info r w₁ w' (by rwa [hoid]) (fun j hj => by
          rw [hdb] at hj ⊢
          rw [hoid, hi] at hj
          rw [← Option.some.inj hj]
          exact hlive) hchild
        exact ⟨_, (Deletes.done hdb hlog).trans hd⟩
      · obtain ⟨-, rfl⟩ := pure_some.mp hrun
        exact ⟨[], .done hdb hlog⟩

theorem deleteChildren_deletes {del : ObjInfo → Call (Result × ObjInfo)}
    (hdel : DeletesLive h del) {children : List ObjId} {u : PUnit}
    (hne : ∀ c ∈ children, c ≠ 0)
    (hrun : children.forM (deleteChild env.atomic del) w = some (u, w')) :
    ∃ l, Deletes h l w w' := by
  induction children generalizing w with
  | nil =>
      obtain ⟨-, rfl⟩ := pure_some.mp hrun
      exact ⟨[], .done rfl rfl⟩
  | cons c children ih =>
      obtain ⟨_, w₁, hchild, hrest⟩ := bind_some.mp hrun
      obtain ⟨l, hd⟩ := deleteChild_deletes hdel (hne c List.mem_cons_self) hchild
      obtain ⟨l', hd'⟩ := ih (fun c' hc' => hne c' (List.mem_cons_of_mem c hc')) hrest
      exact ⟨l ++ l', hd.trans hd'⟩

/-- A delete of a live object is a sequence of single deletions. -/
theorem deleteImm_deletes (hnow : ∀ k, env.now k ≠ 0) :
    ∀ fuel, DeletesLive h fun metadata => deleteImm env.atomic h fuel metadata false
  | 0 => by
      intro metadata r w w' hoid hlive hrun
      cases hrun
  | fuel + 1 => by
      intro metadata r w w' hoid hlive hrun
      obtain ⟨⟨ret, m', children⟩, w₁, hlocked, hrun⟩ := bind_some.mp hrun
      rcases deleteLocked_some hlocked with ⟨⟨e, he⟩, hdb, hlog⟩ | ⟨i, k, hi, hdb, hlog, hne⟩
      · dsimp only at he
        subst he
        obtain ⟨-, rfl⟩ := pure_some.mp hrun
        exact ⟨[], .done hdb hlog⟩
      · have hocc : (w.db.objmeta i).Live := by
          refine ⟨?_, hlive i hi⟩
          rw [(Db.findmetaById_some hi).2]
          exact hoid
        cases ret with
        | error e =>
            obtain ⟨-, rfl⟩ := pure_some.mp hrun
            exact ⟨[i], .one hocc (hnow k) hdb hlog (.done rfl rfl)⟩
        | ok n =>
            obtain ⟨_, w₂, hloop, hrun⟩ := bind_some.mp hrun
            obtain ⟨-, rfl⟩ := pure_some.mp hrun
            obtain ⟨l, hd⟩ := deleteChildren_deletes (deleteImm_deletes hnow fuel) hne hloop
            exact ⟨i :: l, .one hocc (hnow k) hdb hlog hd⟩

/-! ## The objects below -/

/-- The live object in slot `j` is a child of that in slot `i` and goes with it. -/
def DiesWith (t : Nat → ObjInfo) (i j : Nat) : Prop :=
  (t j).Live ∧ (t j).parentOid = (t i).oid ∧ (t j).flags.parentDelete = true

theorem takes_eq (hadmin : h.admin = true) : Takes h t = DiesWith t := by
  funext i j
  have hmay : (t j).writeDenied h = false := by simp [ObjInfo.writeDenied, hadmin]
  unfold Takes DiesWith
  rw [hmay]
  simp

theorem mem_reached_iff {r : Nat → Nat → Prop} {b : Nat} :
    b ∈ Reached r {x} ↔ Relation.ReflTransGen r x b := by
  constructor
  · rintro ⟨a, rfl, hab⟩
    exact hab
  · exact fun hxb => ⟨x, rfl, hxb⟩

/-- Every slot holds a live child of the object in slot `x`. -/
def FullFamily (t : Nat → ObjInfo) (x : Nat) : Prop :=
  ∀ i < objMax, (t i).Live ∧ (t i).parentOid = (t x).oid

/-- With the slots not all children of the one object, no list below it overflows. -/
theorem spare_of_reached (ht : InsertedTable t) (hlive : (t x).Live) (hno : ¬ FullFamily t x)
    {j : Nat} (hj : Relation.ReflTransGen (DiesWith t) x j) : Spare t (t j).oid := by
  by_contra hfull
  have hfamily : FullFamily t j := by
    intro i hi
    by_contra hi'
    exact hfull ⟨i, hi, hi'⟩
  rcases Relation.ReflTransGen.cases_head hj with rfl | ⟨c, hxc, -⟩
  · exact hno hfamily
  · have hparent := (hfamily c (ht.bound c hxc.1.1)).2
    have hxj := ht.unique x j hlive.1 (hxc.2.1.symm.trans hparent)
    exact hno (hxj ▸ hfamily)

theorem delete_liveSlots (ht : InsertedTable w.db.objmeta) (hremap : env.nameRemap [] = [])
    (hnow : ∀ k, env.now k ≠ 0) (hadmin : h.admin = true) (hlive : (w.db.objmeta x).Live)
    (hno : ¬ FullFamily w.db.objmeta x) {fuel : Nat} (hfuel : objMax < fuel)
    (hoid : metadata.oid = (w.db.objmeta x).oid) :
    ∃ r w', deleteImm env.atomic h fuel metadata false w = some (r, w') ∧
      ∀ i, i ∈ liveSlots w'.db.objmeta ↔
        i ∈ liveSlots w.db.objmeta ∧ i ∉ Reached (DiesWith w.db.objmeta) {x} := by
  have htakes : Takes h w.db.objmeta = DiesWith w.db.objmeta := takes_eq hadmin
  obtain ⟨r, w', hrun, hout⟩ := deleteImm_run (h := h) ht hremap hnow fuel
    Remains.refl hoid hlive.1
    (fun _ j hj => by
      rw [htakes, mem_reached_iff] at hj
      exact spare_of_reached ht hlive hno hj)
    (Or.inl (lt_of_le_of_lt (liveCount_le_objMax _) hfuel))
  refine ⟨r, w', hrun, fun i => ?_⟩
  have hmay : (w.db.objmeta x).writeDenied h = false := by simp [ObjInfo.writeDenied, hadmin]
  rcases hout with ⟨hrefused, -⟩ | ⟨-, -, hpass, hroot, -⟩
  · exact absurd ⟨hlive.1, hmay, Or.inl hlive.2⟩ hrefused
  · rw [← htakes]
    refine hpass.mem_iff (fun a b hab => hab.1) fun a ha => ?_
    rw [Set.mem_singleton_iff.mp ha]
    exact hroot

/-! ## A list that overflows -/

/-- With as many objects found as the list has places, the last is counted, and its place is
as it was. -/
theorem mem_entries_full {idlist : IdList} {found : List ObjId} {c : ObjId}
    (hlen : found.length = idlistMax) (hpos : 0 < idlistMax) (hne : ∀ c ∈ found, c ≠ 0) :
    c ∈ (idlist.fill found).entries ↔
      c ∈ found.take (idlistMax - 1) ∨ c = idlist (idlistMax - 1) ∧ c ≠ 0 := by
  have hend : idlist.fill found idlistMax = 0 := by
    have hend := idlist.fill_end found
    rwa [hlen, Nat.min_self] at hend
  have hrange : List.range idlistMax = List.range (idlistMax - 1) ++ [idlistMax - 1] := by
    rw [← List.range_succ]
    exact congrArg List.range (by omega)
  have htake : (List.range (idlistMax - 1)).map (idlist.fill found) =
      found.take (idlistMax - 1) := by
    refine List.ext_getElem (by simp [hlen]) fun k hk hk' => ?_
    have hlt : k < idlistMax - 1 := by simpa using hk
    rw [List.getElem_map, List.getElem_range, List.getElem_take]
    exact idlist.fill_getElem (by omega) (by omega)
  have hlast : idlist.fill found (idlistMax - 1) = idlist (idlistMax - 1) := by
    unfold IdList.fill
    rw [if_neg (by rw [hlen, if_neg (Nat.lt_irrefl _)]; omega), if_neg (by omega)]
  rw [IdList.entries_of_end (Nat.le_refl _) hend, hrange, List.map_append, htake,
    List.takeWhile_append_of_pos fun c hc => decide_eq_true (hne c (List.mem_of_mem_take hc)),
    List.mem_append, List.map_cons, List.map_nil, hlast]
  by_cases h0 : idlist (idlistMax - 1) = 0
  · rw [List.takeWhile_cons_of_neg (by simp [h0]), h0]
    simp
  · rw [List.takeWhile_cons_of_pos (by simp [h0]), List.takeWhile_nil, List.mem_singleton]
    exact or_congr_right ⟨fun heq => ⟨heq, heq ▸ h0⟩, fun heq => heq.1⟩

/-- The children of an object to which all slots belong, in the list of a delete. -/
theorem mem_children_full (ht : InsertedTable w.db.objmeta) (hremap : env.nameRemap [] = [])
    (hx : (w.db.objmeta x).oid ≠ 0) (hfull : FullFamily w.db.objmeta x) :
    ∃ children, findChildren env.atomic (w.db.objmeta x).oid w = some (children, w) ∧
      ∀ c, c ∈ children ↔
        (∃ j < objMax - 1, (w.db.objmeta j).oid = c) ∨ c = env.uninit (objMax - 1) ∧ c ≠ 0 := by
  have hmatch (j : Nat) (hj : j < objMax) :
      (w.db.objmeta j).matches .any 0 (w.db.objmeta x).oid 0 0 false = true := by
    obtain ⟨hlive, hparent⟩ := hfull j hj
    simp [ObjInfo.matches, NameTest.ok, hlive.1, hlive.2, hparent]
    exact ht.createdTs j hlive.1
  have hfound : searchTable w.db .any 0 (w.db.objmeta x).oid 0 0 0 false =
      (List.range objMax).map fun j => (w.db.objmeta j).oid := by
    unfold searchTable
    rw [if_neg (by decide), List.filter_eq_self.mpr, List.map_map]
    · rfl
    · intro info hinfo
      obtain ⟨j, hj, rfl⟩ := List.mem_map.mp hinfo
      exact hmatch j (List.mem_range.mp hj)
  have hpos : 0 < objMax := Nat.zero_lt_of_lt (ht.bound x hx)
  have hlen : (searchTable w.db .any 0 (w.db.objmeta x).oid 0 0 0 false).length = idlistMax := by
    rw [hfound, List.length_map, List.length_range, idlistMax_eq_objMax]
  have hne : ∀ c ∈ searchTable w.db .any 0 (w.db.objmeta x).oid 0 0 0 false, c ≠ 0 := by
    intro c hc
    obtain ⟨i, -, -, hne, -⟩ := mem_searchTable_iff.mp hc
    exact hne
  have hnil : searchTable w.db .any 0 (w.db.objmeta x).oid 0 0 0 false ≠ [] := by
    intro hnil
    rw [hnil, idlistMax_eq_objMax, List.length_nil] at hlen
    omega
  obtain ⟨w₁, -, hsearch⟩ := searchinfoMode_eq hremap (w.db.objmeta x).oid 0
    env.atomic.uninit.clear true false w
  obtain rfl : w₁ = w := searchinfoNolock_some hsearch
  unfold searchAnswer at hsearch
  rw [if_neg hnil] at hsearch
  refine ⟨_, bind_some.mpr ⟨_, _, hsearch, rfl⟩, fun c => ?_⟩
  have hclear : env.uninit.clear (objMax - 1) = env.uninit (objMax - 1) :=
    Function.update_of_ne (by unfold objMax; decide) ..
  rw [Option.getD_some, mem_entries_full hlen (by rwa [idlistMax_eq_objMax]) hne, hfound,
    ← List.map_take, List.take_range, idlistMax_eq_objMax, List.mem_map,
    Nat.min_eq_left (Nat.sub_le ..)]
  refine or_congr ?_ (by rw [← hclear]; rfl)
  exact exists_congr fun j => and_congr_left fun _ => List.mem_range

/-- Another object than the one all belong to has nothing below it. -/
theorem FullFamily.reached (hfull : FullFamily t₀ x) (ht : InsertedTable t₀)
    (hx : (t₀ x).oid ≠ 0) {j b : Nat} (hjx : j ≠ x) (hb : b ∈ Reached (DiesWith t₀) {j}) :
    b = j := by
  rcases Relation.ReflTransGen.cases_head (mem_reached_iff.mp hb) with rfl | ⟨c, hjc, -⟩
  · rfl
  · have hparent := (hfull c (ht.bound c hjc.1.1)).2
    exact absurd (ht.unique x j hx (hparent.symm.trans hjc.2.1)).symm hjx

/-- What is done with one entry of the list: only that object goes. -/
theorem deleteLeaf_run [Rounding] (ht : InsertedTable t₀) (hremap : env.nameRemap [] = [])
    (hnow : ∀ k, env.now k ≠ 0) (hadmin : h.admin = true) (hx : (t₀ x).oid ≠ 0)
    (hfull : FullFamily t₀ x) {fuel : Nat} (hfuel : objMax ≤ fuel) {c : ObjId}
    (hr : Remains t₀ w.db.objmeta) (hdead : x ∉ liveSlots w.db.objmeta) (hc : c ≠ 0) :
    ∃ w', deleteChild env.atomic (fun child => deleteImm env.atomic h fuel child false) c w =
        some (⟨⟩, w') ∧ Remains t₀ w'.db.objmeta ∧
      ∀ i, i ∈ liveSlots w'.db.objmeta ↔ i ∈ liveSlots w.db.objmeta ∧
        ¬ ((t₀ i).oid = c ∧ (t₀ i).flags.parentDelete = true) := by
  have hsame {w' : World} (hdb : w'.db = w.db)
      (hno : ∀ i ∈ liveSlots w.db.objmeta, (t₀ i).oid = c →
        (t₀ i).flags.parentDelete = true → False) :
      Remains t₀ w'.db.objmeta ∧ ∀ i, i ∈ liveSlots w'.db.objmeta ↔
        i ∈ liveSlots w.db.objmeta ∧ ¬ ((t₀ i).oid = c ∧ (t₀ i).flags.parentDelete = true) := by
    rw [hdb]
    exact ⟨hr, fun i => ⟨fun hi => ⟨hi, fun hboth => hno i hi hboth.1 hboth.2⟩, fun hi => hi.1⟩⟩
  by_cases hmem : ∃ j, (t₀ j).oid = c
  · obtain ⟨j, rfl⟩ := hmem
    have heq {i : Nat} (hi : (t₀ i).oid = (t₀ j).oid) : i = j := (ht.unique j i hc hi.symm).symm
    obtain ⟨w₁, hdb, ⟨hj, hread⟩ | ⟨hj, hread⟩⟩ : ∃ w', w'.db = w.db ∧
        (j ∈ liveSlots w.db.objmeta ∧ readinfo env.atomic (t₀ j).oid 0 {} w =
            some ((.ok 0, w.db.objmeta j), w') ∨
          j ∉ liveSlots w.db.objmeta ∧ readinfo env.atomic (t₀ j).oid 0 {} w =
            some ((.error .notFound, {}), w')) := readinfo_run ht hc hr
    · by_cases hflag : (w.db.objmeta j).flags.parentDelete = true
      · have hjx : j ≠ x := fun heq => hdead (heq ▸ hj)
        have htakes : Takes h t₀ = DiesWith t₀ := takes_eq hadmin
        have hspare : ∀ b ∈ Reached (Takes h t₀) {j}, Spare t₀ (t₀ b).oid := by
          intro b hb
          rw [htakes] at hb
          rw [hfull.reached ht hx hjx hb]
          have hxlt := ht.bound x hx
          refine ⟨x, hxlt, fun hchild => hjx ?_⟩
          exact (ht.unique x j hx ((hfull x hxlt).2.symm.trans hchild.2)).symm
        obtain ⟨r, w₂, hrun, hout⟩ : ∃ r w', deleteImm env.atomic h fuel (w.db.objmeta j) false
            w₁ = some (r, w') ∧ DeleteOutcome h t₀ j false w₁.db w'.db :=
          deleteImm_run ht hremap hnow fuel (by rwa [hdb]) (hr.oid j hj.1) hc (fun _ => hspare)
            (Or.inr ⟨by rwa [hdb], (liveCount_le_objMax _).trans hfuel⟩)
        have hmay : (w.db.objmeta j).writeDenied h = false := by
          simp [ObjInfo.writeDenied, hadmin]
        refine ⟨w₂, ?_, hout.remains (by rwa [hdb]), fun i => ?_⟩
        · refine bind_some.mpr ⟨_, _, hread, ?_⟩
          dsimp only
          rw [if_pos hflag]
          exact bind_some.mpr ⟨_, _, hrun, rfl⟩
        · rw [hdb] at hout
          rcases hout with ⟨hno, -⟩ | ⟨-, -, hpass, ⟨hout, -⟩, -⟩
          · exact absurd ⟨hj.1, hmay, Or.inl hj.2⟩ hno
          · constructor
            · intro hi
              exact ⟨hpass.subset hi, fun hboth => hout (heq hboth.1 ▸ hi)⟩
            · rintro ⟨hi, hno⟩
              by_contra hi'
              have hij := hfull.reached ht hx hjx (htakes ▸ hpass.reached i hi hi')
              refine hno ⟨by rw [hij], ?_⟩
              rw [hij, ← hr.flags]
              exact hflag
      · refine ⟨w₁, bind_some.mpr ⟨_, _, hread, ?_⟩, hsame hdb fun i _ hi hparent => ?_⟩
        · dsimp only
          rw [if_neg hflag]
          rfl
        · rw [heq hi, ← hr.flags] at hparent
          exact hflag hparent
    · refine ⟨w₁, bind_some.mpr ⟨_, _, hread, rfl⟩, hsame hdb fun i hlive hi _ => ?_⟩
      exact hj (heq hi ▸ hlive)
  · have hnone : w.db.findmetaById c = none := by
      cases hi : w.db.findmetaById c with
      | none => rfl
      | some i =>
          have hoid := (Db.findmetaById_some hi).2
          exact absurd ⟨i, (hr.oid i (by rwa [hoid])).symm.trans hoid⟩ hmem
    have hrejected : Rejected env.atomic w c := rejected_of_none hnone
    obtain ⟨w₁, hread, hdb⟩ := hrejected.readinfo 0 {}
    exact ⟨w₁, bind_some.mpr ⟨_, _, hread, rfl⟩, hsame hdb fun i _ hi _ => hmem ⟨i, hi⟩⟩

theorem deleteLeaves_run (ht : InsertedTable t₀) (hremap : env.nameRemap [] = [])
    (hnow : ∀ k, env.now k ≠ 0) (hadmin : h.admin = true) (hx : (t₀ x).oid ≠ 0)
    (hfull : FullFamily t₀ x) {fuel : Nat} (hfuel : objMax ≤ fuel) {children : List ObjId}
    (hr : Remains t₀ w.db.objmeta) (hdead : x ∉ liveSlots w.db.objmeta)
    (hne : ∀ c ∈ children, c ≠ 0) :
    ∃ w', children.forM (deleteChild env.atomic fun child =>
        deleteImm env.atomic h fuel child false) w = some (⟨⟩, w') ∧
      ∀ i, i ∈ liveSlots w'.db.objmeta ↔ i ∈ liveSlots w.db.objmeta ∧
        ¬ ((t₀ i).oid ∈ children ∧ (t₀ i).flags.parentDelete = true) := by
  induction children generalizing w with
  | nil => exact ⟨w, rfl, fun i => by simp⟩
  | cons c children ih =>
      obtain ⟨w₁, hrun₁, hr₁, hlive₁⟩ := deleteLeaf_run ht hremap hnow hadmin hx hfull hfuel hr
        hdead (hne c List.mem_cons_self)
      obtain ⟨w₂, hrun₂, hlive₂⟩ := ih hr₁ (fun hlive => hdead ((hlive₁ x).mp hlive).1)
        fun c' hc' => hne c' (List.mem_cons_of_mem c hc')
      refine ⟨w₂, bind_some.mpr ⟨_, _, hrun₁, hrun₂⟩, fun i => ?_⟩
      rw [hlive₂, hlive₁, List.mem_cons, and_assoc, or_and_right, not_or]

/-- What a delete leaves where all slots belong to the object: the entries of the list are the
objects in the other places, and what its last place held. -/
theorem delete_liveSlots_full (ht : InsertedTable w.db.objmeta) (hremap : env.nameRemap [] = [])
    (hnow : ∀ k, env.now k ≠ 0) (hadmin : h.admin = true) (hx : (w.db.objmeta x).Live)
    (hfull : FullFamily w.db.objmeta x) {fuel : Nat} (hfuel : objMax < fuel)
    (hoid : metadata.oid = (w.db.objmeta x).oid) :
    ∃ r w', deleteImm env.atomic h fuel metadata false w = some (r, w') ∧
      ∀ i, i ∈ liveSlots w'.db.objmeta ↔ i ∈ liveSlots w.db.objmeta ∧ i ≠ x ∧
        ¬ ((i < objMax - 1 ∨ env.uninit (objMax - 1) = (w.db.objmeta i).oid) ∧
          (w.db.objmeta i).flags.parentDelete = true) := by
  obtain ⟨fuel, rfl⟩ : ∃ n, fuel = n + 1 := ⟨fuel - 1, by omega⟩
  have hdb : (w.lock env.atomic).db = w.db := atomic_lock_db w
  have hmay : (w.db.objmeta x).writeDenied h = false := by simp [ObjInfo.writeDenied, hadmin]
  obtain ⟨children, hfind, hchildren⟩ := mem_children_full (w := w.lock env.atomic) (x := x)
    (by rwa [hdb]) hremap (by rw [hdb]; exact hx.1) (by rwa [hdb])
  rw [hdb] at hfind hchildren
  have hfound : w.db.findmetaById metadata.oid = some x := by
    rw [hoid]
    exact findmetaById_present ht Remains.refl hx.1
  rw [← hoid] at hfind
  obtain ⟨n, m', w₁, info, hlocked, hobj, hmark⟩ : ∃ n m' w₁ info,
      deleteLocked env.atomic h metadata false w = some ((.ok n, m', children), w₁) ∧
      w₁.db.objmeta = Function.update w.db.objmeta x info ∧ Marked (w.db.objmeta x) info :=
    deleteLocked_marks hnow hfound ⟨hmay, Or.inl hx.2⟩ hfind
  have hlive₁ : liveSlots w₁.db.objmeta = liveSlots w.db.objmeta \ {x} := by
    rw [hobj]
    exact liveSlots_mark hmark
  obtain ⟨w₂, hloop, hlive₂⟩ := deleteLeaves_run ht hremap hnow hadmin hx.1 hfull
    (Nat.le_of_lt_succ hfuel) (hobj ▸ Remains.refl.mark hmark)
    (by rw [hlive₁]; exact fun h => h.2 rfl) (findChildren_some hfind).2
  refine ⟨_, w₂, bind_some.mpr ⟨_, _, hlocked, bind_some.mpr ⟨_, _, hloop, rfl⟩⟩, fun i => ?_⟩
  rw [hlive₂, hlive₁, Set.mem_sdiff, Set.mem_singleton_iff, and_assoc]
  refine and_congr_right fun hi => and_congr_right fun _ => not_congr (and_congr_left fun _ => ?_)
  rw [hchildren]
  constructor
  · rintro (⟨j, hj, hji⟩ | ⟨hlast, -⟩)
    · exact Or.inl (ht.unique i j hi.1 hji.symm ▸ hj)
    · exact Or.inr hlast.symm
  · rintro (hlt | hlast)
    · exact Or.inl ⟨i, hlt, rfl⟩
    · exact Or.inr ⟨hlast.symm, hi.1⟩

/-! ## The cascade -/

/-- The delete returns and has deleted, once each, the object and the live objects below it that
go with their parents, and every other slot is as it was. -/
def CascadesRight (env : Env) (h : Handle) (x : Nat) (w : World) : Prop :=
  ∀ metadata fuel, metadata.oid = (w.db.objmeta x).oid → objMax < fuel →
    ∃ r w' l, delete env h fuel metadata w = some (r, w') ∧ Deletes h l w w' ∧ l.Nodup ∧
      (∀ i, i ∈ l ↔ Relation.ReflTransGen (DiesWith w.db.objmeta) x i) ∧
      ∀ i, i ∉ l → w'.db.objmeta i = w.db.objmeta i

/-- All slots belong to the object in slot `x`, and the one in the last slot, another that should
go with it, is not what the last place of the list happened to hold. -/
def LosesChild (env : Env) (t : Nat → ObjInfo) (x : Nat) : Prop :=
  FullFamily t x ∧ x ≠ objMax - 1 ∧ (t (objMax - 1)).flags.parentDelete = true ∧
    env.uninit (objMax - 1) ≠ (t (objMax - 1)).oid

/-- The sets, and that a delete goes step by step, make the cascade right. -/
theorem cascadesRight_of_liveSlots (hnow : ∀ k, env.now k ≠ 0)
    (ht : InsertedTable w.db.objmeta) (hlive : (w.db.objmeta x).Live)
    (hleft : ∀ {metadata : ObjInfo} {fuel : Nat}, metadata.oid = (w.db.objmeta x).oid →
      objMax < fuel → ∃ r w', deleteImm env.atomic h fuel metadata false w = some (r, w') ∧
        ∀ i, i ∈ liveSlots w'.db.objmeta ↔
          i ∈ liveSlots w.db.objmeta ∧ ¬ Relation.ReflTransGen (DiesWith w.db.objmeta) x i) :
    CascadesRight env.atomic h x w := by
  intro metadata fuel hoid hfuel
  obtain ⟨r, w', hrun, hleft⟩ := hleft hoid hfuel
  have hfound : ∀ i, w.db.findmetaById metadata.oid = some i → (w.db.objmeta i).deletedTs = 0 := by
    intro i hi
    rw [hoid, findmetaById_present ht Remains.refl hlive.1] at hi
    exact Option.some.inj hi ▸ hlive.2
  obtain ⟨l, hd⟩ := deleteImm_deletes hnow fuel metadata r w w' (by rw [hoid]; exact hlive.1)
    hfound hrun
  refine ⟨r, w', l, hrun, hd, hd.nodup, fun i => ?_, fun i hi => hd.frame hi⟩
  rw [hd.mem_iff, hleft]
  constructor
  · rintro ⟨hi, hno⟩
    by_contra hreach
    exact hno ⟨hi, hreach⟩
  · intro hreach
    refine ⟨?_, fun hboth => hboth.2 hreach⟩
    rcases Relation.ReflTransGen.cases_tail hreach with rfl | ⟨a, -, hai⟩
    · exact hlive
    · exact hai.1

/-- Where all slots belong to the one object, it takes those along that have the flag. -/
theorem FullFamily.reflTransGen_iff (hfull : FullFamily t x) (ht : InsertedTable t) :
    Relation.ReflTransGen (DiesWith t) x i ↔
      i = x ∨ i < objMax ∧ (t i).flags.parentDelete = true := by
  constructor
  · intro hreach
    rcases Relation.ReflTransGen.cases_tail hreach with heq | ⟨a, -, hai⟩
    · exact Or.inl heq
    · exact Or.inr ⟨ht.bound i hai.1.1, hai.2.2⟩
  · rintro (rfl | ⟨hi, hflag⟩)
    · exact Relation.ReflTransGen.refl
    · exact Relation.ReflTransGen.single ⟨(hfull i hi).1, (hfull i hi).2, hflag⟩

/-- The child in the last slot is not in the list, and stays. -/
theorem not_cascadesRight_of_losesChild (hremap : env.nameRemap [] = [])
    (hnow : ∀ k, env.now k ≠ 0) (hadmin : h.admin = true) (ht : InsertedTable w.db.objmeta)
    (hlive : (w.db.objmeta x).Live) (hloses : LosesChild env w.db.objmeta x) :
    ¬ CascadesRight env.atomic h x w := by
  obtain ⟨hfull, hx, hflag, hne⟩ := hloses
  have hlast : objMax - 1 < objMax := by
    have := ht.bound x hlive.1
    omega
  intro hright
  obtain ⟨r, w', l, hdel, hd, -, hl, -⟩ := hright (w.db.objmeta x) (objMax + 1) rfl (by omega)
  obtain ⟨r', w'', hdel', hleft⟩ := delete_liveSlots_full ht hremap hnow hadmin hlive hfull
    (Nat.lt_succ_self objMax) rfl
  obtain ⟨-, rfl⟩ := Prod.mk.inj (Option.some.inj (hdel.symm.trans hdel'))
  have hmem := (hl (objMax - 1)).mpr ((hfull.reflTransGen_iff ht).mpr (Or.inr ⟨hlast, hflag⟩))
  refine (hd.mem_iff.mp hmem).2 ((hleft _).mpr ⟨(hfull _ hlast).1, hx.symm, ?_⟩)
  rintro ⟨hlt | heq, -⟩
  · exact Nat.lt_irrefl _ hlt
  · exact hne heq

/-- The cascade is right unless the list of children overflows and loses one. -/
theorem cascadesRight_iff (hremap : env.nameRemap [] = []) (hnow : ∀ k, env.now k ≠ 0)
    (hadmin : h.admin = true) (ht : InsertedTable w.db.objmeta) (hlive : (w.db.objmeta x).Live) :
    CascadesRight env.atomic h x w ↔ ¬ LosesChild env w.db.objmeta x := by
  refine ⟨fun hright hloses => ?_, fun hkeeps => ?_⟩
  · exact not_cascadesRight_of_losesChild hremap hnow hadmin ht hlive hloses hright
  refine cascadesRight_of_liveSlots hnow ht hlive fun hoid hfuel => ?_
  by_cases hfull : FullFamily w.db.objmeta x
  · obtain ⟨r, w', hdel, hleft⟩ :=
      delete_liveSlots_full (h := h) ht hremap hnow hadmin hlive hfull hfuel hoid
    refine ⟨r, w', hdel, fun i => ?_⟩
    rw [hleft, hfull.reflTransGen_iff ht, not_or]
    refine and_congr_right fun hi => and_congr_right fun hix => not_congr ?_
    have hi := ht.bound i hi.1
    constructor
    · exact fun hboth => ⟨hi, hboth.2⟩
    · rintro ⟨-, hflag⟩
      refine ⟨?_, hflag⟩
      by_cases hilast : i = objMax - 1
      · by_contra hno
        subst hilast
        exact hkeeps ⟨hfull, fun heq => hix heq.symm, hflag, fun heq => hno (Or.inr heq)⟩
      · exact Or.inl (by omega)
  · obtain ⟨r, w', hdel, hleft⟩ :=
      delete_liveSlots (h := h) ht hremap hnow hadmin hlive hfull hfuel hoid
    exact ⟨r, w', hdel, fun i => by rw [hleft, mem_reached_iff]⟩

/-! ## Families -/

/-- The first `n` slots hold children of the object in slot 0, itself included, that go with
it. -/
def familyWorld (n : Nat) : World where
  db := { Db.initial 4096 with
    objmeta := fun i =>
      if i < n then
        { oid := i + 1, parentOid := 1, createdTs := 1, flags := { parentDelete := true } }
      else {} }
  held := false
  unguarded := false
  heapLog := []
  tick := 0

theorem familyWorld_live {n : Nat} (hi : i < n) : ((familyWorld n).db.objmeta i).Live := by
  unfold familyWorld ObjInfo.Live
  dsimp only
  rw [if_pos hi]
  exact ⟨show (i + 1 : Int) ≠ 0 by omega, rfl⟩

theorem familyWorld_free {n : Nat} (hi : ¬ i < n) : ((familyWorld n).db.objmeta i).oid = 0 := by
  unfold familyWorld
  dsimp only
  rw [if_neg hi]

theorem familyWorld_inserted {n : Nat} (hn : n ≤ objMax) :
    InsertedTable (familyWorld n).db.objmeta where
  unique i j hi hij := by
    have hin : i < n := by
      by_contra hi'
      exact hi (familyWorld_free hi')
    have hjn : j < n := by
      by_contra hj'
      exact hi (hij.trans (familyWorld_free hj'))
    unfold familyWorld at hij
    dsimp only at hij
    rw [if_pos hin, if_pos hjn] at hij
    have hij : (i + 1 : Int) = j + 1 := hij
    omega
  bound i hi := by
    by_contra hi'
    exact hi (familyWorld_free (by omega))
  createdTs i hi := by
    have hin : i < n := by
      by_contra hi'
      exact hi (familyWorld_free hi')
    unfold familyWorld
    dsimp only
    rw [if_pos hin]
    show (1 : Timestamp) ≠ 0
    decide

/-- An admin deletes an object that is its own parent, with its one other child. -/
theorem cascadesRight_iff_pair :
    CascadesRight (stillEnv 4096).atomic ⟨1, true⟩ 0 (familyWorld 2) := by
  have hmax : 2 < objMax := by unfold objMax; decide
  have hiff : CascadesRight (stillEnv 4096).atomic ⟨1, true⟩ 0 (familyWorld 2) ↔ _ :=
    cascadesRight_iff rfl (stillEnv_now 4096) rfl (familyWorld_inserted (by omega))
      (familyWorld_live (by decide))
  exact hiff.mpr fun hloses => (hloses.1 2 hmax).1.1 (familyWorld_free (by decide))

/-- All slots of the table hold children of the one in slot 0; the last child is not deleted. -/
theorem exists_not_cascadesRight :
    ∃ (env : Env) (h : Handle) (w : World) (x : Nat), env.nameRemap [] = [] ∧
      (∀ k, env.now k ≠ 0) ∧ h.admin = true ∧ InsertedTable w.db.objmeta ∧
        (w.db.objmeta x).Live ∧ ¬ CascadesRight env.atomic h x w := by
  have hpos : 1 < objMax := by unfold objMax; decide
  have hinserted := familyWorld_inserted (Nat.le_refl objMax)
  have hlive : ((familyWorld objMax).db.objmeta 0).Live := familyWorld_live (by omega)
  have hinfo (i : Nat) (hi : i < objMax) : (familyWorld objMax).db.objmeta i =
      { oid := i + 1, parentOid := 1, createdTs := 1, flags := { parentDelete := true } } :=
    if_pos hi
  refine ⟨stillEnv 4096, ⟨1, true⟩, familyWorld objMax, 0, rfl, stillEnv_now 4096, rfl, hinserted,
    hlive, not_cascadesRight_of_losesChild rfl (stillEnv_now 4096) rfl hinserted hlive ?_⟩
  refine ⟨fun i hi => ⟨familyWorld_live hi, ?_⟩, by omega, ?_, ?_⟩
  · rw [hinfo i hi, hinfo 0 (by omega)]
    rfl
  · rw [hinfo _ (by omega)]
  · rw [hinfo _ (by omega)]
    show (0 : Int) ≠ ((objMax - 1 : Nat) : Int) + 1
    omega

end KogmoRtdb
