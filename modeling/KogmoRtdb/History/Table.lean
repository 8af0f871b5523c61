import KogmoRtdb.History.Stored
import KogmoRtdb.Meta.Lifetime
import KogmoRtdb.Meta.SlotRings

/-!
# The table as an archive

`Shows` says that a table and a heap are an archive: every occupied slot holds the object that
the archive has under its oid, and the archive has no others. There is one lemma for each change
of the archive, with what it takes of the table and the heap: an object enters a slot, a record
is stored in an object's next slot, metadata change, an object leaves.
-/

namespace KogmoRtdb

abbrev Archived := Archive.Change ObjId ObjInfo Commit

structure Shows (objmeta : Nat → ObjInfo) (heap : Heap) (cs : List Archived) : Prop where
  oids : OidTable objmeta
  stored : ∀ i, (objmeta i).oid ≠ 0 →
    ∃ o, Archive.lookup (objmeta i).oid cs = some o ∧ ShownBy heap (objmeta i) o
  slot : ∀ oid o, Archive.lookup oid cs = some o → oid ≠ 0 ∧ ∃ i, (objmeta i).oid = oid

variable {objmeta objmeta' : Nat → ObjInfo} {db : Db} {heap heap' : Heap} {info info' : ObjInfo}
  {n i : Nat} {rs : List Commit} {c : Commit} {o : Stored} {oid : ObjId} {cs : List Archived}
  {f : ObjInfo → ObjInfo} {src : Mem}

/-! ## Rings -/

namespace HistoryRing

theorem slot_of_mem (hr : HistoryRing heap info n rs) {r : Int × Commit}
    (hmem : r ∈ (ringRecords n rs).take n) :
    (∃ k < n, r.1 = (k : Nat)) ∧ (r.2.size : Int) ≤ info.sizeMax := by
  obtain ⟨m, -, -, hslot⟩ := mem_ringRecords_take hmem
  have hc : r.2 ∈ ((ringRecords n rs).take n).map Prod.snd := List.mem_map_of_mem hmem
  rw [ringRecords_take_map_snd] at hc
  exact ⟨⟨m % n, Nat.mod_lt m hr.block.pos, hslot⟩, hr.size _ (List.mem_of_mem_take hc)⟩

theorem transport (hs : SameRing info info') (hheap : AgreeOn info heap heap')
    (hr : HistoryRing heap info n rs) : HistoryRing heap' info' n rs where
  block := hs.block hr.block
  slot := hs.historySlot.trans hr.slot
  held r hmem b hb := by
    obtain ⟨⟨k, hk, hslot⟩, hsize⟩ := hr.slot_of_mem hmem
    rw [← hr.held r hmem b hb, hslot]
    exact window_agree hs hheap hr.block hk (by omega)
  blank hlt := (hr.blank hlt).transport hs hheap hr.block (by have := hr.block.pos; omega)
  size c hc := by
    rw [hs.sizeMax]
    exact hr.size c hc
  stamp := hr.stamp
  sorted := hr.sorted

theorem empty (hb : Block info n) (hslot : info.historySlot = -1)
    (hlast : Stampless heap info (n - 1 : Nat)) : HistoryRing heap info n [] where
  block := hb
  slot := hslot
  held r hmem := by simp [ringRecords] at hmem
  blank _ := hlast
  size c hc := by cases hc
  stamp c hc := by cases hc
  sorted := .nil

/-- The next record takes the place of the one that drops out of the last `n`. -/
theorem store (hr : HistoryRing db.heap (db.objmeta i) n rs)
    (hbytes : c.bytes = (defaultDataTs src c.stamp).write64 0 c.stamp)
    (hsrc : (src.read32 20).toInt = c.size) (hsize : (c.size : Int) ≤ (db.objmeta i).sizeMax)
    (hstamp : 2 ^ 32 ≤ c.stamp.toInt) (hlater : ∀ d ∈ rs, d.stamp.toInt < c.stamp.toInt) :
    HistoryRing (storeRecord db i (rs.length % n : Nat) src c.size c.stamp).heap
      { db.objmeta i with historySlot := (rs.length % n : Nat) } n (c :: rs) := by
  have hb := hr.block
  have hn := hb.pos
  have h24 := hb.sizeMin
  have hlt := Nat.mod_lt rs.length hn
  have hother {k b : Nat} (hk : k < n) (hne : k ≠ rs.length % n)
      (hbyte : (b : Int) < (db.objmeta i).sizeMax) :
      slotWindow (storeRecord db i (rs.length % n : Nat) src c.size c.stamp).heap
        (db.objmeta i) k b = slotWindow db.heap (db.objmeta i) k b :=
    window_storeRecord_ne hb hsize hk hlt hne hbyte
  refine ⟨⟨hb.historySize, hn, h24, hb.idx, hb.bound⟩, rfl, fun r hmem => ?_, fun hfew => ?_,
    fun d hd => ?_, fun d hd => ?_, List.pairwise_cons.mpr ⟨hlater, hr.sorted⟩⟩
  · obtain ⟨k, rfl⟩ : ∃ k, n = k + 1 := ⟨n - 1, by omega⟩
    rw [ringRecords, List.take_succ_cons] at hmem
    rcases List.mem_cons.mp hmem with rfl | hmem
    · exact holdsRecord_storeRecord hbytes hsrc
    · obtain ⟨m, hm, hmk, hslot⟩ := mem_ringRecords_take hmem
      have hmem' := List.take_subset_take_left (ringRecords (k + 1) rs) (Nat.le_succ k) hmem
      have hrs := (hr.slot_of_mem hmem').2
      intro b hbyte
      rw [← hr.held r hmem' b hbyte, hslot]
      exact hother (Nat.mod_lt m hn) (Ring.mod_ne_of_lt hm (by omega)) (by omega)
  · -- the last slot of the ring is the last one to be written
    rw [List.length_cons] at hfew
    have hno := hr.blank (by omega)
    unfold Stampless at hno ⊢
    rw [← hno]
    refine Mem.read32_congr fun b _ h2 => hother (by omega) ?_ (by omega)
    rw [Nat.mod_eq_of_lt (by omega)]
    omega
  · rcases List.mem_cons.mp hd with rfl | hd
    · exact hsize
    · exact hr.size d hd
  · rcases List.mem_cons.mp hd with rfl | hd
    · exact hstamp
    · exact hr.stamp d hd

end HistoryRing

/-! ## Objects -/

theorem ShownBy.alter (hs : ShownBy heap info o) (hsame : SameRing info info')
    (hf : info'.shown = f info.shown) (hheap : info.bufferIdx ≠ 0 → AgreeOn info heap heap') :
    ShownBy heap' info' { o with info := f o.info } where
  shown := by rw [hf, hs.shown]
  ring hidx := by
    rw [hsame.bufferIdx] at hidx
    obtain ⟨n, hr⟩ := hs.ring hidx
    exact ⟨n, hr.transport hsame (hheap hidx)⟩
  dataless h0 := hs.dataless (hsame.bufferIdx.symm.trans h0)

theorem ShownBy.agree (hs : ShownBy heap info o)
    (hheap : info.bufferIdx ≠ 0 → AgreeOn info heap heap') : ShownBy heap' info o :=
  hs.alter (f := id) (.refl info) rfl hheap

namespace Shows

theorem lookup_slot (hs : Shows objmeta heap cs) (hocc : (objmeta i).oid ≠ 0)
    (hlook : Archive.lookup (objmeta i).oid cs = some o) : ShownBy heap (objmeta i) o := by
  obtain ⟨o', hlook', hshown⟩ := hs.stored i hocc
  rw [hlook] at hlook'
  cases hlook'
  exact hshown

theorem lookup_none (hs : Shows objmeta heap cs) (hno : ∀ i, (objmeta i).oid ≠ oid) :
    Archive.lookup oid cs = none := by
  cases hlook : Archive.lookup oid cs with
  | none => rfl
  | some o =>
      obtain ⟨-, i, hi⟩ := hs.slot oid o hlook
      exact absurd hi (hno i)

theorem agree (hs : Shows objmeta heap cs)
    (hheap : ∀ i, (objmeta i).HasBlock → AgreeOn (objmeta i) heap heap') :
    Shows objmeta heap' cs where
  oids := hs.oids
  stored i hocc := by
    obtain ⟨o, hlook, hshown⟩ := hs.stored i hocc
    exact ⟨o, hlook, hshown.agree fun hidx => hheap i ⟨hocc, hidx⟩⟩
  slot := hs.slot

/-- One slot changes, and the archive under one oid, which no other slot has. -/
theorem replace {k : ObjId} {cs' : List Archived} (hs : Shows objmeta heap cs) (hi : i < objMax)
    (hold : (objmeta i).oid = 0 ∨ (objmeta i).oid = k) (hfree : ∀ j, j ≠ i → (objmeta j).oid ≠ k)
    (hlook : ∀ oid, oid ≠ k → Archive.lookup oid cs' = Archive.lookup oid cs)
    (hat : info.oid = 0 ∧ Archive.lookup k cs' = none ∨
      k ≠ 0 ∧ info.oid = k ∧ ∃ o, Archive.lookup k cs' = some o ∧ ShownBy heap' info o)
    (hheap : ∀ j, j ≠ i → (objmeta j).HasBlock → AgreeOn (objmeta j) heap heap') :
    Shows (Function.update objmeta i info) heap' cs' := by
  have hinfo : info.oid ≠ 0 → info.oid = k := fun hne =>
    hat.elim (fun h => absurd h.1 hne) fun h => h.2.1
  refine ⟨⟨fun j j' hj hjj' => ?_, fun j hj => ?_⟩, fun j hj => ?_, fun oid o hfound => ?_⟩
  · by_cases hji : j = i <;> by_cases hji' : j' = i
    · rw [hji, hji']
    · subst hji
      rw [Function.update_self] at hj hjj'
      rw [Function.update_of_ne hji', hinfo hj] at hjj'
      exact absurd hjj'.symm (hfree j' hji')
    · subst hji'
      rw [Function.update_of_ne hji] at hj hjj'
      rw [Function.update_self] at hjj'
      exact absurd (hjj'.trans (hinfo (hjj' ▸ hj))) (hfree j hji)
    · rw [Function.update_of_ne hji] at hj hjj'
      rw [Function.update_of_ne hji'] at hjj'
      exact hs.oids.unique j j' hj hjj'
  · by_cases hji : j = i
    · rwa [hji]
    · rw [Function.update_of_ne hji] at hj
      exact hs.oids.bound j hj
  · by_cases hji : j = i
    · subst hji
      rw [Function.update_self] at hj ⊢
      rcases hat with ⟨h0, -⟩ | ⟨-, hk, hstored⟩
      · exact absurd h0 hj
      · rwa [hk]
    · rw [Function.update_of_ne hji] at hj ⊢
      obtain ⟨o, hfound, hshown⟩ := hs.stored j hj
      exact ⟨o, (hlook _ (hfree j hji)).trans hfound,
        hshown.agree fun hidx => hheap j hji ⟨hj, hidx⟩⟩
  · by_cases hk : oid = k
    · subst hk
      rcases hat with ⟨-, hnone⟩ | ⟨hne, hinfo, -⟩
      · rw [hnone] at hfound
        cases hfound
      · exact ⟨hne, i, by rw [Function.update_self, hinfo]⟩
    · rw [hlook oid hk] at hfound
      obtain ⟨hne, j, hj⟩ := hs.slot oid o hfound
      have hji : j ≠ i := by
        rintro rfl
        rcases hold with h0 | hk'
        · exact hne (hj.symm.trans h0)
        · exact hk (hj.symm.trans hk')
      exact ⟨hne, j, by rw [Function.update_of_ne hji, hj]⟩

theorem oid_ne (hs : Shows objmeta heap cs) (hocc : (objmeta i).oid ≠ 0) (j : Nat) (hji : j ≠ i) :
    (objmeta j).oid ≠ (objmeta i).oid := fun heq => hji (hs.oids.unique i j hocc heq.symm).symm

theorem alter (hs : Shows objmeta heap cs) (hocc : (objmeta i).oid ≠ 0)
    (hsame : SameRing (objmeta i) info) (hf : info.shown = f (objmeta i).shown) :
    Shows (Function.update objmeta i info) heap (.alter (objmeta i).oid f :: cs) := by
  obtain ⟨o, hlook, hshown⟩ := hs.stored i hocc
  refine hs.replace (hs.oids.bound i hocc) (Or.inr rfl) (hs.oid_ne hocc)
    (fun oid hne => Archive.lookup_cons_of_ne (by exact hne.symm))
    (Or.inr ⟨hocc, hsame.oid, { o with info := f o.info }, ?_, ?_⟩) fun _ _ _ _ _ _ => rfl
  · exact Archive.lookup_cons_self.trans (congrArg _ hlook)
  · exact hshown.alter hsame hf fun _ _ _ _ => rfl

theorem drop (hs : Shows objmeta heap cs) (hocc : (objmeta i).oid ≠ 0) (h0 : info.oid = 0) :
    Shows (Function.update objmeta i info) heap (.drop (objmeta i).oid :: cs) :=
  hs.replace (hs.oids.bound i hocc) (Or.inr rfl) (hs.oid_ne hocc)
    (fun oid hne => Archive.lookup_cons_of_ne (by exact hne.symm))
    (Or.inl ⟨h0, Archive.lookup_cons_self⟩) fun _ _ _ _ _ _ => rfl

theorem idle (hs : Shows objmeta heap cs) (hold : (objmeta i).oid = 0) (h0 : info.oid = 0) :
    Shows (Function.update objmeta i info) heap cs := by
  have hoids : OidTable (Function.update objmeta i info) :=
    hs.oids.same (sameObject_update rfl fun hne => absurd h0 hne)
  refine ⟨hoids, fun j hj => ?_, fun oid o hlook => ?_⟩
  · by_cases hji : j = i
    · subst hji
      rw [Function.update_self] at hj
      exact absurd h0 hj
    · rw [Function.update_of_ne hji] at hj ⊢
      exact hs.stored j hj
  · obtain ⟨hne, j, hj⟩ := hs.slot oid o hlook
    have hji : j ≠ i := by
      rintro rfl
      exact hne (hj.symm.trans hold)
    exact ⟨hne, j, by rw [Function.update_of_ne hji, hj]⟩

/-- An object without records enters a free slot under an oid of its own. -/
theorem enter (hs : Shows objmeta heap cs) (hi : i < objMax) (hold : (objmeta i).oid = 0)
    (hoid : info.oid ≠ 0) (hnew : ∀ j, (objmeta j).oid ≠ info.oid)
    (hring : info.bufferIdx ≠ 0 → ∃ n, HistoryRing heap info n []) :
    Shows (Function.update objmeta i info) heap (.enter info.oid info.shown :: cs) :=
  hs.replace hi (Or.inl hold) (fun j _ => hnew j)
    (fun oid hne => Archive.lookup_cons_of_ne (by exact hne.symm))
    (Or.inr ⟨hoid, rfl, ⟨info.shown, []⟩, Archive.lookup_cons_self, rfl, hring, fun _ => rfl⟩)
    fun _ _ _ _ _ _ => rfl

theorem add (hs : Shows db.objmeta db.heap cs) (hocc : (db.objmeta i).oid ≠ 0)
    (hidx : (db.objmeta i).bufferIdx ≠ 0)
    (hbytes : c.bytes = (defaultDataTs src c.stamp).write64 0 c.stamp)
    (hsrc : (src.read32 20).toInt = c.size) (hsize : (c.size : Int) ≤ (db.objmeta i).sizeMax)
    (hstamp : 2 ^ 32 ≤ c.stamp.toInt)
    (hlater : ∀ o, Archive.lookup (db.objmeta i).oid cs = some o →
      ∀ d ∈ o.records, d.stamp.toInt < c.stamp.toInt)
    (hapart : ∀ j, j ≠ i → (db.objmeta j).HasBlock →
      (db.objmeta j).heapBlock.Apart (db.objmeta i).heapBlock) :
    Shows (storeRecord db i (nextSlot (db.objmeta i).historySize (db.objmeta i).historySlot) src
        c.size c.stamp).objmeta
      (storeRecord db i (nextSlot (db.objmeta i).historySize (db.objmeta i).historySlot) src
        c.size c.stamp).heap
      (.add (db.objmeta i).oid c :: cs) := by
  obtain ⟨o, hlook, hshown⟩ := hs.stored i hocc
  obtain ⟨n, hr⟩ := hshown.ring hidx
  have hlt : o.records.length % n < n := Nat.mod_lt _ hr.block.pos
  rw [hr.block.historySize, hr.slot, nextSlot_lastSlot]
  refine hs.replace (hs.oids.bound i hocc) (Or.inr rfl) (hs.oid_ne hocc)
    (fun oid hne => Archive.lookup_cons_of_ne (by exact hne.symm))
    (Or.inr ⟨hocc, rfl, { o with records := c :: o.records }, ?_, ?_⟩) fun j hji hj => ?_
  · exact Archive.lookup_cons_self.trans (congrArg _ hlook)
  · exact ⟨hshown.shown, fun _ => ⟨n, hr.store hbytes hsrc hsize hstamp (hlater o hlook)⟩,
      fun h0 => absurd h0 hidx⟩
  · exact agreeOn_put hr.block hlt (by have := c.size_min; omega) hsize (hapart j hji hj)

end Shows

end KogmoRtdb
