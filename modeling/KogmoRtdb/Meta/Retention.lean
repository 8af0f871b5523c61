import Mathlib.Algebra.Order.Ring.Rat
import KogmoRtdb.Meta.RefusedFrees

/-!
# How long a deleted object is kept

A deleted object stays in its slot, with its block, until its history or the database's interval
is over: `purge_objs` and an insert that reuses a slot both compare that time with their own
reading of the clock. `Retaining` is this as an invariant of the calls, of an object that is not
deleted once more with the immediate option. Here times are exact numbers: nothing is rounded.
-/

namespace KogmoRtdb

open Prog

attribute [local instance] Rounding.exact

/-! ## What is claimed -/

/-- When a deleted object may go, as an exact number. -/
def Db.keptUntil (db : Db) (info : ObjInfo) : ℚ :=
  info.deletedTs.toInt + max info.historyInterval db.defaultKeepDeletedInterval * ticksPerSecond

/-- The object is deleted, and was not to be deleted immediately. -/
structure ObjInfo.Deleted (info : ObjInfo) : Prop where
  oid : info.oid ≠ 0
  deletedTs : info.deletedTs ≠ 0
  flag : info.flags.immediatelyDelete = false

instance (info : ObjInfo) : Decidable info.Deleted :=
  decidable_of_iff (info.oid ≠ 0 ∧ info.deletedTs ≠ 0 ∧ info.flags.immediatelyDelete = false)
    ⟨fun h => ⟨h.1, h.2.1, h.2.2⟩, fun h => ⟨h.oid, h.deletedTs, h.flag⟩⟩

/-- The metadata of the same object, deleted at the same time, with the same block. -/
structure SameDeleted (info info' : ObjInfo) : Prop where
  oid : info'.oid = info.oid
  createdTs : info'.createdTs = info.createdTs
  createdProc : info'.createdProc = info.createdProc
  deletedTs : info'.deletedTs = info.deletedTs
  deletedProc : info'.deletedProc = info.deletedProc
  sizeMax : info'.sizeMax = info.sizeMax
  historyInterval : info'.historyInterval = info.historyInterval
  historySize : info'.historySize = info.historySize
  flags : info'.flags = info.flags
  bufferIdx : info'.bufferIdx = info.bufferIdx

/-- Since `w₀` slot `i` has its object, and its block has not been given back. -/
structure KeptObject (w₀ : World) (i : Nat) (w : World) : Prop where
  slot : SameDeleted (w₀.db.objmeta i) (w.db.objmeta i)
  block : ∃ calls, w.heapLog = calls ++ w₀.heapLog ∧
    ∀ b, .free b ∈ calls → b.idx ≠ (w₀.db.objmeta i).bufferIdx

/-- No reading of the clock so far was past `x`. -/
def NotPast (env : Env) (x : ℚ) (w : World) : Prop := ∀ k < w.tick, (env.now k).toInt ≤ x

instance (env : Env) (x : ℚ) (w : World) : Decidable (NotPast env x w) := by
  unfold NotPast
  infer_instance

/-- The object in slot `i` is kept as long as it should be. -/
structure Retaining (env : Env) (limit : Int) (w₀ : World) (i : Nat) (w : World) : Prop where
  owned : OwnedWorld limit w.accepted
  interval : w.db.defaultKeepDeletedInterval = w₀.db.defaultKeepDeletedInterval
  kept : NotPast env (w₀.db.keptUntil (w₀.db.objmeta i)) w → KeptObject w₀ i w

def IsTime (x : ℚ) : Prop := -2 ^ 63 ≤ x ∧ x < 2 ^ 63

instance (x : ℚ) : Decidable (IsTime x) := by
  unfold IsTime
  infer_instance

variable {env : Env} {h : Handle} {limit : Int} {w₀ w w' : World} {i : Nat} {db : Db}
  {info info' : ObjInfo} {ts : Timestamp} {imm : ObjId → Prop}

/-! ## The times -/

theorem truncate_bounds {x : ℚ} (h : IsTime x) : -2 ^ 63 ≤ truncate x ∧ truncate x < 2 ^ 63 := by
  obtain ⟨hlo, hhi⟩ := h
  have hhi' : x < ((2 ^ 63 : Int) : ℚ) := by exact_mod_cast hhi
  have hlo' : ((-2 ^ 63 : Int) : ℚ) ≤ x := by exact_mod_cast hlo
  unfold truncate
  split
  · exact ⟨Rat.le_floor_iff.mpr hlo', Rat.floor_lt_iff.mpr hhi'⟩
  · rename_i h0
    have hceil : x.ceil ≤ 0 := Rat.ceil_le_iff.mpr (by exact_mod_cast le_of_not_ge h0)
    have hle : ((-2 ^ 63 : Int) : ℚ) ≤ x.ceil := hlo'.trans Rat.le_ceil
    exact ⟨by exact_mod_cast hle, by omega⟩

theorem lt_of_truncate_lt {x : ℚ} {n : Int} (h : truncate x < n) : x < n := by
  unfold truncate at h
  split at h
  · exact Rat.floor_lt_iff.mp h
  · exact lt_of_le_of_lt Rat.le_ceil (by exact_mod_cast h)

/-- What comes after the time that the code computes comes after the exact one. -/
theorem keptUntil_lt (htime : IsTime (db.keptUntil info))
    (h : (db.scanDeleteTs info).toInt < ts.toInt) : db.keptUntil info < ts.toInt := by
  obtain ⟨hlo, hhi⟩ := truncate_bounds htime
  have hmax : (if db.defaultKeepDeletedInterval < info.historyInterval then info.historyInterval
      else db.defaultKeepDeletedInterval) =
      max info.historyInterval db.defaultKeepDeletedInterval := by
    split
    · rename_i hlt
      exact (max_eq_left hlt.le).symm
    · rename_i hle
      exact (max_eq_right (not_lt.mp hle)).symm
  have hscan : (db.scanDeleteTs info).toInt = truncate (db.keptUntil info) := by
    rw [Db.scanDeleteTs, hmax, addSecs]
    exact BitVec.toInt_ofInt_eq_self (by decide) hlo hhi
  rw [hscan] at h
  exact lt_of_truncate_lt h

/-! ## The object in its slot -/

theorem SameDeleted.refl (info : ObjInfo) : SameDeleted info info :=
  ⟨rfl, rfl, rfl, rfl, rfl, rfl, rfl, rfl, rfl, rfl⟩

theorem SameDeleted.trans {info'' : ObjInfo} (h : SameDeleted info info')
    (h' : SameDeleted info' info'') : SameDeleted info info'' where
  oid := h'.oid.trans h.oid
  createdTs := h'.createdTs.trans h.createdTs
  createdProc := h'.createdProc.trans h.createdProc
  deletedTs := h'.deletedTs.trans h.deletedTs
  deletedProc := h'.deletedProc.trans h.deletedProc
  sizeMax := h'.sizeMax.trans h.sizeMax
  historyInterval := h'.historyInterval.trans h.historyInterval
  historySize := h'.historySize.trans h.historySize
  flags := h'.flags.trans h.flags
  bufferIdx := h'.bufferIdx.trans h.bufferIdx

theorem ObjInfo.Deleted.same (h : info.Deleted) (hsame : SameDeleted info info') :
    info'.Deleted where
  oid := by rw [hsame.oid]; exact h.oid
  deletedTs := by rw [hsame.deletedTs]; exact h.deletedTs
  flag := by rw [hsame.flags]; exact h.flag

theorem ObjInfo.Deleted.not_immediate (h : info.Deleted) (himm : ¬ imm info.oid) :
    ¬ info.Immediate imm := by
  rintro (hflag | himm')
  · rw [h.flag] at hflag
    cases hflag
  · exact himm himm'

theorem KeptObject.refl (w : World) (i : Nat) : KeptObject w i w where
  slot := .refl _
  block := ⟨[], rfl, fun _ hb => absurd hb List.not_mem_nil⟩

/-- What leaves the object in its slot and gives other blocks back. -/
theorem KeptObject.step (hk : KeptObject w₀ i w)
    (hslot : SameDeleted (w.db.objmeta i) (w'.db.objmeta i)) {calls : List HeapEvent}
    (hlog : w'.heapLog = calls ++ w.heapLog)
    (hfree : ∀ b, .free b ∈ calls → b.idx ≠ (w.db.objmeta i).bufferIdx) : KeptObject w₀ i w' := by
  obtain ⟨calls', hlog', hfree'⟩ := hk.block
  refine ⟨hk.slot.trans hslot, calls ++ calls', ?_, fun b hb => ?_⟩
  · rw [hlog, hlog', List.append_assoc]
  · rcases List.mem_append.mp hb with hb | hb
    · exact hk.slot.bufferIdx ▸ hfree b hb
    · exact hfree' b hb

theorem KeptObject.idle (hk : KeptObject w₀ i w)
    (hslot : SameDeleted (w.db.objmeta i) (w'.db.objmeta i)) (hlog : w'.heapLog = w.heapLog) :
    KeptObject w₀ i w' :=
  hk.step hslot (hlog.trans (List.nil_append _).symm) fun _ hb => absurd hb List.not_mem_nil

theorem release_calls (idx : Int) (m : ObjInfo) (w : World) :
    ∃ calls, (w.release idx m).heapLog = calls ++ w.heapLog ∧
      ∀ b, .free b ∈ calls → b.idx = idx ∧ idx ≠ 0 := by
  by_cases hidx : idx = 0
  · subst hidx
    exact ⟨[], rfl, fun _ hb => absurd hb List.not_mem_nil⟩
  · refine ⟨[.free ⟨idx, m.blockSize⟩], release_heapLog m w hidx, fun b hb => ?_⟩
    cases List.mem_singleton.mp hb
    exact ⟨rfl, hidx⟩

/-! ## Deletes and purges -/

section

variable (hdel : (w₀.db.objmeta i).Deleted) (htime : IsTime (w₀.db.keptUntil (w₀.db.objmeta i)))

include htime in
/-- As long as the object is to be kept, its slot is not due. -/
theorem KeptObject.not_due (hk : KeptObject w₀ i w)
    (hinterval : w.db.defaultKeepDeletedInterval = w₀.db.defaultKeepDeletedInterval)
    (hnow : ts.toInt ≤ w₀.db.keptUntil (w₀.db.objmeta i)) :
    ¬ (w.db.scanDeleteTs (w.db.objmeta i)).toInt < ts.toInt := by
  have hsame : w.db.keptUntil (w.db.objmeta i) = w₀.db.keptUntil (w₀.db.objmeta i) := by
    rw [Db.keptUntil, Db.keptUntil, hk.slot.deletedTs, hk.slot.historyInterval, hinterval]
  intro hlt
  rw [← hsame] at hnow htime
  exact absurd (keptUntil_lt htime hlt) (not_lt.mpr hnow)

theorem NotPast.mono {x : ℚ} (hnow : NotPast env x w') (htick : w.tick ≤ w'.tick) :
    NotPast env x w := fun k hk => hnow k (Nat.lt_of_lt_of_le hk htick)

theorem scanDeleteTs_lt_of_purgeDue {purgeKeepAlloc : Bool}
    (hdue : db.purgeDue info purgeKeepAlloc ts = true) :
    (db.scanDeleteTs info).toInt < ts.toInt := by
  simp only [Db.purgeDue, Bool.and_eq_true, decide_eq_true_eq] at hdue
  exact hdue.1.2

theorem sameDeleted_update {t : Nat → ObjInfo} {j : Nat} (hij : i ≠ j) (info : ObjInfo) :
    SameDeleted (t i) (Function.update t j info i) := by
  rw [Function.update_of_ne hij]
  exact .refl _

theorem purged_interval (j : Nat) (w : World) :
    (w.purged j).db.defaultKeepDeletedInterval = w.db.defaultKeepDeletedInterval := by
  unfold World.purged World.release
  split <;> rfl

include hdel in
theorem Retaining.bufferIdx_ne (hr : Retaining env limit w₀ i w) (hk : KeptObject w₀ i w) {j : Nat}
    (hij : i ≠ j) (hocc : (w.db.objmeta j).oid ≠ 0) (hidx : (w.db.objmeta j).bufferIdx ≠ 0) :
    (w.db.objmeta j).bufferIdx ≠ (w.db.objmeta i).bufferIdx := by
  by_cases hblock : (w.db.objmeta i).bufferIdx = 0
  · rwa [hblock]
  · exact hr.owned.excl j i (Ne.symm hij) ⟨hocc, hidx⟩ ⟨(hdel.same hk.slot).oid, hblock⟩

include hdel htime in
/-- Deletes and purges keep the object, if it is none of those that are deleted immediately. -/
theorem keepsTimed_retaining (himm : ¬ imm (w₀.db.objmeta i).oid) :
    KeepsTimed env True imm (Retaining env limit w₀ i) where
  idle w w' hr hdb hlog htick := by
    refine ⟨?_, by rw [hdb]; exact hr.interval, fun hnow => ?_⟩
    · unfold OwnedWorld World.accepted
      rw [hdb, hlog]
      exact hr.owned
    · exact (hr.kept (hnow.mono htick)).idle (hdb ▸ .refl _) hlog
  mark w j k proc hr hocc hmark := by
    refine ⟨ownedAccepted_effect hr.owned (.mark (hocc trivial)), hr.interval, fun hnow => ?_⟩
    have hk := hr.kept hnow
    have hdel' := hdel.same hk.slot
    refine hk.idle (sameDeleted_update (fun hij => ?_) _) rfl
    subst hij
    rcases hmark with hlive | hmark
    · exact hdel'.deletedTs hlive
    · exact hdel'.not_immediate (by rwa [hk.slot.oid]) hmark
  purge w j hr hocc hdue := by
    have hocc := hocc trivial
    have heffect : Effect env w (w.purged j) := .purge hocc
    refine ⟨ownedAccepted_effect hr.owned heffect,
      (purged_interval j w).trans hr.interval, fun hnow => ?_⟩
    replace hnow : NotPast env _ w := hnow.mono (purged_tick j w).ge
    have hk := hr.kept hnow
    have hij : i ≠ j := by
      rintro rfl
      rcases hdue with himm' | ⟨k, hlt, purgeKeepAlloc, hdue⟩
      · exact (hdel.same hk.slot).not_immediate (by rwa [hk.slot.oid]) himm'
      · exact hk.not_due htime hr.interval (hnow k hlt) (scanDeleteTs_lt_of_purgeDue hdue)
    obtain ⟨calls, hlog, hfree⟩ := release_calls (w.db.objmeta j).bufferIdx (w.db.objmeta j) w
    refine hk.step ?_ ((purged_heapLog j w).trans hlog) fun b hb => ?_
    · rw [purged_objmeta]
      exact sameDeleted_update hij _
    · obtain ⟨hidx, hne⟩ := hfree b hb
      rw [hidx]
      exact hr.bufferIdx_ne hdel hk hij hocc hne

/-! ## Inserts -/

variable {m m' : ObjInfo} {w₁ : World} {foundSlot : Option Nat} {newIdx : Int}
  {r : Result × ObjInfo}

/-- What the search for a slot leaves as it was: it gives no block back. -/
theorem SlotSearch.frame (hs : SlotSearch env.atomic h ts m w foundSlot newIdx m' w₁) :
    w₁.db.defaultKeepDeletedInterval = w.db.defaultKeepDeletedInterval ∧ w.tick ≤ w₁.tick ∧
      ∃ calls, w₁.heapLog = calls ++ w.heapLog ∧ ∀ b, .free b ∉ calls := by
  have hno : ∀ b, HeapEvent.free b ∉ ([] : List HeapEvent) := fun _ => List.not_mem_nil
  have hlock (w : World) : (w.lock env.atomic).db.defaultKeepDeletedInterval =
      w.db.defaultKeepDeletedInterval := by rw [atomic_lock_db]
  have halloc (idx size : Int) :
      ((w.unlock.allocated idx size).lock env.atomic).heapLog =
        [.alloc ⟨idx, size⟩] ++ w.heapLog := atomic_lock_heapLog _
  have htick (idx size : Int) : w.tick ≤ ((w.unlock.allocated idx size).lock env.atomic).tick :=
    le_tick_lock (w.unlock.allocated idx size)
  have hone (idx size : Int) : ∀ b, HeapEvent.free b ∉ [HeapEvent.alloc ⟨idx, size⟩] :=
    fun b hb => by cases List.mem_singleton.mp hb
  cases hs with
  | reuse hi => exact ⟨rfl, Nat.le_refl _, [], rfl, hno⟩
  | dataless hnone hsize hi => exact ⟨rfl, Nat.le_refl _, [], rfl, hno⟩
  | noSlotDataless hnone hsize hi => exact ⟨rfl, Nat.le_refl _, [], rfl, hno⟩
  | noBlock hnone hsize hneg hfail =>
      unfold World.afterAlloc
      split
      · exact ⟨hlock _, le_tick_lock w.unlock, [], atomic_lock_heapLog _, hno⟩
      · split
        · exact ⟨hlock _, le_tick_lock w.unlock, [], atomic_lock_heapLog _, hno⟩
        · exact ⟨hlock _, htick _ _, _, halloc _ _, hone _ _⟩
  | block hnone hsize hpos hsome hidx hw hi =>
      subst hw
      exact ⟨hlock _, htick _ _, _, halloc _ _, hone _ _⟩
  | noSlot hnone hsize hpos hsome hidx hw hi =>
      subst hw
      exact ⟨hlock _, htick _ _, _, halloc _ _, hone _ _⟩

theorem release_tick (idx : Int) (m : ObjInfo) (w : World) : (w.release idx m).tick = w.tick := by
  unfold World.release
  split <;> rfl

theorem release_interval (idx : Int) (m : ObjInfo) (w : World) :
    (w.release idx m).db.defaultKeepDeletedInterval = w.db.defaultKeepDeletedInterval := by
  unfold World.release
  split <;> rfl

theorem Finish.frame (hf : Finish newIdx m w foundSlot r w') :
    w'.db.defaultKeepDeletedInterval = w.db.defaultKeepDeletedInterval ∧ w'.tick = w.tick := by
  cases hf with
  | notUniq hu => exact ⟨release_interval newIdx m w.unlock, release_tick newIdx m w.unlock⟩
  | noSlot hu => exact ⟨rfl, rfl⟩
  | @noOid i hu hoid =>
      exact ⟨release_interval m.bufferIdx m (w.write (·.setMeta i m)).oidTaken,
        release_tick m.bufferIdx m (w.write (·.setMeta i m)).oidTaken⟩
  | entered hu hoid hpos => exact ⟨rfl, rfl⟩

/-- The slot that is found is free, or its object's time is over. -/
theorem SlotSearch.free_or_due {j : Nat}
    (hs : SlotSearch env.atomic h ts m w (some j) newIdx m' w₁) :
    (w.db.objmeta j).oid = 0 ∨ (w.db.scanDeleteTs (w.db.objmeta j)).toInt < ts.toInt := by
  cases hs with
  | reuse hi =>
      have hreusable := List.find?_some hi
      simp only [Db.reusable, Bool.and_eq_true, decide_eq_true_eq] at hreusable
      exact Or.inr hreusable.2
  | dataless hnone hsize hi => exact Or.inl (Db.findmetaById_some hi).2
  | block hnone hsize hpos hsome hidx hw hi =>
      subst hw
      have hfree := (Db.findmetaById_some hi).2
      rw [atomic_lock_db] at hfree
      exact Or.inl hfree

/-- The end of an insert uses the slot that was found and gives back what is in hand. -/
theorem KeptObject.finish (hk : KeptObject w₀ i w) (hdel : (w₀.db.objmeta i).Deleted)
    (hidx : 0 ≤ (w.db.objmeta i).bufferIdx) (hfound : foundSlot ≠ some i)
    (hh : InHand limit w.accepted foundSlot newIdx m) (hf : Finish newIdx m w foundSlot r w') :
    KeptObject w₀ i w' := by
  have hblock (hne : (w.db.objmeta i).bufferIdx ≠ 0) : (w.db.objmeta i).HasBlock :=
    ⟨(hdel.same hk.slot).oid, hne⟩
  cases hf with
  | notUniq hu =>
      obtain ⟨calls, hlog, hfree⟩ := release_calls newIdx m w.unlock
      refine hk.step ?_ hlog fun b hb => ?_
      · rw [release_objmeta]
        exact .refl _
      · obtain ⟨hb, hne⟩ := hfree b hb
        rw [hb]
        rcases hh.new hne with hneg | ⟨-, hother⟩
        · omega
        · by_cases hzero : (w.db.objmeta i).bufferIdx = 0
          · rwa [hzero]
          · exact Ne.symm (hother i (hblock hzero))
  | noSlot hu => exact hk
  | @noOid j hu hoid =>
      have hij : i ≠ j := fun hij => hfound (hij ▸ rfl)
      obtain ⟨calls, hlog, hfree⟩ :=
        release_calls m.bufferIdx m (w.write (·.setMeta j m)).oidTaken
      refine hk.step ?_ hlog fun b hb => ?_
      · show SameDeleted _ (((w.write (·.setMeta j m)).oidTaken.release m.bufferIdx m).db.objmeta i)
        rw [release_objmeta]
        exact sameDeleted_update hij m
      · obtain ⟨hb, hne⟩ := hfree b hb
        rw [hb]
        by_cases hzero : (w.db.objmeta i).bufferIdx = 0
        · rwa [hzero]
        · exact Ne.symm ((hh.block hne).2 i hfound (hblock hzero))
  | @entered j oid hu hoid hpos =>
      have hij : i ≠ j := fun hij => hfound (hij ▸ rfl)
      exact hk.idle ((sameDeleted_update hij _).trans (sameDeleted_update hij _)) rfl

include hdel htime in
theorem retaining_insert {metadata : ObjInfo} (hf : AllocSound limit env.alloc)
    (hr : RefusesNegative env.alloc) (hw : Retaining env limit w₀ i w)
    (hrun : insert env.atomic h metadata w = some (r, w')) : Retaining env limit w₀ i w' := by
  rcases insert_accepted hf hr hw.owned hrun with
    ⟨-, -, rfl⟩ | ⟨-, foundSlot, newIdx, m', w₁, hs, -, hh, hfin⟩
  · refine ⟨hw.owned, hw.interval, fun hnow => ?_⟩
    exact (hw.kept (hnow.mono (Nat.le_succ _))).idle (.refl _) rfl
  · obtain ⟨hinterval, htick, calls, hlog, hnofree⟩ := hs.frame
    obtain ⟨hinterval', htick'⟩ := hfin.frame
    have hdb : (w.ask.lock env.atomic).db = w.db := atomic_lock_db w.ask
    have hlogs : w₁.heapLog = calls ++ w.heapLog :=
      hlog.trans (congrArg _ (atomic_lock_heapLog w.ask))
    have hle : w.tick < w'.tick := by
      have hask : w.ask.tick ≤ _ := (le_tick_lock w.ask).trans htick
      rw [htick']
      exact hask
    refine ⟨ownedAccepted_insert hf hr hw.owned hrun, ?_, fun hnow => ?_⟩
    · rw [hinterval', hinterval, hdb]
      exact hw.interval
    have hk := hw.kept (hnow.mono (Nat.le_of_lt hle))
    have htable : w₁.db.objmeta = w.db.objmeta := hs.db_eq.1.trans (congrArg _ hdb)
    have hk₁ : KeptObject w₀ i w₁ :=
      hk.step (htable ▸ .refl _) hlogs fun b hb => absurd hb (hnofree b)
    refine hk₁.finish hdel (hh.owned.bufferIdx_nonneg (hdel.same hk₁.slot).oid) ?_ hh hfin
    -- a slot is found if it is free or its time is over
    rintro rfl
    rcases hs.free_or_due with hfree | hdue
    · rw [hdb] at hfree
      exact (hdel.same hk.slot).oid hfree
    · rw [hdb] at hdue
      exact hk.not_due htime hw.interval (hnow _ hle) hdue

end

/-! ## Calls -/

theorem retaining_writedata {oid : ObjId} {data : Mem} {out : WriteOut}
    (hw : Retaining env limit w₀ i w) (hout : out = writedata w.db h oid data ts) :
    Retaining env limit w₀ i { w.ask with db := out.db } := by
  have howned : OwnedWorld limit { w.accepted.ask with db := out.db } :=
    ownedWorld_write hw.owned hout
  have hkept (hnow : NotPast env (w₀.db.keptUntil (w₀.db.objmeta i)) w.ask) :=
    hw.kept (hnow.mono (Nat.le_succ _))
  rcases writedata_cases hout with ⟨e, -, hdb⟩ | ⟨j, -, -, -, -, -, hdb⟩
  · rw [hdb] at howned ⊢
    exact ⟨howned, hw.interval, fun hnow => (hkept hnow).idle (.refl _) rfl⟩
  · rw [hdb] at howned ⊢
    refine ⟨howned, hw.interval, fun hnow => (hkept hnow).idle ?_ rfl⟩
    by_cases hij : i = j
    · subst hij
      have hslot (slot : Int) : SameDeleted (w.db.objmeta i)
          (Function.update w.db.objmeta i { w.db.objmeta i with historySlot := slot } i) := by
        rw [Function.update_self]
        exact ⟨rfl, rfl, rfl, rfl, rfl, rfl, rfl, rfl, rfl, rfl⟩
      exact hslot _
    · exact sameDeleted_update hij _

theorem sameDeleted_change {metadata : ObjInfo} (hinterval : metadata.historyInterval ≤ 0)
    (info : ObjInfo) : SameDeleted info (info.change metadata) where
  oid := rfl
  createdTs := rfl
  createdProc := rfl
  deletedTs := rfl
  deletedProc := rfl
  sizeMax := rfl
  historyInterval := if_neg (not_lt.mpr hinterval)
  historySize := rfl
  flags := rfl
  bufferIdx := rfl

/-- A `changeinfo` that leaves the object's history interval alone. -/
theorem keepsChange_retaining {oid : ObjId} {metadata : ObjInfo}
    (hchange : oid = (w₀.db.objmeta i).oid → metadata.historyInterval ≤ 0) :
    KeepsChange (Retaining env limit w₀ i) db h oid metadata := by
  intro w j hw hdb _ hj
  have heffect :
      Effect env w (w.write fun db => db.setMeta j ((db.objmeta j).change metadata)) := .change
  refine ⟨ownedAccepted_effect hw.owned heffect, hw.interval, fun hnow => ?_⟩
  have hk := hw.kept hnow
  refine hk.idle ?_ rfl
  by_cases hij : i = j
  · subst hij
    have hoid : oid = (w₀.db.objmeta i).oid := by
      rw [← (Db.findmetaById_some hj).2, ← hdb]
      exact hk.slot.oid
    have hself : (w.write fun db => db.setMeta i ((db.objmeta i).change metadata)).db.objmeta i =
        (w.db.objmeta i).change metadata := Function.update_self ..
    rw [hself]
    exact sameDeleted_change (hchange hoid) _
  · exact sameDeleted_update hij _

/-- The call does not delete the object with the immediate option, and leaves its history
interval alone. -/
def Op.Spares (info : ObjInfo) : Op → Prop
  | .deleteImm _ metadata immediatelyDelete _ =>
      immediatelyDelete = true → metadata.oid ≠ info.oid
  | .changeinfo _ oid metadata => oid = info.oid → metadata.historyInterval ≤ 0
  | _ => True

instance (info : ObjInfo) : DecidablePred (Op.Spares info)
  | .deleteImm _ metadata immediatelyDelete _ =>
      inferInstanceAs (Decidable (immediatelyDelete = true → metadata.oid ≠ info.oid))
  | .changeinfo _ oid metadata =>
      inferInstanceAs (Decidable (oid = info.oid → metadata.historyInterval ≤ 0))
  | .insert .. | .purgeObjs | .writedata .. => isTrue trivial

theorem retaining_op {op : Op} {events : List ApiEvent} (hf : AllocSound limit env.alloc)
    (hr : RefusesNegative env.alloc)
    (hdel : (w₀.db.objmeta i).Deleted) (htime : IsTime (w₀.db.keptUntil (w₀.db.objmeta i)))
    (hoid : OidKnown op) (hspares : op.Spares (w₀.db.objmeta i))
    (hw : Retaining env limit w₀ i w) (hrun : op.run env.atomic w = some (events, w')) :
    Retaining env limit w₀ i w' := by
  have hP : KeepsTimed env True (fun o => o ≠ (w₀.db.objmeta i).oid)
      (Retaining env limit w₀ i) := keepsTimed_retaining hdel htime fun h => h rfl
  rcases op_cases_timed hP
    (by rintro h oid metadata rfl; exact keepsChange_retaining hspares)
    (by rintro - h metadata imm fuel rfl; exact hoid)
    (by rintro h metadata fuel rfl; exact hspares rfl) hw hrun with
    ⟨h, metadata, r, rfl, hins, -⟩ | ⟨h, oid, data, out, rfl, hout, rfl, -⟩ | ⟨hw', -⟩
  · exact retaining_insert hdel htime hf hr hw hins
  · exact retaining_writedata hw hout
  · exact hw'

end KogmoRtdb
