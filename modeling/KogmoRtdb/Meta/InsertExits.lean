import KogmoRtdb.Meta.Insert

/-!
# How an insert ends

One constructor for each way through `kogmo_rtdb_obj_insert`, with what was
found on the way and the world it leaves. `SlotSearch` is the part up to the
uniqueness check: which slot was found, what `new_allocated_heap_idx` holds, and
the metadata with its `buffer_idx`. `Finish` is the rest. Every property of `insert`
is proved from these two.
-/

namespace KogmoRtdb

variable {env : Env} {h : Handle} {ts : Timestamp} {m : ObjInfo}

/-- `kogmo_rtdb_obj_mem_free`, unless `idx` stands for no block. -/
def World.release (idx : Int) (m : ObjInfo) (w : World) : World :=
  if idx ≠ 0 then w.freed idx m.blockSize else w

/-- The object's metadata in the table, less its `oid`: the root object excepted, it
has a parent. -/
def ObjInfo.withParent (m : ObjInfo) (oid : ObjId) : ObjInfo :=
  if m.parentOid = 0 ∧ 1 < oid then { m with parentOid := 1 } else m

/-- From the lock to the uniqueness check: `found_slot`, `new_allocated_heap_idx`, the
metadata and the world. -/
inductive SlotSearch [Rounding] (env : Env) (h : Handle) (ts : Timestamp) (m : ObjInfo)
    (w : World) : Option Nat → Int → ObjInfo → World → Prop where
  | reuse {i : Nat} (hi : findReusable w.db h m ts = some i) :
      SlotSearch env h ts m w (some i) 0 { m with bufferIdx := (w.db.objmeta i).bufferIdx } w
  | dataless {i : Nat} (hnone : findReusable w.db h m ts = none) (hsize : m.sizeMax = 0)
      (hi : w.db.findmetaById 0 = some i) :
      SlotSearch env h ts m w (some i) 0 m (w.write (·.addFree (-1)))
  | noSlotDataless (hnone : findReusable w.db h m ts = none) (hsize : m.sizeMax = 0)
      (hi : w.db.findmetaById 0 = none) : SlotSearch env h ts m w none 0 m w
  | noBlock {idx : Int} (hnone : findReusable w.db h m ts = none) (hsize : m.sizeMax ≠ 0)
      (hidx : idx < 0) (halloc : allocFails env w.heapLog m.blockSize) :
      SlotSearch env h ts m w none idx m ((w.unlock.afterAlloc env m.blockSize).lock env)
  | block {idx : Int} {i : Nat} {w₁ : World} (hnone : findReusable w.db h m ts = none)
      (hsize : m.sizeMax ≠ 0) (hpos : 0 < m.blockSize)
      (halloc : env.alloc w.heapLog m.blockSize = some idx) (hidx : 0 ≤ idx)
      (hw : w₁ = (w.unlock.allocated idx m.blockSize).lock env)
      (hi : w₁.db.findmetaById 0 = some i) :
      SlotSearch env h ts m w (some i) idx { m with bufferIdx := idx }
        (w₁.write (·.addFree (-1)))
  | noSlot {idx : Int} {w₁ : World} (hnone : findReusable w.db h m ts = none)
      (hsize : m.sizeMax ≠ 0) (hpos : 0 < m.blockSize)
      (halloc : env.alloc w.heapLog m.blockSize = some idx) (hidx : 0 ≤ idx)
      (hw : w₁ = (w.unlock.allocated idx m.blockSize).lock env)
      (hi : w₁.db.findmetaById 0 = none) :
      SlotSearch env h ts m w none idx { m with bufferIdx := idx } w₁

inductive Finish (newIdx : Int) (m : ObjInfo) (w : World) :
    Option Nat → Result × ObjInfo → World → Prop where
  | notUniq {foundSlot : Option Nat} (hu : w.db.notUniq m = true) :
      Finish newIdx m w foundSlot (.error .notUniq, m) (w.unlock.release newIdx m)
  | noSlot (hu : w.db.notUniq m = false) : Finish newIdx m w none (.error .outOfObj, m) w
  | noOid {i : Nat} (hu : w.db.notUniq m = false) (hoid : wrap32 w.db.objmetaOidNext ≤ 0) :
      Finish newIdx m w (some i) (.error .outOfObj, m)
        ((w.write (·.setMeta i m)).oidTaken.release m.bufferIdx m).unlock
  | entered {i : Nat} {oid : ObjId} (hu : w.db.notUniq m = false)
      (hoid : oid = wrap32 w.db.objmetaOidNext) (hpos : 0 < oid) :
      Finish newIdx m w (some i) (.ok oid, { m.withParent oid with oid := oid })
        ((w.write (·.setMeta i m)).oidTaken.write
          (·.setMeta i { m.withParent oid with oid := oid })).unlock

/-! ## The programs end in one of these ways -/

theorem memAlloc_some {env : Env} {size idx : Int} {w w' : World}
    (h : memAlloc env size w = some (idx, w')) :
    w' = w.afterAlloc env size ∧
      (allocFails env w.heapLog size ∧ idx < 0 ∨
        0 < size ∧ env.alloc w.heapLog size = some idx ∧ 0 ≤ idx) := by
  unfold memAlloc at h
  unfold World.afterAlloc allocFails
  split at h
  · rename_i hsize
    cases h
    exact ⟨by rw [if_pos hsize], Or.inl ⟨Or.inl hsize, by decide⟩⟩
  · rename_i hsize
    rw [if_neg hsize]
    split at h <;> rename_i halloc <;> cases h <;> rw [halloc]
    · exact ⟨rfl, Or.inl ⟨Or.inr (by decide), by decide⟩⟩
    · refine ⟨rfl, ?_⟩
      by_cases hidx : idx < 0
      · exact Or.inl ⟨Or.inr hidx, hidx⟩
      · exact Or.inr ⟨by omega, rfl, by omega⟩

theorem afterAlloc_of_some {env : Env} {size idx : Int} {w : World} (hpos : 0 < size)
    (halloc : env.alloc w.heapLog size = some idx) :
    w.afterAlloc env size = w.allocated idx size := by
  rw [World.afterAlloc, if_neg (by omega), halloc]

theorem release_some {idx : Int} {w w' : World} {u : PUnit}
    (h : Prog.when (idx ≠ 0) (memFree idx m.blockSize) w = some (u, w')) :
    w' = w.release idx m := by
  unfold Prog.when at h
  unfold World.release
  by_cases hidx : idx ≠ 0
  · rw [if_pos hidx] at h ⊢
    cases h
    rfl
  · rw [if_neg hidx] at h ⊢
    cases h
    rfl

theorem findFreeSlot_some {newIdx : Int} {w w' : World} {e : LoopExit}
    (hrun : findFreeSlot false newIdx m w = some (e, w')) :
    (∃ i, w.db.findmetaById 0 = some i ∧ e = .left (some i) newIdx m ∧
        w' = w.write (·.addFree (-1))) ∨
      (w.db.findmetaById 0 = none ∧ e = .left none newIdx m ∧ w' = w) := by
  unfold findFreeSlot at hrun
  obtain ⟨db, w₁, hdb, hrun⟩ := Prog.bind_some.mp hrun
  cases hdb
  cases hi : w.db.findmetaById 0 with
  | some i =>
      rw [hi] at hrun
      cases hrun
      exact Or.inl ⟨i, rfl, rfl, rfl⟩
  | none =>
      rw [hi] at hrun
      cases hrun
      exact Or.inr ⟨rfl, rfl, rfl⟩

/-- The body of the retry loop is run once, without a purge before it, and never
returns from the function. -/
theorem retryBody_some [Rounding] {w w' : World} {e : LoopExit}
    (hnone : findReusable w.db h m ts = none) (hrun : retryBody env false m w = some (e, w')) :
    ∃ foundSlot newIdx m', e = .left foundSlot newIdx m' ∧
      SlotSearch env h ts m w foundSlot newIdx m' w' := by
  unfold retryBody at hrun
  obtain ⟨_, _, hskip, hrun⟩ := Prog.bind_some.mp hrun
  cases hskip
  by_cases hsize : m.sizeMax = 0
  · rw [if_neg (not_not.mpr hsize)] at hrun
    rcases findFreeSlot_some hrun with ⟨i, hi, rfl, rfl⟩ | ⟨hi, rfl, rfl⟩
    · exact ⟨_, _, _, rfl, .dataless hnone hsize hi⟩
    · exact ⟨_, _, _, rfl, .noSlotDataless hnone hsize hi⟩
  · rw [if_pos hsize] at hrun
    obtain ⟨_, _, hunlock, hrun⟩ := Prog.bind_some.mp hrun
    cases hunlock
    obtain ⟨idx, w₁, halloc, hrun⟩ := Prog.bind_some.mp hrun
    obtain ⟨rfl, ⟨hfail, hidx⟩ | ⟨hpos, hsome, hidx⟩⟩ := memAlloc_some halloc
    · rw [if_pos hidx] at hrun
      cases hrun
      exact ⟨_, _, _, rfl, .noBlock hnone hsize hidx hfail⟩
    · rw [if_neg (by omega)] at hrun
      obtain ⟨_, w₂, hlock, hrun⟩ := Prog.bind_some.mp hrun
      cases hlock
      rw [afterAlloc_of_some hpos hsome] at hrun
      rcases findFreeSlot_some hrun with ⟨i, hi, rfl, rfl⟩ | ⟨hi, rfl, rfl⟩
      · exact ⟨_, _, _, rfl, .block hnone hsize hpos hsome hidx rfl hi⟩
      · exact ⟨_, _, _, rfl, .noSlot hnone hsize hpos hsome hidx rfl hi⟩

theorem enterTable_some {newIdx : Int} {i : Nat} {w w' : World} {r : Result × ObjInfo}
    (hu : w.db.notUniq m = false) (hrun : enterTable i m w = some (r, w')) :
    Finish newIdx m w (some i) r w' := by
  unfold enterTable at hrun
  obtain ⟨_, _, hwrite, hrun⟩ := Prog.bind_some.mp hrun
  cases hwrite
  obtain ⟨oid, w₁, htake, hrun⟩ := Prog.bind_some.mp hrun
  obtain ⟨rfl, rfl⟩ := Prod.mk.inj (Option.some.inj htake)
  by_cases hoid : wrap32 w.db.objmetaOidNext ≤ 0
  · rw [if_pos (by exact hoid)] at hrun
    obtain ⟨_, w₂, hfree, hrun⟩ := Prog.bind_some.mp hrun
    obtain rfl := release_some hfree
    cases hrun
    exact .noOid hu hoid
  · rw [if_neg (by exact hoid)] at hrun
    cases hrun
    exact .entered hu rfl (Int.not_le.mp hoid)

theorem finishInsert_some {foundSlot : Option Nat} {newIdx : Int} {w w' : World}
    {r : Result × ObjInfo} (hrun : finishInsert foundSlot newIdx m w = some (r, w')) :
    Finish newIdx m w foundSlot r w' := by
  unfold finishInsert at hrun
  obtain ⟨db, w₁, hdb, hrun⟩ := Prog.bind_some.mp hrun
  cases hdb
  cases hu : w.db.notUniq m with
  | true =>
      rw [if_pos hu] at hrun
      obtain ⟨_, _, hunlock, hrun⟩ := Prog.bind_some.mp hrun
      cases hunlock
      obtain ⟨_, w₂, hfree, hrun⟩ := Prog.bind_some.mp hrun
      obtain rfl := release_some hfree
      cases hrun
      exact .notUniq hu
  | false =>
      rw [if_neg (by rw [hu]; exact Bool.false_ne_true)] at hrun
      cases foundSlot with
      | none =>
          cases hrun
          exact .noSlot hu
      | some i => exact enterTable_some hu hrun

theorem insertLocked_some [Rounding] {w w' : World} {r : Result × ObjInfo}
    (hrun : insertLocked env h ts m w = some (r, w')) :
    ∃ foundSlot newIdx m' w₁, SlotSearch env h ts m (w.lock env) foundSlot newIdx m' w₁ ∧
      Finish newIdx m' w₁ foundSlot r w' := by
  unfold insertLocked at hrun
  obtain ⟨_, _, hlock, hrun⟩ := Prog.bind_some.mp hrun
  cases hlock
  obtain ⟨db, _, hdb, hrun⟩ := Prog.bind_some.mp hrun
  cases hdb
  cases hi : findReusable (w.lock env).db h m ts with
  | some i =>
      rw [hi] at hrun
      exact ⟨_, _, _, _, .reuse hi, finishInsert_some hrun⟩
  | none =>
      rw [hi] at hrun
      obtain ⟨e, w₁, hbody, hrun⟩ := Prog.bind_some.mp hrun
      obtain ⟨foundSlot, newIdx, m', rfl, hsearch⟩ := retryBody_some hi hbody
      exact ⟨_, _, _, _, hsearch, finishInsert_some hrun⟩

/-- An insert is refused at once, or searches a slot and finishes. -/
theorem insert_some [Rounding] {metadata : ObjInfo} {w w' : World} {r : Result × ObjInfo}
    (hrun : insert env h metadata w = some (r, w')) :
    (metadata.refused = true ∧ r = (.error .invalid, metadata) ∧ w' = w.ask) ∨
      (metadata.refused = false ∧ ∃ foundSlot newIdx m' w₁,
        SlotSearch env h (env.now w.tick) (initMetadata env h (env.now w.tick) metadata)
          (w.ask.lock env) foundSlot newIdx m' w₁ ∧ Finish newIdx m' w₁ foundSlot r w') := by
  unfold insert at hrun
  obtain ⟨ts, w₁, hts, hrun⟩ := Prog.bind_some.mp hrun
  cases hts
  cases href : metadata.refused with
  | true =>
      rw [if_pos href] at hrun
      cases hrun
      exact Or.inl ⟨rfl, rfl, rfl⟩
  | false =>
      rw [if_neg (by rw [href]; exact Bool.false_ne_true)] at hrun
      exact Or.inr ⟨rfl, insertLocked_some hrun⟩

end KogmoRtdb
