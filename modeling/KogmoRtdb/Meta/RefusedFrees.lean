import KogmoRtdb.Meta.Ownership

/-!
# Blocks that never were

What `exists_not_ownership` gives back is the failure value -1, one byte before the heap.
`suba_free` looks whether the pointer it gets lies in its memory, and refuses this one without
an effect (`suba_ref`). With such an allocator no condition on the inserts is needed: in
every run of calls the outstanding blocks have the owners that the table says.
-/

namespace KogmoRtdb

variable {env : Env} {limit : Int} {w w' : World}

def World.accepted (w : World) : World := { w with heapLog := acceptedCalls w.heapLog }

/-! ## Calls that are not refused -/

theorem accepted_lock (env : Env) (w : World) : (w.lock env).accepted = w.accepted.lock env := by
  unfold World.lock
  by_cases hheld : w.held = true
  · rw [if_pos hheld, if_pos (show w.accepted.held = true from hheld)]
  · rw [if_neg hheld, if_neg (show ¬ w.accepted.held = true from hheld)]
    rfl

theorem accepted_afterAlloc (hr : RefusesNegative env.alloc) (size : Int) (w : World) :
    (w.afterAlloc env size).accepted = w.accepted.afterAlloc env size := by
  unfold World.afterAlloc
  rw [show env.alloc w.accepted.heapLog size = env.alloc w.heapLog size from (hr _ _).symm]
  by_cases hsize : size ≤ 0
  · rw [if_pos hsize, if_pos hsize]
  · rw [if_neg hsize, if_neg hsize]
    cases env.alloc w.heapLog size with
    | none => rfl
    | some idx => rfl

theorem accepted_release {idx : Int} (hidx : 0 ≤ idx) (m : ObjInfo) (w : World) :
    (w.release idx m).accepted = w.accepted.release idx m := by
  unfold World.release
  by_cases hne : idx ≠ 0
  · rw [if_pos hne, if_pos hne]
    show ({ w.freed idx m.blockSize with heapLog := _ } : World) = _
    rw [show (w.freed idx m.blockSize).heapLog = .free ⟨idx, m.blockSize⟩ :: w.heapLog from rfl,
      acceptedCalls_free hidx]
    rfl
  · rw [if_neg hne, if_neg hne]

theorem accepted_release_neg {idx : Int} (hidx : idx < 0) (m : ObjInfo) (w : World) :
    (w.release idx m).accepted.heapLog = w.accepted.heapLog := by
  show acceptedCalls (w.release idx m).heapLog = acceptedCalls w.heapLog
  rw [release_heapLog _ _ (by omega), acceptedCalls_refused hidx]

theorem accepted_initial {heapSize : Int} :
    (World.initial env heapSize).accepted = World.initial env heapSize := by
  unfold World.initial World.afterAlloc
  rw [if_neg (by decide)]
  split <;> rfl

/-- The block of an object in the table lies in the heap. -/
theorem OwnedWorld.bufferIdx_nonneg (ho : OwnedWorld limit w) {i : Nat}
    (hocc : (w.db.objmeta i).oid ≠ 0) : 0 ≤ (w.db.objmeta i).bufferIdx := by
  by_cases hidx : (w.db.objmeta i).bufferIdx = 0
  · exact Int.le_of_eq hidx.symm
  · exact (ho.live.inside _ (ho.mem i ⟨hocc, hidx⟩)).1

/-! ## The owners of the blocks -/

theorem ownedAccepted_effect (ho : OwnedWorld limit w.accepted) (he : Effect env w w') :
    OwnedWorld limit w'.accepted := by
  cases he with
  | idle hdb hlog =>
      unfold OwnedWorld World.accepted
      rw [hdb, hlog]
      exact ho
  | mark hocc => exact ho.update (fun _ => hocc) rfl
  | @purge i hocc =>
      have hrel := accepted_release (ho.bufferIdx_nonneg hocc) (w.db.objmeta i) w
      have hpurged := ownedWorld_purged ho hocc
      unfold OwnedWorld at hpurged ⊢
      rw [purged_objmeta, purged_heapLog] at hpurged
      show Owned limit (w.purged i).db.objmeta (acceptedCalls (w.purged i).heapLog)
      rw [purged_objmeta, purged_heapLog]
      have hlog : acceptedCalls (w.release (w.db.objmeta i).bufferIdx (w.db.objmeta i)).heapLog =
          (w.accepted.release (w.db.objmeta i).bufferIdx (w.db.objmeta i)).heapLog :=
        congrArg World.heapLog hrel
      rw [hlog]
      exact hpurged
  | change => exact ho.update id rfl

section Insert

variable {h : Handle} {ts : Timestamp} {m m' : ObjInfo} {w₁ : World}
  {foundSlot : Option Nat} {newIdx : Int} {r : Result × ObjInfo}

/-- The search for a slot does not see what was refused. -/
theorem SlotSearch.accepted [Rounding] (hr : RefusesNegative env.alloc)
    (hs : SlotSearch env h ts m w foundSlot newIdx m' w₁) :
    SlotSearch env h ts m w.accepted foundSlot newIdx m' w₁.accepted := by
  have halloc {size : Int} : env.alloc w.accepted.heapLog size = env.alloc w.heapLog size :=
    (hr _ _).symm
  cases hs with
  | reuse hi => exact .reuse hi
  | dataless hnone hsize hi => exact .dataless hnone hsize hi
  | noSlotDataless hnone hsize hi => exact .noSlotDataless hnone hsize hi
  | noBlock hnone hsize hidx hfail =>
      rw [accepted_lock env, accepted_afterAlloc hr]
      refine .noBlock hnone hsize hidx ?_
      unfold allocFails at hfail ⊢
      rwa [halloc]
  | block hnone hsize hpos hsome hidx hw hi =>
      subst hw
      have hlock := accepted_lock env (w.unlock.allocated newIdx m.blockSize)
      show SlotSearch env h ts m w.accepted _ newIdx _
        (((w.unlock.allocated newIdx m.blockSize).lock env).accepted.write (·.addFree (-1)))
      exact .block hnone hsize hpos (halloc.trans hsome) hidx hlock hi
  | noSlot hnone hsize hpos hsome hidx hw hi =>
      subst hw
      have hlock := accepted_lock env (w.unlock.allocated newIdx m.blockSize)
      exact .noSlot hnone hsize hpos (halloc.trans hsome) hidx hlock hi

/-- The end of an insert: also a block that is refused leaves the others with their owners. -/
theorem ownedAccepted_finish (hh : InHand limit w.accepted foundSlot newIdx m)
    (hf : Finish newIdx m w foundSlot r w') : OwnedWorld limit w'.accepted := by
  have hidx : 0 ≤ m.bufferIdx := by
    by_cases h0 : m.bufferIdx = 0
    · exact Int.le_of_eq h0.symm
    · exact (hh.owned.live.inside _ (hh.block h0).1).1
  by_cases hneg : newIdx < 0 ∧ w.db.notUniq m = true
  · cases hf with
    | notUniq hu =>
        unfold OwnedWorld
        rw [accepted_release_neg hneg.1]
        show Owned limit (w.unlock.release newIdx m).db.objmeta (acceptedCalls w.heapLog)
        rw [release_objmeta]
        exact hh.owned
    | noSlot hu => exact absurd hneg.2 (by rw [hu]; exact Bool.false_ne_true)
    | noOid hu hoid => exact absurd hneg.2 (by rw [hu]; exact Bool.false_ne_true)
    | entered hu hoid hpos => exact absurd hneg.2 (by rw [hu]; exact Bool.false_ne_true)
  · refine ownedWorld_finish hh (fun hlt => ?_)
      (?_ : Finish newIdx m w.accepted foundSlot r w'.accepted)
    · have hne : ¬ w.db.notUniq m = true := fun hu => hneg ⟨hlt, hu⟩
      exact (Bool.not_eq_true _).mp hne
    · cases hf with
      | notUniq hu =>
          rw [accepted_release (Int.not_lt.mp fun hlt => hneg ⟨hlt, hu⟩)]
          exact .notUniq hu
      | noSlot hu => exact .noSlot hu
      | @noOid i hu hoid =>
          have hrel := accepted_release hidx m (w.write (·.setMeta i m)).oidTaken
          show Finish newIdx m w.accepted (some i) _
            ((w.write (·.setMeta i m)).oidTaken.release m.bufferIdx m).accepted.unlock
          rw [hrel]
          exact .noOid hu hoid
      | entered hu hoid hpos => exact .entered hu hoid hpos

/-- An insert ends in one of its ways, with what it holds on the way. -/
theorem insert_accepted [Rounding] {metadata : ObjInfo} (hf : AllocSound limit env.alloc)
    (hr : RefusesNegative env.alloc) (ho : OwnedWorld limit w.accepted)
    (hrun : insert env.atomic h metadata w = some (r, w')) :
    (metadata.refused = true ∧ r = (.error .invalid, metadata) ∧ w' = w.ask) ∨
      (metadata.refused = false ∧ ∃ foundSlot newIdx m' w₁,
        SlotSearch env.atomic h (env.now w.tick) (initMetadata env h (env.now w.tick) metadata)
          (w.ask.lock env.atomic) foundSlot newIdx m' w₁ ∧
        SlotSearch env.atomic h (env.now w.tick) (initMetadata env h (env.now w.tick) metadata)
          (w.ask.lock env.atomic).accepted foundSlot newIdx m' w₁.accepted ∧
        InHand limit w₁.accepted foundSlot newIdx m' ∧ Finish newIdx m' w₁ foundSlot r w') := by
  rcases insert_some hrun with hrefused | ⟨href, foundSlot, newIdx, m', w₁, hs, hfin⟩
  · exact Or.inl hrefused
  · have hs' : SlotSearch env.atomic h (env.now w.tick)
        (initMetadata env h (env.now w.tick) metadata) (w.ask.lock env.atomic).accepted foundSlot
        newIdx m' w₁.accepted :=
      SlotSearch.accepted (show RefusesNegative env.atomic.alloc from hr) hs
    have ho' : OwnedWorld limit (w.ask.lock env.atomic).accepted := by
      unfold OwnedWorld World.accepted
      rw [atomic_lock_db, atomic_lock_heapLog]
      exact ho
    exact Or.inr ⟨href, foundSlot, newIdx, m', w₁, hs, hs',
      inHand_of_slotSearch ho' hf rfl rfl hs', hfin⟩

theorem ownedAccepted_insert [Rounding] {metadata : ObjInfo} (hf : AllocSound limit env.alloc)
    (hr : RefusesNegative env.alloc) (ho : OwnedWorld limit w.accepted)
    (hrun : insert env.atomic h metadata w = some (r, w')) : OwnedWorld limit w'.accepted := by
  rcases insert_accepted hf hr ho hrun with
    ⟨-, -, rfl⟩ | ⟨-, foundSlot, newIdx, m', w₁, -, -, hh, hfin⟩
  · exact ho
  · exact ownedAccepted_finish hh hfin

end Insert

theorem ownedAccepted_op [Rounding] {op : Op} {events : List ApiEvent}
    (hf : AllocSound limit env.alloc)
    (hr : RefusesNegative env.alloc) (ho : OwnedWorld limit w.accepted) (hoid : OidKnown op)
    (hrun : op.run env.atomic w = some (events, w')) : OwnedWorld limit w'.accepted := by
  rcases op_cases (by rintro h metadata imm fuel rfl; exact hoid) hrun with
    ⟨h, metadata, r, rfl, hins, -⟩ | ⟨h, oid, data, out, rfl, hout, hw, -⟩ | ⟨hsteps, -⟩
  · exact ownedAccepted_insert hf hr ho hins
  · rw [hw]
    exact ownedWorld_write (w := w.accepted) ho hout
  · exact hsteps.invariant (fun _ _ => ownedAccepted_effect) ho

theorem ownedAccepted_step [Rounding] {heapSize : Int} {s s' : RunState} {op : Op}
    (hf : AllocSound limit env.alloc) (hr : RefusesNegative env.alloc)
    (ho : OwnedWorld limit s.world.accepted) (hoid : OidKnown op)
    (hs : (apiLts env heapSize).step s op = some s') : OwnedWorld limit s'.world.accepted := by
  obtain ⟨events, hrun, -⟩ := apiLts_step hs
  exact ownedAccepted_op hf hr ho hoid hrun

theorem ownedAccepted_initial {heapSize : Int} (hf : AllocSound limit env.alloc) :
    OwnedWorld limit (World.initial env.atomic heapSize).accepted := by
  rw [accepted_initial]
  exact ownedWorld_initial hf

theorem heapTop_acceptedCalls (es : List HeapEvent) : heapTop (acceptedCalls es) = heapTop es := by
  induction es with
  | nil => rfl
  | cons e es ih =>
      cases e with
      | alloc b => rw [acceptedCalls_alloc, heapTop, heapTop, ih]
      | free b =>
          by_cases hb : 0 ≤ b.idx
          · rw [acceptedCalls_free hb, heapTop, heapTop, ih]
          · rw [acceptedCalls_refused (by omega), ih, heapTop]

theorem bumpAlloc_refusesNegative (heapSize : Int) : RefusesNegative (bumpAlloc heapSize) := by
  intro es size
  rw [bumpAlloc, bumpAlloc, heapTop_acceptedCalls]

end KogmoRtdb
