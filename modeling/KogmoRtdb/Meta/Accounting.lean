import KogmoRtdb.Lib.Tally
import KogmoRtdb.Meta.BlockSizes

/-!
# Slot and heap accounting

Two counters are kept beside the metadata table: `objmeta_free`, and `heap_used` with
`heap_free`. Each should be a sum over the table (`tally`), and each call should keep
it so. An insert counts a free slot as used as soon as it has found one, before the
checks that can still fail, and it does not give back a block for which there is no
slot. `SlotDrift`, `HeapLeak` and `BogusFree` say when that happens.
-/

namespace KogmoRtdb

variable {env : Env} {h : Handle} {ts : Timestamp} {m m' : ObjInfo} {foundSlot : Option Nat}
  {newIdx limit : Int} {w w' w₁ : World} {r : Result × ObjInfo}

/-! ## The slot an insert finds -/

/-- Without a slot to reuse, the insert comes to a free slot. -/
def FindsFree (env : Env) (m : ObjInfo) (w : World) : Prop :=
  (m.sizeMax = 0 ∨ ¬ allocFails env w.heapLog m.blockSize) ∧ w.db.findmetaById 0 ≠ none

instance : Decidable (FindsFree env m w) := by
  unfold FindsFree
  infer_instance

theorem not_allocFails {idx size : Int} {es : List HeapEvent} (hpos : 0 < size)
    (halloc : env.alloc es size = some idx) (hidx : 0 ≤ idx) : ¬ allocFails env es size := by
  rintro (hle | hneg)
  · omega
  · rw [halloc, Option.getD_some] at hneg
    omega

/-- The slot that is found is one to reuse, or the first free one. -/
theorem SlotSearch.found [Rounding] {i : Nat}
    (hs : SlotSearch env.atomic h ts m w (some i) newIdx m' w₁) :
    findReusable w.db h m ts = some i ∧ (w.db.objmeta i).oid ≠ 0 ∧ newIdx = 0 ∧
        w₁.db.objmetaFree = w.db.objmetaFree ∨
      findReusable w.db h m ts = none ∧ (w.db.objmeta i).oid = 0 ∧ FindsFree env m w ∧
        w₁.db.objmetaFree = w.db.objmetaFree - 1 := by
  cases hs with
  | reuse hi => exact Or.inl ⟨hi, (blockSize_of_reusable hi).1, rfl, rfl⟩
  | dataless hnone h0 hi =>
      refine Or.inr ⟨hnone, (Db.findmetaById_some hi).2, ⟨Or.inl h0, ?_⟩, rfl⟩
      rw [hi]
      exact Option.some_ne_none i
  | block hnone h0 hpos halloc hge hw hi =>
      subst hw
      have hi' : w.db.findmetaById 0 = some i := hi
      refine Or.inr ⟨hnone, (Db.findmetaById_some hi').2,
        ⟨Or.inr (not_allocFails hpos halloc hge), ?_⟩, rfl⟩
      rw [hi']
      exact Option.some_ne_none i

theorem SlotSearch.found_none [Rounding] (hs : SlotSearch env.atomic h ts m w none newIdx m' w₁) :
    w₁.db.objmetaFree = w.db.objmetaFree := by
  cases hs with
  | noSlotDataless hnone h0 hi => rfl
  | noBlock hnone h0 hneg halloc =>
      rw [atomic_lock_db]
      unfold World.afterAlloc
      split
      · rfl
      · split <;> rfl
  | noSlot hnone h0 hpos halloc hge hw hi =>
      subst hw
      rfl

theorem SlotSearch.metadata_eq [Rounding]
    (hs : SlotSearch env.atomic h ts m w foundSlot newIdx m' w₁) :
    m' = { m with bufferIdx := m'.bufferIdx } := by
  cases hs <;> rfl

theorem notUniq_withBuffer (db : Db) (m : ObjInfo) (idx : Int) :
    db.notUniq { m with bufferIdx := idx } = db.notUniq m := by
  have hclash (l : List Nat) : clash db { m with bufferIdx := idx } l = clash db m l := by
    induction l with
    | nil => rfl
    | cons i is ih => simp only [clash, ih]
  exact hclash _

/-- The uniqueness check answers as it would have before the search. -/
theorem SlotSearch.notUniq_eq [Rounding]
    (hs : SlotSearch env.atomic h ts m w foundSlot newIdx m' w₁) :
    w₁.db.notUniq m' = w.db.notUniq m := by
  rw [hs.metadata_eq, notUniq_withBuffer, notUniq_congr hs.db_eq.1]

/-! ## Free slots -/

def freeMetaSlots (t : Nat → ObjInfo) : Nat :=
  ((Finset.range objMax).filter fun i => (t i).oid = 0).card

def ObjInfo.freeSlot (info : ObjInfo) : Int := if info.oid = 0 then 1 else 0

theorem ObjInfo.freeSlot_free {info : ObjInfo} (h : info.oid = 0) : info.freeSlot = 1 := if_pos h

theorem ObjInfo.freeSlot_occupied {info : ObjInfo} (h : info.oid ≠ 0) : info.freeSlot = 0 :=
  if_neg h

/-- `objmeta_free` is right. -/
structure SlotsCounted (w : World) : Prop where
  free : w.db.objmetaFree = tally objMax ObjInfo.freeSlot w.db.objmeta
  bound : ∀ i, (w.db.objmeta i).oid ≠ 0 → i < objMax

theorem SlotsCounted.freeMetaSlots (hc : SlotsCounted w) :
    w.db.objmetaFree = freeMetaSlots w.db.objmeta :=
  hc.free.trans (tally_count (fun info : ObjInfo => info.oid = 0) _)

theorem SlotsCounted.of_same (hc : SlotsCounted w) (hfree : w'.db.objmetaFree = w.db.objmetaFree)
    (hobj : w'.db.objmeta = w.db.objmeta) : SlotsCounted w' := by
  obtain ⟨h1, h2⟩ := hc
  rw [← hobj] at h1 h2
  exact ⟨hfree.trans h1, h2⟩

/-- One slot's metadata changes, and the counter with it. -/
theorem SlotsCounted.update {i : Nat} {info : ObjInfo} (hc : SlotsCounted w) (hi : i < objMax)
    (hobj : w'.db.objmeta = Function.update w.db.objmeta i info)
    (hfree : w'.db.objmetaFree =
      w.db.objmetaFree - (w.db.objmeta i).freeSlot + info.freeSlot) : SlotsCounted w' := by
  refine ⟨?_, fun j hj => ?_⟩
  · rw [hfree, hobj, tally_update hi, ← hc.free]
  · rw [hobj] at hj
    by_cases hji : j = i
    · rwa [hji]
    · rw [Function.update_of_ne hji] at hj
      exact hc.bound j hj

theorem SlotsCounted.update_of_eq {i : Nat} {info : ObjInfo} (hc : SlotsCounted w)
    (hobj : w'.db.objmeta = Function.update w.db.objmeta i info)
    (hoid : info.oid = (w.db.objmeta i).oid)
    (hfree : w'.db.objmetaFree = w.db.objmetaFree) : SlotsCounted w' := by
  refine ⟨?_, fun j hj => ?_⟩
  · rw [hfree, hobj, tally_update_of_eq (by rw [ObjInfo.freeSlot, ObjInfo.freeSlot, hoid])]
    exact hc.free
  · rw [hobj] at hj
    by_cases hji : j = i
    · subst hji
      rw [Function.update_self, hoid] at hj
      exact hc.bound j hj
    · rw [Function.update_of_ne hji] at hj
      exact hc.bound j hj

@[simp] theorem release_objmetaFree (idx : Int) (m : ObjInfo) (w : World) :
    (w.release idx m).db.objmetaFree = w.db.objmetaFree := by
  unfold World.release
  split <;> rfl

theorem slotsCounted_effect (hc : SlotsCounted w) (he : Effect env w w') : SlotsCounted w' := by
  cases he with
  | idle hdb hlog => exact hc.of_same (by rw [hdb]) (by rw [hdb])
  | mark hocc =>
      apply hc.update_of_eq
      · rfl
      · rfl
      · rfl
  | @purge i hocc =>
      refine hc.update (hc.bound i hocc) (purged_objmeta i w) ?_
      rw [ObjInfo.freeSlot_occupied hocc, ObjInfo.freeSlot_free rfl]
      have hrel := release_objmetaFree (w.db.objmeta i).bufferIdx (w.db.objmeta i) w
      show (w.release _ _).db.objmetaFree + 1 = _
      rw [hrel]
      omega
  | change =>
      apply hc.update_of_eq
      · rfl
      · rfl
      · rfl

/-- An insert that leaves `objmeta_free` wrong: it has taken a free slot and meets a
uniqueness conflict, or it has a slot but there are no more oids. -/
def SlotDrift [Rounding] (env : Env) (h : Handle) (metadata : ObjInfo) (w : World) : Prop :=
  let ts := env.now w.tick
  let m := initMetadata env h ts metadata
  metadata.refused = false ∧
    (w.db.notUniq m = true ∧ findReusable w.db h m ts = none ∧ FindsFree env m w ∨
      w.db.notUniq m = false ∧ w.db.nextOid ≤ 0 ∧
        (findReusable w.db h m ts ≠ none ∨ FindsFree env m w))

instance [Rounding] {metadata : ObjInfo} : Decidable (SlotDrift env h metadata w) := by
  unfold SlotDrift
  infer_instance

theorem findsFree_lock : FindsFree env m (w.ask.lock env.atomic) ↔ FindsFree env m w := by
  unfold FindsFree
  rw [atomic_lock_db, atomic_lock_heapLog]
  rfl

theorem slotsCounted_insert [Rounding] {metadata : ObjInfo} (hc : SlotsCounted w)
    (hdrift : ¬ SlotDrift env h metadata w)
    (hrun : insert env.atomic h metadata w = some (r, w')) : SlotsCounted w' := by
  rcases insert_some hrun with ⟨-, -, rfl⟩ | ⟨href, foundSlot, newIdx, m', w₁, hs, hfin⟩
  · exact hc.of_same rfl rfl
  have hdb : (w.ask.lock env.atomic).db = w.db := atomic_lock_db w.ask
  obtain ⟨hobj, hnext, hoid⟩ := hs.db_eq
  have huniq := hs.notUniq_eq
  rw [hdb] at hobj hnext huniq
  have hnext : w₁.db.nextOid = w.db.nextOid := congrArg (fun n : Nat => wrap32 n) hnext
  have hfound {i : Nat} (hi : foundSlot = some i) := by
    rw [hi] at hs
    have := hs.found
    rwa [findsFree_lock, hdb] at this
  have hnone (hi : foundSlot = none) : w₁.db.objmetaFree = w.db.objmetaFree := by
    rw [hi] at hs
    rw [hs.found_none, hdb]
  cases hfin with
  | notUniq hu =>
      refine hc.of_same ?_ ((release_objmeta ..).trans hobj)
      rw [release_objmetaFree]
      cases foundSlot with
      | none => exact hnone rfl
      | some i =>
          rcases hfound rfl with ⟨-, -, -, hfree⟩ | ⟨hno, -, hfinds, -⟩
          · exact hfree
          · exact absurd ⟨href, Or.inl ⟨huniq.symm.trans hu, hno, hfinds⟩⟩ hdrift
  | noSlot hu => exact hc.of_same (hnone rfl) hobj
  | @noOid i hu hle =>
      refine absurd ⟨href, Or.inr ⟨huniq.symm.trans hu, hnext ▸ hle, ?_⟩⟩ hdrift
      rcases hfound rfl with ⟨hi, -⟩ | ⟨-, -, hfinds, -⟩
      · refine Or.inl fun hno => ?_
        exact Option.some_ne_none i (hi.symm.trans hno)
      · exact Or.inr hfinds
  | @entered i oid hu hnew hpos =>
      have hoid' : oid ≠ 0 := Int.ne_of_gt hpos
      have htable : ((w₁.write (·.setMeta i m')).oidTaken.write
          (·.setMeta i { m'.withParent oid with oid := oid })).unlock.db.objmeta =
          Function.update w.db.objmeta i { m'.withParent oid with oid := oid } := by
        rw [← show w₁.db.objmeta = w.db.objmeta from hobj]
        exact Function.update_idem ..
      refine hc.update hs.slot_lt htable ?_
      have hnew : ({ m'.withParent oid with oid := oid } : ObjInfo).freeSlot = 0 :=
        ObjInfo.freeSlot_occupied hoid'
      rw [hnew]
      rcases hfound rfl with ⟨-, hocc, -, hfree⟩ | ⟨-, hempty, -, hfree⟩
      · rw [ObjInfo.freeSlot_occupied hocc]
        exact hfree.trans (by omega)
      · rw [ObjInfo.freeSlot_free hempty]
        exact hfree.trans (by omega)

def CountGuard [Rounding] (env : Env) (s : RunState) (op : Op) : Prop :=
  OidKnown op ∧ match op with
    | .insert h metadata => ¬ SlotDrift env h metadata s.world
    | _ => True

instance [Rounding] (s : RunState) : DecidablePred (CountGuard env s)
  | .insert h metadata => inferInstanceAs (Decidable
      (OidKnown (.insert h metadata) ∧ ¬ SlotDrift env h metadata s.world))
  | .deleteImm h metadata imm fuel =>
      inferInstanceAs (Decidable (OidKnown (.deleteImm h metadata imm fuel) ∧ True))
  | .purgeObjs | .changeinfo .. | .writedata .. => isTrue ⟨trivial, trivial⟩

theorem slotsCounted_initial {heapSize : Int} :
    SlotsCounted (World.initial env.atomic heapSize) := by
  have hfree : (Db.initial heapSize).objmetaFree =
      tally objMax ObjInfo.freeSlot (Db.initial heapSize).objmeta := by
    have hall : ∀ i, ((Db.initial heapSize).objmeta i).freeSlot = 1 := fun i => rfl
    unfold tally
    rw [Finset.sum_congr rfl fun i _ => hall i, Finset.sum_const, Finset.card_range]
    exact (Int.mul_one _).symm
  have hinit : SlotsCounted ⟨Db.initial heapSize, false, false, [], 0⟩ :=
    ⟨hfree, fun i hi => absurd rfl hi⟩
  unfold World.initial World.afterAlloc
  rw [if_neg (by decide)]
  split
  · exact hinit
  · exact hinit.of_same rfl rfl

theorem slotsCounted_step [Rounding] {heapSize : Int} {s s' : RunState} {op : Op}
    (hc : SlotsCounted s.world) (hg : CountGuard env s op)
    (hs : (apiLts env heapSize).step s op = some s') : SlotsCounted s'.world := by
  obtain ⟨events, hrun, -⟩ := apiLts_step hs
  obtain ⟨hoid, hcount⟩ := hg
  rcases op_cases (by rintro h metadata imm fuel rfl; exact hoid) hrun with
    ⟨h, metadata, r, rfl, hins, -⟩ | ⟨h, oid, data, out, rfl, hout, hw, -⟩ | ⟨hsteps, -⟩
  · exact slotsCounted_insert hc hcount hins
  · rw [hw]
    rcases writedata_cases hout with ⟨e, -, hdb⟩ | ⟨i, -, -, -, -, -, hdb⟩
    · exact hc.of_same (by rw [hdb]) (by rw [hdb])
    · apply hc.update_of_eq
      · rw [hdb]
        rfl
      · rfl
      · rw [hdb]
        rfl
  · exact hsteps.invariant (fun _ _ => slotsCounted_effect) hc

/-- Slot accounting: in every run of calls in which no insert drifts, `objmeta_free` is
the number of slots whose oid is 0. -/
theorem objmetaFree_of_guarded [Rounding] {heapSize : Int} {s : RunState}
    (h : (apiLts env heapSize).Guarded (CountGuard env) s) :
    s.world.db.objmetaFree = freeMetaSlots s.world.db.objmeta := by
  have hinv : SlotsCounted s.world := by
    refine h.invariant (I := fun s => SlotsCounted s.world) ?_ fun s op s' hI hg hs => ?_
    · rintro s rfl
      exact slotsCounted_initial
    · exact slotsCounted_step hI hg hs
  exact hinv.freeMetaSlots

theorem objmetaFree_of_guarded_purge :
    ∃ s, (apiLts (exampleEnv 4096) 4096).Guarded (CountGuard (exampleEnv 4096)) s ∧
      s.world.db.objmetaFree = freeMetaSlots s.world.db.objmeta ∧
      s.world.db.objmetaFree = 999 := by
  obtain ⟨s, hr, hp⟩ := (apiLts (exampleEnv 4096) 4096).exists_of_execGuarded
    (G := CountGuard (exampleEnv 4096))
    (g := fun s op => decide (CountGuard (exampleEnv 4096) s op)) (fun _ _ => of_decide_eq_true)
    ownerSchedule (fun s => decide (s.world.db.objmetaFree = 999))
    (s := ⟨World.initial (exampleEnv 4096).atomic 4096, []⟩) rfl (by decide +kernel)
  exact ⟨s, hr, objmetaFree_of_guarded hr, of_decide_eq_true hp⟩

/-- A second object with the name and type of a first one, and unique: the slot it was
to get stays counted as used. -/
theorem exists_objmetaFree_ne :
    ∃ s, (apiLts (exampleEnv 4096) 4096).Guarded (fun _ => OidKnown) s ∧
      s.world.db.objmetaFree ≠ freeMetaSlots s.world.db.objmeta := by
  obtain ⟨s, hr, hp⟩ := (apiLts (exampleEnv 4096) 4096).exists_of_execGuarded
    (G := fun _ => OidKnown) (g := fun _ op => decide (OidKnown op))
    (fun _ _ => of_decide_eq_true)
    [.insert aProcess anObject, .insert aProcess { anObject with flags := { unique := true } }]
    (fun s => decide (s.world.db.objmetaFree ≠ freeMetaSlots s.world.db.objmeta))
    (s := ⟨World.initial (exampleEnv 4096).atomic 4096, []⟩) rfl (by decide +kernel)
  exact ⟨s, hr, of_decide_eq_true hp⟩

/-! ## The heap -/

def ObjInfo.bytes (info : ObjInfo) : Int :=
  if info.oid = 0 then 0 else info.sizeMax * info.historySize

theorem ObjInfo.bytes_free {info : ObjInfo} (h : info.oid = 0) : info.bytes = 0 := if_pos h

theorem ObjInfo.bytes_occupied {info : ObjInfo} (h : info.oid ≠ 0) :
    info.bytes = info.sizeMax * info.historySize := if_neg h

/-- `heap_used` and `heap_free` add up to the same sum. -/
def SameTotal (w w' : World) : Prop :=
  w'.db.heapUsed + w'.db.heapFree = w.db.heapUsed + w.db.heapFree

/-- `heap_used` is right, when the running insert holds `inHand` bytes. -/
structure HeapCounted (inHand : Int) (w : World) : Prop where
  used : w.db.heapUsed = 2 + tally objMax ObjInfo.bytes w.db.objmeta + inHand
  bound : ∀ i, (w.db.objmeta i).oid ≠ 0 → i < objMax
  fits : ∀ i, (w.db.objmeta i).oid ≠ 0 → (w.db.objmeta i).Fits

theorem release_heapUsed (idx : Int) (m : ObjInfo) (w : World) :
    (w.release idx m).db.heapUsed = w.db.heapUsed - if idx = 0 then 0 else m.blockSize := by
  unfold World.release
  by_cases hidx : idx = 0
  · rw [if_neg (not_not.mpr hidx), if_pos hidx, Int.sub_zero]
  · rw [if_pos hidx, if_neg hidx]
    rfl

theorem release_total (idx : Int) (m : ObjInfo) (w : World) :
    SameTotal w (w.release idx m) := by
  unfold SameTotal World.release World.freed
  split
  · dsimp only
    omega
  · rfl

variable {inHand inHand' : Int}

/-- One slot's metadata changes, and the heap with it. -/
theorem HeapCounted.update {i : Nat} {info : ObjInfo} (hc : HeapCounted inHand w)
    (hi : i < objMax) (hobj : w'.db.objmeta = Function.update w.db.objmeta i info)
    (hused : w'.db.heapUsed - inHand' =
      w.db.heapUsed - inHand - (w.db.objmeta i).bytes + info.bytes)
    (hfits : info.oid ≠ 0 → info.Fits) : HeapCounted inHand' w' := by
  refine ⟨?_, fun j hj => ?_, fun j => ?_⟩
  · have hused' := hc.used
    rw [hobj, tally_update hi]
    omega
  · rw [hobj] at hj
    by_cases hji : j = i
    · rwa [hji]
    · rw [Function.update_of_ne hji] at hj
      exact hc.bound j hj
  · rw [hobj]
    by_cases hji : j = i
    · rwa [hji, Function.update_self]
    · rw [Function.update_of_ne hji]
      exact hc.fits j

def SameSizes (info info' : ObjInfo) : Prop :=
  info'.oid = info.oid ∧ info'.sizeMax = info.sizeMax ∧ info'.historySize = info.historySize

theorem sameSizes_update {t t' : Nat → ObjInfo} {i : Nat} {info : ObjInfo}
    (ht : t' = Function.update t i info) (h : SameSizes (t i) info) (j : Nat) :
    SameSizes (t j) (t' j) := by
  rw [ht]
  by_cases hji : j = i
  · subst hji
    rwa [Function.update_self]
  · rw [Function.update_of_ne hji]
    exact ⟨rfl, rfl, rfl⟩

theorem HeapCounted.of_same (hc : HeapCounted inHand w)
    (hused : w'.db.heapUsed - inHand' = w.db.heapUsed - inHand)
    (hobj : ∀ i, SameSizes (w.db.objmeta i) (w'.db.objmeta i)) : HeapCounted inHand' w' := by
  have hbytes (i : Nat) : (w'.db.objmeta i).bytes = (w.db.objmeta i).bytes := by
    obtain ⟨h1, h2, h3⟩ := hobj i
    rw [ObjInfo.bytes, ObjInfo.bytes, h1, h2, h3]
  refine ⟨?_, fun i hi => ?_, fun i hi => ?_⟩
  · rw [tally_congr hbytes]
    have hused' := hc.used
    omega
  · exact hc.bound i (by rwa [← (hobj i).1])
  · obtain ⟨h1, h2, h3⟩ := hobj i
    rw [ObjInfo.Fits, h2, h3]
    exact hc.fits i (by rwa [← h1])

theorem HeapCounted.of_objmeta_eq (hc : HeapCounted inHand w)
    (hused : w'.db.heapUsed - inHand' = w.db.heapUsed - inHand)
    (hobj : w'.db.objmeta = w.db.objmeta) : HeapCounted inHand' w' := by
  refine hc.of_same hused fun i => ?_
  rw [hobj]
  exact ⟨rfl, rfl, rfl⟩

structure HeapRight (w₀ w : World) : Prop where
  blocks : BlockTable w
  counted : HeapCounted 0 w
  total : SameTotal w₀ w

theorem HeapRight.update_of_same {w₀ : World} {i : Nat} {info : ObjInfo} (hh : HeapRight w₀ w)
    (hobj : w'.db.objmeta = Function.update w.db.objmeta i info)
    (hsize : SameSizes (w.db.objmeta i) info) (hblock : info.heapBlock = (w.db.objmeta i).heapBlock)
    (hused : w'.db.heapUsed = w.db.heapUsed) (hfree : w'.db.heapFree = w.db.heapFree)
    (hlog : w'.heapLog = w.heapLog) : HeapRight w₀ w' where
  blocks := hh.blocks.update hobj
    (fun hocc => (hh.blocks.handed i (by rwa [← hsize.1])).congr hblock) fun e he => by rwa [hlog]
  counted := hh.counted.of_same (by rw [hused]) (sameSizes_update hobj hsize)
  total := by
    unfold SameTotal
    rw [hused, hfree]
    exact hh.total

theorem keepsEffects_heapRight {w₀ : World} : KeepsEffects env True (HeapRight w₀) where
  idle w w' hw hdb hlog :=
    { blocks := hw.blocks.of_objmeta_eq (by rw [hdb]) fun e he => by rwa [hlog]
      counted := hw.counted.of_objmeta_eq (by rw [hdb]) (by rw [hdb])
      total := by
        unfold SameTotal
        rw [hdb]
        exact hw.total }
  mark w i k proc hw _ := by
    apply hw.update_of_same
    · rfl
    · exact ⟨rfl, rfl, rfl⟩
    all_goals rfl
  purge w i hw hknown := by
    have hocc := hknown trivial
    have hblocks : KeepsEffects env False BlockTable := keepsEffects_blockTable
    refine ⟨hblocks.purge w i hw.blocks fun h => h.elim, ?_,
      (release_total ..).trans hw.total⟩
    refine hw.counted.update (hw.counted.bound i hocc) (purged_objmeta i w) ?_
      fun h => absurd rfl h
    show (w.release (w.db.objmeta i).bufferIdx (w.db.objmeta i)).db.heapUsed - 0 = _
    rw [release_heapUsed, ObjInfo.bytes_occupied hocc, ObjInfo.bytes_free rfl,
      ← (hw.counted.fits i hocc).blockSize_eq]
    split
    · rename_i hidx
      rw [(hw.blocks.handed i hocc).1 hidx]
      omega
    · omega

/-! ## The heap and an insert -/

/-- What an insert holds when it comes to the uniqueness check: `inHand` bytes, which
together with those of the slot to reuse are the object's. -/
structure BytesInHand (foundSlot : Option Nat) (newIdx inHand : Int) (m : ObjInfo)
    (w : World) : Prop where
  counted : HeapCounted inHand w
  given : inHand = if newIdx ≤ 0 then 0 else m.blockSize
  slot : ∀ i, foundSlot = some i → inHand + (w.db.objmeta i).bytes = m.blockSize

/-- An insert that keeps a block for which it has no slot. -/
def HeapLeak [Rounding] (env : Env) (h : Handle) (metadata : ObjInfo) (w : World) : Prop :=
  let ts := env.now w.tick
  let m := initMetadata env h ts metadata
  metadata.refused = false ∧ findReusable w.db h m ts = none ∧ m.sizeMax ≠ 0 ∧
    ¬ allocFails env w.heapLog m.blockSize ∧ w.db.findmetaById 0 = none ∧
    w.db.notUniq m = false

instance [Rounding] {metadata : ObjInfo} : Decidable (HeapLeak env h metadata w) := by
  unfold HeapLeak
  infer_instance

theorem bytesInHand_of_slotSearch [Rounding] {limit : Int} (hb : BlockTable w)
    (hc : HeapCounted 0 w)
    (hf : AllocSound limit env.alloc) (ha : HeapInit env.alloc) (hl : LegitFrees w.heapLog)
    (hfits : m.Fits) (hs : SlotSearch env.atomic h ts m w foundSlot newIdx m' w₁) :
    ∃ inHand, BytesInHand foundSlot newIdx inHand m' w₁ := by
  have hempty {i : Nat} (hi : w.db.findmetaById 0 = some i) : (w.db.objmeta i).bytes = 0 :=
    ObjInfo.bytes_free (Db.findmetaById_some hi).2
  cases hs with
  | @reuse i hi =>
      refine ⟨0, hc, (if_pos (Int.le_refl 0)).symm, fun j hj => ?_⟩
      cases hj
      obtain ⟨hocc, hsize⟩ := blockSize_of_reusable hi
      rw [ObjInfo.bytes_occupied hocc, ← (hc.fits i hocc).blockSize_eq, hsize, Int.zero_add]
      rfl
  | dataless hnone hsize hi =>
      refine ⟨0, hc.of_objmeta_eq rfl rfl, (if_pos (Int.le_refl 0)).symm, fun j hj => ?_⟩
      cases hj
      have hblock : m.blockSize = 0 := by rw [hfits.blockSize_eq, hsize, Int.zero_mul]
      rw [hblock, Int.zero_add]
      exact hempty hi
  | noSlotDataless hnone hsize hi =>
      exact ⟨0, hc, (if_pos (Int.le_refl 0)).symm, fun j hj => by cases hj⟩
  | noBlock hnone hsize hneg halloc =>
      have hsame : w.unlock.afterAlloc env.atomic m.blockSize = w.unlock :=
        afterAlloc_of_fails hf hl halloc
      rw [hsame]
      have hc' : HeapCounted 0 (w.unlock.lock env.atomic) :=
        hc.of_objmeta_eq (by rw [atomic_lock_db]; rfl) (by rw [atomic_lock_db]; rfl)
      exact ⟨0, hc', (if_pos (Int.le_of_lt hneg)).symm, fun j hj => by cases hj⟩
  | @block _ i w₂ hnone hsize hpos halloc h0 hw₂ hi =>
      subst hw₂
      have hne : newIdx ≠ 0 := hb.started.idx_ne ha halloc
      refine ⟨m.blockSize, ?_, (if_neg (by omega)).symm, fun j hj => ?_⟩
      · refine hc.of_objmeta_eq ?_ rfl
        show w.db.heapUsed + m.blockSize - m.blockSize = w.db.heapUsed - 0
        omega
      · cases hj
        have hi' : w.db.findmetaById 0 = some i := hi
        show m.blockSize + (w.db.objmeta i).bytes = m.blockSize
        rw [hempty hi', Int.add_zero]
  | @noSlot _ w₂ hnone hsize hpos halloc h0 hw₂ hi =>
      subst hw₂
      have hne : newIdx ≠ 0 := hb.started.idx_ne ha halloc
      refine ⟨m.blockSize, ?_, (if_neg (by omega)).symm, fun j hj => by cases hj⟩
      refine hc.of_objmeta_eq ?_ rfl
      show w.db.heapUsed + m.blockSize - m.blockSize = w.db.heapUsed - 0
      omega

theorem total_slotSearch [Rounding] (hs : SlotSearch env.atomic h ts m w foundSlot newIdx m' w₁) :
    SameTotal w w₁ := by
  cases hs with
  | reuse hi => rfl
  | dataless hnone hsize hi => rfl
  | noSlotDataless hnone hsize hi => rfl
  | noBlock hnone hsize hneg halloc =>
      rw [SameTotal, atomic_lock_db]
      unfold World.afterAlloc
      split
      · rfl
      · split
        · rfl
        · unfold World.allocated
          dsimp only [World.unlock]
          omega
  | block hnone hsize hpos halloc h0 hw₂ hi =>
      subst hw₂
      show w.db.heapUsed + m.blockSize + (w.db.heapFree - m.blockSize) = _
      omega
  | noSlot hnone hsize hpos halloc h0 hw₂ hi =>
      subst hw₂
      show w.db.heapUsed + m.blockSize + (w.db.heapFree - m.blockSize) = _
      omega

theorem total_finish (hf : Finish newIdx m w foundSlot r w') : SameTotal w w' := by
  cases hf with
  | notUniq hu => exact release_total newIdx m w.unlock
  | noSlot hu => rfl
  | @noOid i hu hle => exact release_total m.bufferIdx m (w.write (·.setMeta i m)).oidTaken
  | entered hu hoid hpos => rfl

/-- The rest of the insert passes the bytes on to the slot, or gives them back. -/
theorem heapCounted_finish (hh : BytesInHand foundSlot newIdx inHand m w) (hfits : m.Fits)
    (hm : foundSlot ≠ none → HandedOut w.heapLog m) (hoid : m.oid = 0)
    (hlt : ∀ i, foundSlot = some i → i < objMax)
    (hbogus : newIdx < 0 → w.db.notUniq m = false)
    (hleak : foundSlot = none → w.db.notUniq m = false → inHand = 0)
    (hf : Finish newIdx m w foundSlot r w') : HeapCounted 0 w' := by
  cases hf with
  | notUniq hu =>
      have hge : 0 ≤ newIdx := by
        by_contra hneg
        rw [hbogus (Int.not_le.mp hneg)] at hu
        cases hu
      refine hh.counted.of_objmeta_eq ?_ (release_objmeta newIdx m w.unlock)
      have hgiven := hh.given
      rw [release_heapUsed]
      show w.db.heapUsed - (if newIdx = 0 then 0 else m.blockSize) - 0 = _
      split <;> split at hgiven <;> omega
  | noSlot hu =>
      have hzero := hleak rfl hu
      exact hh.counted.of_objmeta_eq (by omega) rfl
  | @noOid i hu hle =>
      have hslot := hh.slot i rfl
      refine hh.counted.update (hlt i rfl) (release_objmeta ..) ?_ fun h => absurd hoid h
      have hrel : ((w.write (·.setMeta i m)).oidTaken.release m.bufferIdx m).db.heapUsed =
          w.db.heapUsed - m.blockSize := by
        rw [release_heapUsed]
        split
        · rename_i h0
          rw [(hm (Option.some_ne_none i)).1 h0]
          rfl
        · rfl
      show ((w.write (·.setMeta i m)).oidTaken.release m.bufferIdx m).db.heapUsed - 0 = _
      rw [hrel, ObjInfo.bytes_free hoid]
      omega
  | @entered i oid hu hnew hpos =>
      have hslot := hh.slot i rfl
      have hsize : ({ m.withParent oid with oid := oid } : ObjInfo).sizeMax = m.sizeMax ∧
          ({ m.withParent oid with oid := oid } : ObjInfo).historySize = m.historySize := by
        unfold ObjInfo.withParent
        split <;> exact ⟨rfl, rfl⟩
      obtain ⟨hmax, hhist⟩ := hsize
      have htable : ((w.write (·.setMeta i m)).oidTaken.write
          (·.setMeta i { m.withParent oid with oid := oid })).unlock.db.objmeta =
          Function.update w.db.objmeta i { m.withParent oid with oid := oid } :=
        Function.update_idem ..
      refine hh.counted.update (hlt i rfl) htable ?_ fun _ => ?_
      · have hbytes : ({ m.withParent oid with oid := oid } : ObjInfo).bytes = m.blockSize := by
          rw [ObjInfo.bytes, if_neg (Int.ne_of_gt hpos), hmax, hhist, hfits.blockSize_eq]
        rw [hbytes]
        show w.db.heapUsed - 0 = _
        omega
      · rw [ObjInfo.Fits, hmax, hhist]
        exact hfits

/-- Only a block without a slot is in the hands of an insert that has none. -/
theorem inHand_of_noSlot [Rounding] {metadata : ObjInfo} (href : metadata.refused = false)
    (hleak : ¬ HeapLeak env h metadata w)
    (hs : SlotSearch env.atomic h (env.now w.tick) (initMetadata env h (env.now w.tick) metadata)
      (w.ask.lock env.atomic) none newIdx m' w₁) (hu : w₁.db.notUniq m' = false) :
    newIdx ≤ 0 := by
  have huniq := hs.notUniq_eq
  rw [atomic_lock_db] at huniq
  cases hs with
  | noSlotDataless hnone hsize hi => exact Int.le_refl 0
  | noBlock hnone hsize hneg halloc => exact Int.le_of_lt hneg
  | noSlot hnone hsize hpos halloc h0 hw₂ hi =>
      subst hw₂
      rw [atomic_lock_db] at hnone
      rw [atomic_lock_heapLog] at halloc
      have hi' : (w.ask.lock env.atomic).db.findmetaById 0 = none := hi
      rw [atomic_lock_db] at hi'
      exact absurd
        ⟨href, hnone, hsize, not_allocFails hpos halloc h0, hi', huniq.symm.trans hu⟩ hleak

theorem heapCounted_insert [Rounding] {metadata : ObjInfo} (hb : BlockTable w)
    (hc : HeapCounted 0 w)
    (ho : OwnedWorld limit w) (hf : AllocSound limit env.alloc) (ha : HeapInit env.alloc)
    (hfits : metadata.refused = false → (initMetadata env h (env.now w.tick) metadata).Fits)
    (hbogus : ¬ BogusFree env h metadata w) (hleak : ¬ HeapLeak env h metadata w)
    (hrun : insert env.atomic h metadata w = some (r, w')) : HeapCounted 0 w' := by
  rcases insert_some hrun with ⟨-, -, rfl⟩ | ⟨href, foundSlot, newIdx, m', w₁, hs, hfin⟩
  · exact hc.of_objmeta_eq rfl rfl
  have hb' : BlockTable (w.ask.lock env.atomic) :=
    hb.of_objmeta_eq (by rw [atomic_lock_db]; rfl) fun _ he => by rwa [atomic_lock_heapLog]
  have hc' : HeapCounted 0 (w.ask.lock env.atomic) :=
    hc.of_objmeta_eq (by rw [atomic_lock_db]; rfl) (by rw [atomic_lock_db]; rfl)
  have hl : LegitFrees (w.ask.lock env.atomic).heapLog := by
    rw [atomic_lock_heapLog]
    exact ho.live.legit
  obtain ⟨inHand, hh⟩ := bytesInHand_of_slotSearch hb' hc' hf ha hl (hfits href) hs
  have hfits' : m'.Fits := by
    rw [hs.metadata_eq]
    exact hfits href
  have hlt : ∀ i, foundSlot = some i → i < objMax := by
    rintro i rfl
    exact hs.slot_lt
  refine heapCounted_finish hh hfits' (blockTable_slotSearch hb' ha rfl hs).2 hs.db_eq.2.2 hlt
    (notUniq_of_noBlock ho hf href hbogus hs) ?_ hfin
  rintro rfl hu
  rw [hh.given, if_pos (inHand_of_noSlot href hleak hs hu)]

theorem total_insert [Rounding] {metadata : ObjInfo}
    (hrun : insert env.atomic h metadata w = some (r, w')) : SameTotal w w' := by
  rcases insert_some hrun with ⟨-, -, rfl⟩ | ⟨-, foundSlot, newIdx, m', w₁, hs, hfin⟩
  · rfl
  · have hlock : SameTotal w (w.ask.lock env.atomic) := by
      rw [SameTotal, atomic_lock_db]
      rfl
    exact (total_finish hfin).trans ((total_slotSearch hs).trans hlock)

/-! ## The heap in a run -/

/-- The products of the sizes given to an insert do not leave the 32-bit range. -/
def InsertFits [Rounding] (env : Env) (s : RunState) : Op → Prop
  | .insert h metadata => metadata.refused = false →
      (initMetadata env h (env.now s.world.tick) metadata).Fits
  | _ => True

def HeapGuard [Rounding] (env : Env) (s : RunState) (op : Op) : Prop :=
  OwnerGuard env s op ∧ InsertFits env s op ∧ match op with
    | .insert h metadata => ¬ HeapLeak env h metadata s.world
    | _ => True

instance [Rounding] (s : RunState) : DecidablePred (InsertFits env s)
  | .insert h metadata => inferInstanceAs (Decidable (metadata.refused = false →
      (initMetadata env h (env.now s.world.tick) metadata).Fits))
  | .deleteImm .. | .purgeObjs | .changeinfo .. | .writedata .. => isTrue trivial

instance [Rounding] (s : RunState) : DecidablePred (HeapGuard env s)
  | .insert h metadata => inferInstanceAs (Decidable (OwnerGuard env s (.insert h metadata) ∧
      InsertFits env s (.insert h metadata) ∧ ¬ HeapLeak env h metadata s.world))
  | .deleteImm h metadata imm fuel => inferInstanceAs (Decidable
      (OwnerGuard env s (.deleteImm h metadata imm fuel) ∧ True ∧ True))
  | .purgeObjs | .changeinfo .. | .writedata .. =>
      isTrue ⟨⟨trivial, trivial⟩, trivial, trivial⟩

theorem heapCounted_initial {heapSize : Int} (ha : HeapInit env.alloc) :
    HeapCounted 0 (World.initial env.atomic heapSize) := by
  obtain ⟨idx, hidx⟩ := ha.first
  have hempty : tally objMax ObjInfo.bytes (Db.initial heapSize).objmeta = 0 :=
    Finset.sum_eq_zero fun i _ => ObjInfo.bytes_free rfl
  have hinit : World.initial env.atomic heapSize =
      World.allocated idx 2 ⟨Db.initial heapSize, false, false, [], 0⟩ :=
    afterAlloc_of_some (by decide) hidx
  rw [hinit]
  refine ⟨?_, fun i hi => absurd rfl hi, fun i hi => absurd rfl hi⟩
  show 0 + 2 = 2 + tally objMax ObjInfo.bytes (Db.initial heapSize).objmeta + 0
  rw [hempty]
  rfl

theorem heapRight_step [Rounding] {heapSize : Int} {w₀ : World} {s s' : RunState} {op : Op}
    (hf : AllocSound limit env.alloc) (ha : HeapInit env.alloc)
    (ho : OwnedWorld limit s.world) (hh : HeapRight w₀ s.world) (hg : HeapGuard env s op)
    (hs : (apiLts env heapSize).step s op = some s') : HeapRight w₀ s'.world := by
  have hblocks := blockTable_step ha hh.blocks hs
  obtain ⟨events, hrun, -⟩ := apiLts_step hs
  obtain ⟨⟨hoid, hkeep⟩, hfits, hleak⟩ := hg
  have hchange : ∀ h oid metadata, op = .changeinfo h oid metadata →
      KeepsChange (HeapRight w₀) s.world.db h oid metadata := by
    intro h oid metadata _ w i hw _ _ _
    apply hw.update_of_same
    · rfl
    · exact ⟨rfl, rfl, rfl⟩
    all_goals rfl
  rcases op_cases_keeps keepsEffects_heapRight hchange
    (fun _ => by rintro h metadata imm fuel rfl; exact hoid) hh hrun with
    ⟨h, metadata, r, rfl, hins, -⟩ | ⟨h, oid, data, out, rfl, hout, hw, -⟩ | ⟨hh', -⟩
  · exact ⟨hblocks, heapCounted_insert hh.blocks hh.counted ho hf ha hfits hkeep hleak hins,
      (total_insert hins).trans hh.total⟩
  · rcases writedata_cases hout with ⟨e, -, hdb⟩ | ⟨i, -, -, -, -, -, hdb⟩ <;> rw [hw, hdb]
    · exact (keepsEffects_heapRight : KeepsEffects env True _).idle _ _ hh rfl rfl
    · apply hh.update_of_same
      · rfl
      · exact ⟨rfl, rfl, rfl⟩
      all_goals rfl
  · exact hh'

/-- Heap accounting: in every run of calls in which no insert gives back a block it does
not have or keeps one for which it has no slot, `heap_used` is the sum of the objects'
sizes and the two bytes of the start, and it complements `heap_free`. -/
theorem heapUsed_of_guarded [Rounding] {heapSize : Int} {s : RunState}
    (hf : AllocSound limit env.alloc)
    (ha : HeapInit env.alloc) (h : (apiLts env heapSize).Guarded (HeapGuard env) s) :
    s.world.db.heapUsed =
        2 + ∑ i ∈ (Finset.range objMax).filter fun i => (s.world.db.objmeta i).oid ≠ 0,
          (s.world.db.objmeta i).sizeMax * (s.world.db.objmeta i).historySize ∧
      s.world.db.heapUsed + s.world.db.heapFree =
        (World.initial env.atomic heapSize).db.heapUsed +
          (World.initial env.atomic heapSize).db.heapFree := by
  have hinv : OwnedWorld limit s.world ∧
      HeapRight (World.initial env.atomic heapSize) s.world := by
    refine h.invariant (I := fun s => OwnedWorld limit s.world ∧
      HeapRight (World.initial env.atomic heapSize) s.world) ?_ fun s op s' hI hg hs => ?_
    · rintro s rfl
      refine ⟨ownedWorld_initial hf, blockTable_initial ha fun idx hidx => ?_,
        heapCounted_initial ha, rfl⟩
      exact (hf [] 2 idx trivial (by decide) hidx).1
    · obtain ⟨ho, hh⟩ := hI
      exact ⟨ownedWorld_step hf ho hg.1 hs, heapRight_step hf ha ho hh hg hs⟩
  obtain ⟨-, -, hc, htotal⟩ := hinv
  refine ⟨?_, htotal⟩
  rw [Finset.sum_filter]
  have hbytes : ∀ i ∈ Finset.range objMax, (if (s.world.db.objmeta i).oid ≠ 0 then
      (s.world.db.objmeta i).sizeMax * (s.world.db.objmeta i).historySize else 0) =
        (s.world.db.objmeta i).bytes := by
    intro i _
    rw [ObjInfo.bytes, ite_not]
  rw [Finset.sum_congr rfl hbytes]
  exact hc.used.trans (Int.add_zero _)

theorem heapUsed_of_guarded_delete :
    ∃ s, (apiLts (exampleEnv 4096) 4096).Guarded (HeapGuard (exampleEnv 4096)) s ∧
      s.world.db.heapUsed =
          2 + ∑ i ∈ (Finset.range objMax).filter fun i => (s.world.db.objmeta i).oid ≠ 0,
            (s.world.db.objmeta i).sizeMax * (s.world.db.objmeta i).historySize ∧
      s.world.db.heapUsed + s.world.db.heapFree = 4096 ∧ s.world.db.heapUsed = 66 := by
  obtain ⟨s, hr, hp⟩ := (apiLts (exampleEnv 4096) 4096).exists_of_execGuarded
    (G := HeapGuard (exampleEnv 4096))
    (g := fun s op => decide (HeapGuard (exampleEnv 4096) s op)) (fun _ _ => of_decide_eq_true)
    ownerSchedule (fun s => decide (s.world.db.heapUsed = 66))
    (s := ⟨World.initial (exampleEnv 4096).atomic 4096, []⟩) rfl (by decide +kernel)
  obtain ⟨hused, htotal⟩ :=
    heapUsed_of_guarded (bumpAlloc_sound 4096) (bumpAlloc_init (by decide)) hr
  exact ⟨s, hr, hused, htotal, of_decide_eq_true hp⟩

/-- An object, and then one with the same name and type, unique and too big for the heap:
its bytes are given back, though it never had them. -/
theorem exists_heapUsed_ne :
    AllocSound 4096 (exampleEnv 4096).alloc ∧ HeapInit (exampleEnv 4096).alloc ∧
      ∃ s, (apiLts (exampleEnv 4096) 4096).Guarded
          (fun s op => OidKnown op ∧ InsertFits (exampleEnv 4096) s op) s ∧
        s.world.db.heapUsed ≠
          2 + ∑ i ∈ (Finset.range objMax).filter fun i => (s.world.db.objmeta i).oid ≠ 0,
            (s.world.db.objmeta i).sizeMax * (s.world.db.objmeta i).historySize := by
  obtain ⟨s, hr, hp⟩ := (apiLts (exampleEnv 4096) 4096).exists_of_execGuarded
    (G := fun s op => OidKnown op ∧ InsertFits (exampleEnv 4096) s op)
    (g := fun s op => decide (OidKnown op ∧ InsertFits (exampleEnv 4096) s op))
    (fun _ _ => of_decide_eq_true)
    [.insert aProcess anObject,
      .insert aProcess { aBigObject with flags := { unique := true } }]
    (fun s => decide (s.world.db.heapUsed ≠
      2 + ∑ i ∈ (Finset.range objMax).filter fun i => (s.world.db.objmeta i).oid ≠ 0,
        (s.world.db.objmeta i).sizeMax * (s.world.db.objmeta i).historySize))
    (s := ⟨World.initial (exampleEnv 4096).atomic 4096, []⟩) rfl (by decide +kernel)
  exact ⟨bumpAlloc_sound 4096, bumpAlloc_init (by decide), s, hr, of_decide_eq_true hp⟩

end KogmoRtdb
