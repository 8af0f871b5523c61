import KogmoRtdb.DataPath.ObjdataPtr
import KogmoRtdb.DataPath.ObjdataSlot
import KogmoRtdb.Meta.Api

/-!
# Calls with an invalid object id

Every entry point looks the oid up with `kogmo_rtdb_obj_findmeta_byid` and takes the first
slot that carries it. Occupied slots have positive oids, so an oid that no object has is
found only if it is 0: a free slot carries that, together with the metadata of the object
that was there before.
-/

namespace KogmoRtdb

open Prog

variable {env : Env} {h : Handle} {w w' : World} {oid : ObjId}

/-! ## The entry points -/

/-- Calls with this oid are refused, and the database stays as it is. -/
structure Rejected [Rounding] (env : Env) (w : World) (oid : ObjId) : Prop where
  readdata : ∀ h mode ts buf size now fuel,
    readdataMode w.db h mode oid ts buf size now fuel =
      some { ret := .error .notFound, buf := buf }
  readdataPtr : ∀ h mode ts fuel,
    readdataModePtr w.db h mode oid ts fuel = some (.error .notFound)
  writedata : ∀ h data committedTs, KogmoRtdb.writedata w.db h oid data committedTs =
    { ret := .error .notFound, db := w.db, data := data }
  writedataPtrBegin : ∀ h dataPtr, KogmoRtdb.writedataPtrBegin w.db h oid dataPtr =
    { ret := .error .notFound, db := w.db, ptr := dataPtr }
  readinfo : ∀ ts metadata, ∃ w', KogmoRtdb.readinfo env oid ts metadata w =
    some ((.error .notFound, metadata), w') ∧ w'.db = w.db
  delete : ∀ h fuel metadata, metadata.oid = oid →
    ∃ w', KogmoRtdb.delete env h (fuel + 1) metadata w =
      some ((.error .notFound, metadata), w') ∧ w'.db = w.db
  changeinfo : ∀ h metadata, ∃ w', KogmoRtdb.changeinfo env h oid metadata w =
    some (.error (if h.admin then .notFound else .noPerm), w') ∧ w'.db = w.db
  readdataslotInit : ∀ objslot, (KogmoRtdb.readdataslotInit w.db objslot oid).1 =
    .error .notFound

/-- An oid that is found nowhere is rejected by all of them. -/
theorem rejected_of_none [Rounding]
    (hnone : w.db.findmetaById oid = none) : Rejected env.atomic w oid := by
  have hlock : (w.lock env.atomic).db.findmetaById oid = none := by rwa [atomic_lock_db]
  have hdb : (w.lock env.atomic).unlock.db = w.db := atomic_lock_db w
  have hselect {h : Handle} {mode : Mode} {ts : Timestamp} {fuel : Nat} :
      select w.db h mode oid ts fuel = some (.error .notFound) := by rw [select, hnone]
  refine ⟨?_, ?_, ?_, ?_, ?_, ?_, ?_, ?_⟩
  · intro h mode ts buf size now fuel
    rw [readdataMode, hselect]
    rfl
  · intro h mode ts fuel
    rw [readdataModePtr, hselect]
    rfl
  · intro h data committedTs
    rw [writedata, hnone]
  · intro h dataPtr
    rw [writedataPtrBegin, hnone]
  · intro ts metadata
    refine ⟨_, bind_some.mpr ⟨⟨⟩, w.lock env.atomic, rfl, bind_some.mpr ⟨_, _, rfl, ?_⟩⟩, hdb⟩
    rw [hlock]
    rfl
  · rintro h fuel metadata rfl
    have hlocked : deleteLocked env.atomic h metadata false w =
        some ((.error .notFound, metadata, []), (w.lock env.atomic).unlock) := by
      refine bind_some.mpr ⟨⟨⟩, w.lock env.atomic, rfl, bind_some.mpr ⟨_, _, rfl, ?_⟩⟩
      rw [hlock]
      rfl
    exact ⟨_, bind_some.mpr ⟨_, _, hlocked, rfl⟩, hdb⟩
  · intro h metadata
    unfold changeinfo
    cases hadmin : h.admin with
    | false => exact ⟨w, rfl, rfl⟩
    | true =>
        have hask : (w.ask.lock env.atomic).db.findmetaById oid = none := by
          rw [atomic_lock_db]
          exact hnone
        refine ⟨(w.ask.lock env.atomic).unlock, ?_, atomic_lock_db w.ask⟩
        rw [if_pos rfl, if_pos rfl]
        refine bind_some.mpr ⟨_, _, rfl, bind_some.mpr ⟨⟨⟩, w.ask.lock env.atomic, rfl,
          bind_some.mpr ⟨_, _, rfl, ?_⟩⟩⟩
        rw [hask]
        rfl
  · intro objslot
    unfold readdataslotInit readdataslotPtr
    dsimp only
    rw [hnone]
    rfl

theorem not_rejected_of_some [Rounding] {i : Nat} (hsome : w.db.findmetaById oid = some i) :
    ¬ Rejected env.atomic w oid := by
  intro hr
  obtain ⟨w', hrun, -⟩ := hr.changeinfo { procOid := 0, admin := true } {}
  obtain ⟨_, w₁, hnow, hrun⟩ := bind_some.mp hrun
  cases hnow
  obtain ⟨_, w₂, hlock, hrun⟩ := bind_some.mp hrun
  cases hlock
  obtain ⟨db, _, hdb, hrun⟩ := bind_some.mp hrun
  cases hdb
  have hfound : (w.ask.lock env.atomic).db.findmetaById oid = some i := by
    rw [atomic_lock_db]
    exact hsome
  rw [hfound] at hrun
  cases hrun

/-! ## Runs -/

/-- Only oids that inserts have returned are in the table. -/
def PosOids (t : Nat → ObjInfo) : Prop := ∀ i, (t i).oid ≠ 0 → i < objMax ∧ 0 < (t i).oid

theorem PosOids.update {t : Nat → ObjInfo} {i : Nat} {info : ObjInfo} (ht : PosOids t)
    (hinfo : info.oid ≠ 0 → i < objMax ∧ 0 < info.oid) :
    PosOids (Function.update t i info) := by
  intro j
  by_cases hji : j = i
  · rw [hji, Function.update_self]
    exact hinfo
  · rw [Function.update_of_ne hji]
    exact ht j

theorem keepsEffects_posOids : KeepsEffects env False fun w => PosOids w.db.objmeta where
  idle w w' hw hdb _ := by rwa [hdb]
  mark w i k proc hw _ := hw.update (hw i)
  purge w i hw _ := by
    rw [purged_objmeta]
    exact hw.update fun hne => absurd rfl hne

theorem posOids_insert [Rounding] {metadata : ObjInfo} {r : Result × ObjInfo}
    (ht : PosOids w.db.objmeta)
    (hrun : insert env.atomic h metadata w = some (r, w')) : PosOids w'.db.objmeta := by
  rcases insert_table hrun with ⟨hobj, -⟩ | ⟨i, newIdx, m', w₁, -, hs, -, hcases⟩
  · rwa [hobj]
  rcases hcases with ⟨-, -, hobj⟩ | ⟨hpos, -, hobj⟩ <;> rw [hobj]
  · exact ht.update fun hne => absurd hs.db_eq.2.2 hne
  · generalize w.db.nextOid = oid at hpos ⊢
    exact ht.update fun _ => ⟨hs.slot_lt, hpos⟩

theorem posOids_step [Rounding] {heapSize : Int} {s s' : RunState} {op : Op}
    (ht : PosOids s.world.db.objmeta) (hs : (apiLts env heapSize).step s op = some s') :
    PosOids s'.world.db.objmeta := by
  obtain ⟨events, hrun, -⟩ := apiLts_step hs
  have hchange : ∀ h oid metadata, op = .changeinfo h oid metadata →
      KeepsChange (fun w => PosOids w.db.objmeta) s.world.db h oid metadata :=
    fun _ _ _ _ _ i ht _ _ _ => ht.update (ht i)
  rcases op_cases_keeps keepsEffects_posOids hchange (fun hk => hk.elim) ht hrun with
    ⟨h, metadata, r, rfl, hins, -⟩ | ⟨h, oid, data, out, rfl, hout, hw, -⟩ | ⟨ht', -⟩
  · exact posOids_insert ht hins
  · rw [hw]
    rcases writedata_cases hout with ⟨e, -, hdb⟩ | ⟨i, -, -, -, -, -, hdb⟩ <;> rw [hdb]
    · exact ht
    · exact ht.update (ht i)
  · exact ht'

def InvalidOid (db : Db) (oid : ObjId) : Prop :=
  oid ≤ 0 ∨ ∀ i, (db.objmeta i).oid ≠ 0 → (db.objmeta i).oid ≠ oid

/-- An invalid oid is found only if it is 0 and some slot is free. -/
theorem findmetaById_invalid {db : Db} (ht : PosOids db.objmeta) (hinv : InvalidOid db oid) :
    db.findmetaById oid = none ↔ ¬ (oid = 0 ∧ ∃ i < objMax, (db.objmeta i).oid = 0) := by
  constructor
  · rintro hnone ⟨rfl, i, hi, hfree⟩
    exact List.find?_eq_none.mp hnone i (List.mem_range.mpr hi) (decide_eq_true hfree)
  · intro hno
    cases hfound : db.findmetaById oid with
    | none => rfl
    | some i =>
        obtain ⟨hi, hoid⟩ := Db.findmetaById_some hfound
        have hne : (db.objmeta i).oid ≠ 0 := fun h0 => hno ⟨hoid.symm.trans h0, i, hi, h0⟩
        rcases hinv with hle | hother
        · have hpos := (ht i hne).2
          rw [hoid] at hpos
          exact absurd hpos (Int.not_lt.mpr hle)
        · exact absurd hoid (hother i hne)

/-- Invalid oids: in every reachable state, the calls with an oid that no object has are
refused without effect, except for the oid 0 when some slot is free. -/
theorem rejected_iff [Rounding] {heapSize : Int} {s : RunState}
    (h : (apiLts env heapSize).Reachable s) (hinv : InvalidOid s.world.db oid) :
    Rejected env.atomic s.world oid ↔
      ¬ (oid = 0 ∧ ∃ i < objMax, (s.world.db.objmeta i).oid = 0) := by
  have hpos : PosOids s.world.db.objmeta := by
    refine h.invariant (I := fun s => PosOids s.world.db.objmeta) ?_
      fun s op s' hI hs => posOids_step hI hs
    rintro s rfl i hi
    exact absurd (initial_oid env.atomic heapSize i) hi
  rw [← findmetaById_invalid hpos hinv]
  constructor
  · intro hr
    by_contra hsome
    obtain ⟨i, hi⟩ := Option.ne_none_iff_exists'.mp hsome
    exact not_rejected_of_some hi hr
  · exact rejected_of_none

/-- A run to evaluate: an object is inserted and deleted at once. -/
def emptiedSchedule : List Op :=
  [.insert aProcess anObject, .deleteImm aProcess { anObject with oid := 1 } true 1]

theorem rejected_iff_negative :
    ∃ s, (apiLts (exampleEnv 4096) 4096).Reachable s ∧
      (Rejected (exampleEnv 4096).atomic s.world (-3) ↔
        ¬ ((-3 : Int) = 0 ∧ ∃ i < objMax, (s.world.db.objmeta i).oid = 0)) ∧
      (s.world.db.objmeta 0).bufferIdx = 2 := by
  obtain ⟨s, hr, hp⟩ := (apiLts (exampleEnv 4096) 4096).exists_of_exec emptiedSchedule
    (fun s => decide ((s.world.db.objmeta 0).bufferIdx = 2))
    (s := ⟨World.initial (exampleEnv 4096).atomic 4096, []⟩) rfl (by decide +kernel)
  exact ⟨s, hr, rejected_iff hr (Or.inl (by decide)), of_decide_eq_true hp⟩

/-- A record of 32 bytes for the oid 0 goes into the block of the object that was there. -/
theorem exists_not_rejected :
    ∃ s, (apiLts (exampleEnv 4096) 4096).Reachable s ∧ InvalidOid s.world.db 0 ∧
      ¬ Rejected (exampleEnv 4096).atomic s.world 0 := by
  obtain ⟨s, hr, hp⟩ := (apiLts (exampleEnv 4096) 4096).exists_of_exec emptiedSchedule
    (fun s => decide ((writedata s.world.db aProcess 0 (Mem.zero.write32 20 32) 1).ret = .ok 0))
    (s := ⟨World.initial (exampleEnv 4096).atomic 4096, []⟩) rfl (by decide +kernel)
  refine ⟨s, hr, Or.inl (by decide), fun hrej => ?_⟩
  have hok := of_decide_eq_true hp
  rw [hrej.writedata] at hok
  cases hok

end KogmoRtdb
