import KogmoRtdb.Lib.Lts
import KogmoRtdb.Meta.Effects
import KogmoRtdb.Meta.Init

/-!
# Runs of calls

The database as a transition system: from the initial state, any number of
calls of any processes in any order, each of them atomic. A state carries a
log of the objects inserted and the records committed so far, newest first,
for the properties that speak about the past.
-/

namespace KogmoRtdb

/-- `kogmo_rtdb_obj_writedata` as a call: the answer and the caller's record. -/
def writedataCall [Rounding] (env : Env) (h : Handle) (oid : ObjId) (data : Mem) :
    Call (Result × Mem) := fun w =>
  let out := writedata w.db h oid data (env.now w.tick)
  some ((out.ret, out.data), { w.ask with db := out.db })

/-- A successful insert or commit; a commit is known by the process, the record it
was given, and its stamp. -/
inductive ApiEvent where
  | inserted (oid : ObjId)
  | committed (oid proc : ObjId) (data : Mem) (stamp : Timestamp)

/-- A call with its arguments; `fuel` bounds the depth of a delete. -/
inductive Op where
  | insert (h : Handle) (metadata : ObjInfo)
  | deleteImm (h : Handle) (metadata : ObjInfo) (immediatelyDelete : Bool) (fuel : Nat)
  | purgeObjs
  | changeinfo (h : Handle) (oid : ObjId) (metadata : ObjInfo)
  | writedata (h : Handle) (oid : ObjId) (data : Mem)

def insertEvents : Result → List ApiEvent
  | .ok oid => [.inserted oid]
  | .error _ => []

def writeEvents (h : Handle) (oid : ObjId) (data : Mem) (stamp : Timestamp) :
    Result → List ApiEvent
  | .ok _ => [.committed oid h.procOid data stamp]
  | .error _ => []

def Op.run [Rounding] (env : Env) : Op → Call (List ApiEvent)
  | .insert h metadata => do
      let (ret, _) ← KogmoRtdb.insert env h metadata
      return insertEvents ret
  | .deleteImm h metadata immediatelyDelete fuel => do
      let _ ← KogmoRtdb.deleteImm env h fuel metadata immediatelyDelete
      return []
  | .purgeObjs => do
      let _ ← KogmoRtdb.purgeObjs env
      return []
  | .changeinfo h oid metadata => do
      let _ ← KogmoRtdb.changeinfo env h oid metadata
      return []
  | .writedata h oid data => do
      let (ret, data') ← writedataCall env h oid data
      return writeEvents h oid data (data'.read64 0) ret

structure RunState where
  world : World
  log : List ApiEvent

def apiLts [Rounding] (env : Env) (heapSize : Int) : Lts RunState Op where
  init s := s = ⟨World.initial env.atomic heapSize, []⟩
  step s op := (op.run env.atomic s.world).map fun (events, w) => ⟨w, events ++ s.log⟩

variable {env : Env} {heapSize : Int} {s s' : RunState} {op : Op}

theorem apiLts_step [Rounding] (hs : (apiLts env heapSize).step s op = some s') :
    ∃ events, op.run env.atomic s.world = some (events, s'.world) ∧ s'.log = events ++ s.log := by
  obtain ⟨⟨events, w⟩, hrun, rfl⟩ := Option.map_eq_some_iff.mp hs
  exact ⟨events, hrun, rfl⟩

/-- The three ways a call can act: it inserts, it commits, or it does what keeps `P` and
adds nothing to the log. -/
theorem op_cases_timed [Rounding] {known : Prop} {imm : ObjId → Prop} {P : World → Prop}
    {events : List ApiEvent} {w w' : World} (hP : KeepsTimed env known imm P)
    (hchange : ∀ h oid metadata, op = .changeinfo h oid metadata →
      KeepsChange P w.db h oid metadata)
    (hoid : known → ∀ h metadata imm fuel, op = .deleteImm h metadata imm fuel → metadata.oid ≠ 0)
    (himm : ∀ h metadata fuel, op = .deleteImm h metadata true fuel → imm metadata.oid)
    (hw : P w) (hrun : op.run env.atomic w = some (events, w')) :
    (∃ h metadata r, op = .insert h metadata ∧
        KogmoRtdb.insert env.atomic h metadata w = some (r, w') ∧ events = insertEvents r.1) ∨
      (∃ h oid data out, op = .writedata h oid data ∧
        out = KogmoRtdb.writedata w.db h oid data (env.now w.tick) ∧
        w' = { w.ask with db := out.db } ∧
        events = writeEvents h oid data (out.data.read64 0) out.ret) ∨
      (P w' ∧ events = []) := by
  cases op with
  | insert h metadata =>
      obtain ⟨r, w₁, hins, hend⟩ := Prog.bind_some.mp hrun
      cases hend
      exact Or.inl ⟨h, metadata, r, rfl, hins, rfl⟩
  | writedata h oid data =>
      obtain ⟨r, w₁, hwrite, hend⟩ := Prog.bind_some.mp hrun
      cases hwrite
      cases hend
      exact Or.inr (Or.inl ⟨h, oid, data, _, rfl, rfl, rfl, rfl⟩)
  | deleteImm h metadata immediatelyDelete fuel =>
      obtain ⟨r, w₁, hdel, hend⟩ := Prog.bind_some.mp hrun
      cases hend
      have hoid' : known → metadata.oid ≠ 0 := fun hk => hoid hk _ _ _ _ rfl
      have himm' : immediatelyDelete = true → imm metadata.oid := by
        rintro rfl
        exact himm _ _ _ rfl
      exact Or.inr (Or.inr ⟨hP.deleteImm fuel hoid' himm' w r w' hw hdel, rfl⟩)
  | purgeObjs =>
      obtain ⟨r, w₁, hpurge, hend⟩ := Prog.bind_some.mp hrun
      cases hend
      exact Or.inr (Or.inr ⟨hP.purgeObjs w r w' hw hpurge, rfl⟩)
  | changeinfo h oid metadata =>
      obtain ⟨r, w₁, hrun, hend⟩ := Prog.bind_some.mp hrun
      cases hend
      exact Or.inr (Or.inr ⟨hP.changeinfo (hchange _ _ _ rfl) w r w' ⟨hw, rfl⟩ hrun, rfl⟩)

theorem op_cases_keeps [Rounding] {known : Prop} {P : World → Prop} {events : List ApiEvent}
    {w w' : World} (hP : KeepsEffects env known P)
    (hchange : ∀ h oid metadata, op = .changeinfo h oid metadata →
      KeepsChange P w.db h oid metadata)
    (hoid : known → ∀ h metadata imm fuel, op = .deleteImm h metadata imm fuel → metadata.oid ≠ 0)
    (hw : P w) (hrun : op.run env.atomic w = some (events, w')) :
    (∃ h metadata r, op = .insert h metadata ∧
        KogmoRtdb.insert env.atomic h metadata w = some (r, w') ∧ events = insertEvents r.1) ∨
      (∃ h oid data out, op = .writedata h oid data ∧
        out = KogmoRtdb.writedata w.db h oid data (env.now w.tick) ∧
        w' = { w.ask with db := out.db } ∧
        events = writeEvents h oid data (out.data.read64 0) out.ret) ∨
      (P w' ∧ events = []) :=
  op_cases_timed (hP.timed fun _ => True) hchange hoid (fun _ _ _ _ => trivial) hw hrun

/-- The third way is a path of effects, if a deleted oid is not 0, which would name a free
slot. -/
theorem op_cases [Rounding] {events : List ApiEvent} {w w' : World}
    (hoid : ∀ h metadata imm fuel, op = .deleteImm h metadata imm fuel → metadata.oid ≠ 0)
    (hrun : op.run env.atomic w = some (events, w')) :
    (∃ h metadata r, op = .insert h metadata ∧
        KogmoRtdb.insert env.atomic h metadata w = some (r, w') ∧ events = insertEvents r.1) ∨
      (∃ h oid data out, op = .writedata h oid data ∧
        out = KogmoRtdb.writedata w.db h oid data (env.now w.tick) ∧
        w' = { w.ask with db := out.db } ∧
        events = writeEvents h oid data (out.data.read64 0) out.ret) ∨
      (Steps env w w' ∧ events = []) :=
  op_cases_keeps Steps.keepsEffects (fun _ _ _ _ => Steps.keepsChange) (fun _ => hoid) .refl hrun

/-! ## The slots' objects -/

def SameObject (info info' : ObjInfo) : Prop :=
  info'.oid ≠ 0 → info'.oid = info.oid ∧ info'.createdProc = info.createdProc

variable {w w' : World}

theorem sameObject_update {t t' : Nat → ObjInfo} {i : Nat} {info : ObjInfo}
    (ht : t' = Function.update t i info) (h : SameObject (t i) info) (j : Nat) :
    SameObject (t j) (t' j) := by
  rw [ht]
  by_cases hji : j = i
  · subst hji
    rwa [Function.update_self]
  · rw [Function.update_of_ne hji]
    exact fun _ => ⟨rfl, rfl⟩

theorem sameObject_effect (he : Effect env w w') (i : Nat) :
    SameObject (w.db.objmeta i) (w'.db.objmeta i) := by
  cases he with
  | idle hdb hlog =>
      rw [hdb]
      exact fun _ => ⟨rfl, rfl⟩
  | mark hocc =>
      apply sameObject_update
      · rfl
      · exact fun _ => ⟨rfl, rfl⟩
  | purge hocc => exact sameObject_update (purged_objmeta _ _) (fun h => absurd rfl h) i
  | change =>
      apply sameObject_update
      · rfl
      · exact fun _ => ⟨rfl, rfl⟩

theorem sameObject_steps (hs : Steps env w w') (i : Nat) :
    SameObject (w.db.objmeta i) (w'.db.objmeta i) := by
  refine hs.invariant (I := fun w' => SameObject (w.db.objmeta i) (w'.db.objmeta i)) ?_
    fun _ => ⟨rfl, rfl⟩
  intro w₁ w₂ h₁ he hne
  obtain ⟨hoid, hproc⟩ := sameObject_effect he i hne
  obtain ⟨hoid₁, hproc₁⟩ := h₁ (by rwa [← hoid])
  exact ⟨hoid.trans hoid₁, hproc.trans hproc₁⟩

theorem sameObject_writedata [Rounding] {h : Handle} {oid : ObjId} {data : Mem} {ts : Timestamp}
    {out : WriteOut} (hout : out = KogmoRtdb.writedata w.db h oid data ts) (i : Nat) :
    SameObject (w.db.objmeta i) (out.db.objmeta i) := by
  rcases writedata_cases hout with ⟨e, -, hdb⟩ | ⟨j, -, -, -, -, -, hdb⟩ <;> rw [hdb]
  · exact fun _ => ⟨rfl, rfl⟩
  · apply sameObject_update
    · rfl
    · exact fun _ => ⟨rfl, rfl⟩

/-- The search for a slot leaves the table and the oids' counter alone. -/
theorem SlotSearch.db_eq [Rounding] {h : Handle} {ts : Timestamp} {m m' : ObjInfo} {newIdx : Int}
    {foundSlot : Option Nat} (hs : SlotSearch env.atomic h ts m w foundSlot newIdx m' w') :
    w'.db.objmeta = w.db.objmeta ∧ w'.db.objmetaOidNext = w.db.objmetaOidNext ∧ m'.oid = m.oid := by
  cases hs with
  | reuse hi => exact ⟨rfl, rfl, rfl⟩
  | dataless hnone h0 hi => exact ⟨rfl, rfl, rfl⟩
  | noSlotDataless hnone h0 hi => exact ⟨rfl, rfl, rfl⟩
  | noBlock hnone h0 hneg halloc =>
      rw [atomic_lock_db]
      unfold World.afterAlloc
      split
      · exact ⟨rfl, rfl, rfl⟩
      · split <;> exact ⟨rfl, rfl, rfl⟩
  | block hnone h0 hpos halloc hge hw hi =>
      subst hw
      exact ⟨rfl, rfl, rfl⟩
  | noSlot hnone h0 hpos halloc hge hw hi =>
      subst hw
      exact ⟨rfl, rfl, rfl⟩

theorem findReusable_lt [Rounding] {db : Db} {h : Handle} {m : ObjInfo} {ts : Timestamp} {i : Nat}
    (hi : findReusable db h m ts = some i) : i < objMax :=
  List.mem_range.mp (List.mem_of_find?_eq_some hi)

theorem SlotSearch.slot_lt [Rounding] {h : Handle} {ts : Timestamp} {m m' : ObjInfo} {newIdx : Int}
    {i : Nat} (hs : SlotSearch env.atomic h ts m w (some i) newIdx m' w') : i < objMax := by
  cases hs with
  | reuse hi => exact findReusable_lt hi
  | dataless hnone h0 hi => exact (Db.findmetaById_some hi).1
  | block hnone h0 hpos halloc hge hw hi => exact (Db.findmetaById_some hi).1

/-- What an insert does to the table: nothing, or, past the uniqueness check, it fills the
slot it has found, with an oid if there is one. -/
theorem insert_table [Rounding] {h : Handle} {metadata : ObjInfo} {r : Result × ObjInfo}
    (hrun : KogmoRtdb.insert env.atomic h metadata w = some (r, w')) :
    (w'.db.objmeta = w.db.objmeta ∧ ∃ e, r.1 = .error e) ∨
      ∃ i newIdx m' w₁, metadata.refused = false ∧
        SlotSearch env.atomic h (env.now w.tick) (initMetadata env h (env.now w.tick) metadata)
          (w.ask.lock env.atomic) (some i) newIdx m' w₁ ∧ w₁.db.notUniq m' = false ∧
        (w.db.nextOid ≤ 0 ∧ (∃ e, r.1 = .error e) ∧
            w'.db.objmeta = Function.update w.db.objmeta i m' ∨
          0 < w.db.nextOid ∧ r.1 = .ok w.db.nextOid ∧
            w'.db.objmeta = Function.update w.db.objmeta i
              { m'.withParent w.db.nextOid with oid := w.db.nextOid }) := by
  rcases insert_some hrun with ⟨-, rfl, rfl⟩ | ⟨href, foundSlot, newIdx, m', w₁, hs, hfin⟩
  · exact Or.inl ⟨rfl, _, rfl⟩
  obtain ⟨htable, hnext, -⟩ := hs.db_eq
  rw [atomic_lock_db] at htable hnext
  have htable : w₁.db.objmeta = w.db.objmeta := htable
  have hnextOid : w₁.db.nextOid = w.db.nextOid := congrArg (fun n : Nat => wrap32 n) hnext
  cases hfin with
  | notUniq hu => exact Or.inl ⟨(release_objmeta newIdx m' w₁.unlock).trans htable, _, rfl⟩
  | noSlot hu => exact Or.inl ⟨htable, _, rfl⟩
  | @noOid i hu hle =>
      have hobj := release_objmeta m'.bufferIdx m' (w₁.write (·.setMeta i m')).oidTaken
      refine Or.inr ⟨i, newIdx, m', w₁, href, hs, hu, Or.inl ⟨?_, ⟨_, rfl⟩, ?_⟩⟩
      · exact hnextOid.symm.trans_le hle
      · rw [← htable]
        exact hobj
  | @entered i oid hu hoid hpos =>
      have heq : oid = w.db.nextOid := hoid.trans hnextOid
      have hobj : ((w₁.write (·.setMeta i m')).oidTaken.write
          (·.setMeta i { m'.withParent oid with oid := oid })).unlock.db.objmeta =
          Function.update w₁.db.objmeta i { m'.withParent oid with oid := oid } :=
        Function.update_idem ..
      rw [← heq, ← htable]
      exact Or.inr ⟨i, newIdx, m', w₁, href, hs, hu, Or.inr ⟨hpos, rfl, hobj⟩⟩

/-- An insert puts an object into at most one slot, under the next oid. -/
theorem slots_insert [Rounding] {h : Handle} {metadata : ObjInfo} {r : Result × ObjInfo}
    (hrun : KogmoRtdb.insert env.atomic h metadata w = some (r, w')) :
    ∃ i, (∀ j, j ≠ i → SameObject (w.db.objmeta j) (w'.db.objmeta j)) ∧
      (SameObject (w.db.objmeta i) (w'.db.objmeta i) ∨
        i < objMax ∧ (w'.db.objmeta i).oid = w.db.nextOid) := by
  rcases insert_table hrun with ⟨hobj, -⟩ | ⟨i, newIdx, m', w₁, -, hs, -, hcases⟩
  · rw [hobj]
    exact ⟨0, fun j _ _ => ⟨rfl, rfl⟩, Or.inl fun _ => ⟨rfl, rfl⟩⟩
  rcases hcases with ⟨-, -, hobj⟩ | ⟨-, -, hobj⟩
  · have hup := sameObject_update hobj fun hne => absurd hs.db_eq.2.2 hne
    exact ⟨i, fun j _ => hup j, Or.inl (hup i)⟩
  · rw [hobj]
    refine ⟨i, fun j hji => ?_, Or.inr ⟨hs.slot_lt, ?_⟩⟩
    · rw [Function.update_of_ne hji]
      exact fun _ => ⟨rfl, rfl⟩
    · rw [Function.update_self]

/-- A call puts an object into at most one slot, and then it is an insert and the object
has the next oid. -/
theorem slots_op [Rounding] {events : List ApiEvent}
    (hoid : ∀ h metadata imm fuel, op = .deleteImm h metadata imm fuel → metadata.oid ≠ 0)
    (hrun : op.run env.atomic w = some (events, w')) :
    ∃ i, (∀ j, j ≠ i → SameObject (w.db.objmeta j) (w'.db.objmeta j)) ∧
      (SameObject (w.db.objmeta i) (w'.db.objmeta i) ∨
        (∃ h metadata, op = .insert h metadata) ∧ i < objMax ∧
          (w'.db.objmeta i).oid = w.db.nextOid) := by
  rcases op_cases hoid hrun with
    ⟨h, metadata, r, rfl, hins, -⟩ | ⟨h, oid, data, out, rfl, hout, rfl, -⟩ | ⟨hsteps, -⟩
  · obtain ⟨i, hother, hself⟩ := slots_insert hins
    exact ⟨i, hother, hself.imp id fun hnew => ⟨⟨h, metadata, rfl⟩, hnew⟩⟩
  · exact ⟨0, fun j _ => sameObject_writedata hout j, Or.inl (sameObject_writedata hout 0)⟩
  · exact ⟨0, fun j _ => sameObject_steps hsteps j, Or.inl (sameObject_steps hsteps 0)⟩

structure OidTable (t : Nat → ObjInfo) : Prop where
  unique : ∀ i j, (t i).oid ≠ 0 → (t i).oid = (t j).oid → i = j
  bound : ∀ i, (t i).oid ≠ 0 → i < objMax

theorem OidTable.initial (heapSize : Int) : OidTable (Db.initial heapSize).objmeta :=
  ⟨fun _ _ h => absurd rfl h, fun _ h => absurd rfl h⟩

theorem OidTable.same {t t' : Nat → ObjInfo} (ht : OidTable t)
    (hsame : ∀ i, SameObject (t i) (t' i)) : OidTable t' := by
  refine ⟨fun i j hi hij => ?_, fun i hi => ?_⟩
  · have hi' := (hsame i hi).1
    have hj' := (hsame j (by rwa [← hij])).1
    exact ht.unique i j (by rwa [← hi']) (hi'.symm.trans (hij.trans hj'))
  · exact ht.bound i (by rwa [← (hsame i hi).1])

theorem OidTable.enter {t t' : Nat → ObjInfo} {i : Nat} (ht : OidTable t) (hi : i < objMax)
    (hsame : ∀ j, j ≠ i → SameObject (t j) (t' j)) (hnew : ∀ j, (t j).oid ≠ (t' i).oid) :
    OidTable t' := by
  refine ⟨fun j k hj hjk => ?_, fun j hj => ?_⟩
  · by_cases hji : j = i <;> by_cases hki : k = i
    · rw [hji, hki]
    · subst hji
      exact absurd ((hsame k hki (by rwa [← hjk])).1.symm.trans hjk.symm) (hnew k)
    · subst hki
      exact absurd ((hsame j hji hj).1.symm.trans hjk) (hnew j)
    · have hj' := (hsame j hji hj).1
      have hk' := (hsame k hki (by rwa [← hjk])).1
      exact ht.unique j k (by rwa [← hj']) (hj'.symm.trans (hjk.trans hk'))
  · by_cases hji : j = i
    · rwa [hji]
    · exact ht.bound j (by rwa [← (hsame j hji hj).1])

end KogmoRtdb
