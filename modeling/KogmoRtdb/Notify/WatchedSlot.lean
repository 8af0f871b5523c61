import KogmoRtdb.Notify.TableSteps

/-!
# A waiter's slot

A thread in `kogmo_rtdb_obj_readdata_waitnext` keeps the slot of its object, not the object. As
long as no insert enters another object there, what it knows of the slot (`SlotOf`) outlives
everything that others do to the table (`TableChange`): the slot is its object's, or the object
has been deleted and purged, and `deleted_ts` still says so.
-/

namespace KogmoRtdb

/-- A step that meets the condition, as a change of the table and of the oids that have been
deleted; `entered` is the slot in which metadata are entered. -/
inductive TableChange (dead : List ObjId) (m : Nat → ObjInfo) :
    List ObjId → (Nat → ObjInfo) → Option Nat → Prop where
  | keep {m' : Nat → ObjInfo} (h : ∀ j, (m j).Alike (m' j)) : TableChange dead m dead m' none
  | mark {k : Nat} {proc : ObjId} {now : Timestamp} (hk : k < objMax) (hnow : now ≠ 0)
      (hocc : (m k).oid ≠ 0) :
      TableChange dead m ((m k).oid :: dead)
        (Function.update m k { m k with deletedProc := proc, deletedTs := now }) none
  | clear {k : Nat} (hk : k < objMax) (hocc : (m k).oid ≠ 0) (hdel : (m k).deletedTs ≠ 0) :
      TableChange dead m dead (Function.update m k { m k with oid := 0 }) none
  | enter {k : Nat} {info : ObjInfo} (hoid : info.oid = 0) :
      TableChange dead m dead (Function.update m k info) (some k)
  | setOid {k : Nat} {oid parentOid : ObjId} (hfree : (m k).oid = 0) (hdel : (m k).deletedTs = 0)
      (hnew : oid ∉ dead) (hunused : ∀ j < objMax, (m j).oid ≠ oid) :
      TableChange dead m dead
        (Function.update m k { m k with parentOid := parentOid, oid := oid }) none

/-- An object has been deleted exactly if its slot says so. -/
structure TableOk (dead : List ObjId) (m : Nat → ObjInfo) : Prop where
  zero : (0 : ObjId) ∉ dead
  deleted : ∀ i < objMax, (m i).oid ≠ 0 → ((m i).oid ∈ dead ↔ (m i).deletedTs ≠ 0)
  unique : ∀ i < objMax, ∀ j < objMax, (m i).oid ≠ 0 → (m i).oid = (m j).oid → i = j

/-- What a waiter knows of its slot: it is its object's, or the object has been deleted and
purged. -/
structure SlotOf (dead : List ObjId) (m : Nat → ObjInfo) (oid : ObjId) (i : Nat) : Prop where
  lt : i < objMax
  only : ∀ j < objMax, (m j).oid = oid → j = i
  here : (m i).oid = oid ∨ (m i).oid = 0 ∧ oid ∈ dead ∧ (m i).deletedTs ≠ 0

section Table

variable {dead dead' : List ObjId} {m m' : Nat → ObjInfo} {entered : Option Nat} {oid : ObjId}
  {i : Nat}

theorem TableChange.dead_mono (h : TableChange dead m dead' m' entered) (hdead : oid ∈ dead) :
    oid ∈ dead' := by
  cases h with
  | mark => exact List.mem_cons_of_mem _ hdead
  | _ => exact hdead

theorem oid_mark (m : Nat → ObjInfo) (k : Nat) (proc : ObjId) (now : Timestamp) (j : Nat) :
    (Function.update m k { m k with deletedProc := proc, deletedTs := now } j).oid = (m j).oid :=
  field_update ObjInfo.oid (by rfl) j

theorem TableOk.vacate {k : Nat} {info : ObjInfo} (ht : TableOk dead m) (hoid : info.oid = 0) :
    TableOk dead (Function.update m k info) := by
  have hne : ∀ i, (Function.update m k info i).oid ≠ 0 → i ≠ k := by
    rintro i hi rfl
    rw [Function.update_self] at hi
    exact hi hoid
  refine ⟨ht.zero, fun i hi hocc => ?_, fun i hi j hj hocc heq => ?_⟩
  · have hik := hne i hocc
    rw [Function.update_of_ne hik] at hocc ⊢
    exact ht.deleted i hi hocc
  · have hik := hne i hocc
    have hjk := hne j (by rwa [← heq])
    rw [Function.update_of_ne hik] at hocc heq
    rw [Function.update_of_ne hjk] at heq
    exact ht.unique i hi j hj hocc heq

theorem TableChange.tableOk (h : TableChange dead m dead' m' entered) (ht : TableOk dead m) :
    TableOk dead' m' := by
  cases h with
  | keep h =>
      refine ⟨ht.zero, fun i hi hocc => ?_, fun i hi j hj => ?_⟩
      · rw [(h i).oid] at hocc ⊢
        rw [(h i).deletedTs]
        exact ht.deleted i hi hocc
      · rw [(h i).oid, (h j).oid]
        exact ht.unique i hi j hj
  | @mark k proc now hk hnow hocc =>
      have hoid := oid_mark m k proc now
      refine ⟨?_, fun i hi hocc => ?_, fun i hi j hj => ?_⟩
      · rw [List.mem_cons]
        exact fun h => h.elim (fun h0 => hocc h0.symm) ht.zero
      · rw [hoid] at hocc ⊢
        by_cases hik : i = k
        · rw [hik, Function.update_self]
          exact ⟨fun _ => hnow, fun _ => List.mem_cons_self⟩
        · rw [Function.update_of_ne hik, List.mem_cons, ht.deleted i hi hocc]
          exact or_iff_right fun heq => hik (ht.unique i hi k hk hocc heq)
      · rw [hoid, hoid]
        exact ht.unique i hi j hj
  | clear => exact ht.vacate rfl
  | enter hoid => exact ht.vacate hoid
  | @setOid k oid parentOid hfree hdel hnew hunused =>
      refine ⟨ht.zero, fun i hi hocc => ?_, fun i hi j hj hocc heq => ?_⟩
      · by_cases hik : i = k
        · rw [hik, Function.update_self]
          exact ⟨fun h => absurd h hnew, fun h => absurd hdel h⟩
        · rw [Function.update_of_ne hik] at hocc ⊢
          exact ht.deleted i hi hocc
      · by_cases hik : i = k
        · by_cases hjk : j = k
          · rw [hik, hjk]
          · rw [hik, Function.update_self, Function.update_of_ne hjk] at heq
            exact absurd heq.symm (hunused j hj)
        · rw [Function.update_of_ne hik] at hocc heq
          by_cases hjk : j = k
          · rw [hjk, Function.update_self] at heq
            exact absurd heq (hunused i hi)
          · rw [Function.update_of_ne hjk] at heq
            exact ht.unique i hi j hj hocc heq

namespace SlotOf

theorem deletedTs (h : SlotOf dead m oid i) (ht : TableOk dead m) (h0 : oid ≠ 0)
    (hdead : oid ∈ dead) : (m i).deletedTs ≠ 0 := by
  rcases h.here with hoid | ⟨-, -, hdel⟩
  · exact (ht.deleted i h.lt (by rwa [hoid])).mp (by rwa [hoid])
  · exact hdel

theorem of_find (ht : TableOk dead m) (h0 : oid ≠ 0) (hi : i < objMax) (hoid : (m i).oid = oid) :
    SlotOf dead m oid i where
  lt := hi
  only j hj heq := (ht.unique i hi j hj (by rwa [hoid]) (hoid.trans heq.symm)).symm
  here := Or.inl hoid

/-- The slot in which an insert sets an oid is no waiter's. -/
theorem ne_setOid {k : Nat} (h : SlotOf dead m oid i) (h0 : oid ≠ 0) (hfree : (m k).oid = 0)
    (hdel : (m k).deletedTs = 0) : i ≠ k := by
  rintro rfl
  rcases h.here with hoid | ⟨-, -, hne⟩
  · exact h0 (hoid.symm.trans hfree)
  · exact hne hdel

theorem change (hc : TableChange dead m dead' m' entered) (ht : TableOk dead m) (h0 : oid ≠ 0)
    (hentered : entered ≠ some i) (h : SlotOf dead m oid i) : SlotOf dead' m' oid i := by
  cases hc with
  | keep hc =>
      refine ⟨h.lt, fun j hj => ?_, ?_⟩
      · rw [(hc j).oid]
        exact h.only j hj
      · rw [(hc i).oid, (hc i).deletedTs]
        exact h.here
  | @mark k proc now hk hnow hocc =>
      have hoid := oid_mark m k proc now
      refine ⟨h.lt, fun j hj => ?_, ?_⟩
      · rw [hoid]
        exact h.only j hj
      · rw [hoid]
        rcases h.here with hoid | ⟨hfree, hdead, hdel⟩
        · exact Or.inl hoid
        · refine Or.inr ⟨hfree, List.mem_cons_of_mem _ hdead, ?_⟩
          rw [Function.update_of_ne]
          · exact hdel
          · rintro rfl
            exact hocc hfree
  | @clear k hk hocc hdel =>
      refine ⟨h.lt, fun j hj hjoid => ?_, ?_⟩
      · by_cases hjk : j = k
        · rw [hjk, Function.update_self] at hjoid
          exact absurd hjoid.symm h0
        · rw [Function.update_of_ne hjk] at hjoid
          exact h.only j hj hjoid
      · by_cases hik : i = k
        · rw [hik, Function.update_self]
          refine Or.inr ⟨rfl, ?_, hdel⟩
          rcases h.here with hoid | ⟨-, hdead, -⟩
          · rw [← hoid, hik]
            exact (ht.deleted k hk hocc).mpr hdel
          · exact hdead
        · rw [Function.update_of_ne hik]
          exact h.here
  | @enter k info hoid =>
      have hik : i ≠ k := fun heq => hentered (by rw [heq])
      refine ⟨h.lt, fun j hj hjoid => ?_, ?_⟩
      · by_cases hjk : j = k
        · rw [hjk, Function.update_self] at hjoid
          exact absurd (hjoid.symm.trans hoid) h0
        · rw [Function.update_of_ne hjk] at hjoid
          exact h.only j hj hjoid
      · rw [Function.update_of_ne hik]
        exact h.here
  | @setOid k oid' parentOid hfree hdel hnew hunused =>
      have hik := h.ne_setOid h0 hfree hdel
      refine ⟨h.lt, fun j hj hjoid => ?_, ?_⟩
      · by_cases hjk : j = k
        · rw [hjk, Function.update_self] at hjoid
          have heq : oid' = oid := hjoid
          rw [heq] at hnew hunused
          rcases h.here with hoid | ⟨-, hdead, -⟩
          · exact absurd hoid (hunused i h.lt)
          · exact absurd hdead hnew
        · rw [Function.update_of_ne hjk] at hjoid
          exact h.only j hj hjoid
      · rw [Function.update_of_ne hik]
        exact h.here

theorem entry (hc : TableChange dead m dead' m' entered) (h0 : oid ≠ 0)
    (hentered : entered ≠ some i) (h : SlotOf dead m oid i) :
    ((m' i).oid = oid → (m i).oid = oid) ∧ (m' i).bufferIdx = (m i).bufferIdx ∧
      ∀ h, (m' i).readDenied h = (m i).readDenied h := by
  cases hc with
  | keep hc =>
      have hi := hc i
      unfold ObjInfo.Alike at hi
      rw [hi]
      exact ⟨id, rfl, fun _ => rfl⟩
  | mark =>
      refine ⟨fun hoid => ?_, field_update ObjInfo.bufferIdx (by rfl) i,
        fun h => field_update (·.readDenied h) (by rfl) i⟩
      rwa [oid_mark] at hoid
  | @clear k hk hocc hdel =>
      refine ⟨fun hoid => ?_, field_update ObjInfo.bufferIdx (by rfl) i,
        fun h => field_update (·.readDenied h) (by rfl) i⟩
      by_cases hik : i = k
      · rw [hik, Function.update_self] at hoid
        exact absurd hoid.symm h0
      · rwa [Function.update_of_ne hik] at hoid
  | enter =>
      rw [Function.update_of_ne fun heq => hentered (by rw [heq])]
      exact ⟨id, rfl, fun _ => rfl⟩
  | setOid hfree hdel hnew hunused =>
      rw [Function.update_of_ne (h.ne_setOid h0 hfree hdel)]
      exact ⟨id, rfl, fun _ => rfl⟩

end SlotOf

end Table

end KogmoRtdb
