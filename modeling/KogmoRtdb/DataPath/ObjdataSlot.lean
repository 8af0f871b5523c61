import KogmoRtdb.DataPath.Objdata

/-!
# Access by history slot

The functions of `kogmo_rtdb_objdata_slot.c`. The caller keeps a cursor, `ObjSlot`, which
names a place in an object's ring and the stamp of the record that was there.
-/

namespace KogmoRtdb

/-- `kogmo_rtdb_obj_slot_t`. -/
structure ObjSlot where
  oid : ObjId
  committedTs : Timestamp
  objectSlot : Int
  historySlot : Int
  deriving DecidableEq, Repr

/-- The `mode` argument: 0 is `init`, -1 `unchecked`, 1 `checked`. -/
inductive SlotMode where
  | init | unchecked | checked
  deriving DecidableEq, Repr

/-- The next slot position: `offset` places on from `slot`. -/
def slotPos (historySize slot offset : Int) : Int :=
  (slot + offset.tmod historySize + historySize).tmod historySize

/-- The tests of mode 1 on the record at the old place and the one at the new: the
record that was there has gone, or the new one is on the wrong side of it. -/
def checkSlots (finalTs scanTs committedTs : Timestamp) (offset : Int) : Option Err :=
  if finalTs ≠ committedTs then some .histWrap
  else if offset < 0 ∧ committedTs.toInt < scanTs.toInt then some .histWrap
  else if 0 < offset ∧ scanTs.toInt < committedTs.toInt then some .tooFast
  else none

/-- `kogmo_rtdb_obj_readdataslot_ptr` once the object is known: the record's address and
size, and the cursor, which has moved on also when the call fails. -/
def readSlot (heap : Heap) (info : ObjInfo) (mode : SlotMode) (offset : Int) (objslot : ObjSlot) :
    Except Err (Int × Int) × ObjSlot :=
  let last := slotWindow heap info objslot.historySlot
  let objslot := { objslot with
    historySlot := slotPos info.historySize objslot.historySlot offset }
  let scanObjbase := slotWindow heap info objslot.historySlot
  let scanTs := scanObjbase.read64 0
  if scanTs = invalidTs then (.error .notFound, objslot)
  else
    let ok := (.ok (info.slotAddr objslot.historySlot, (scanObjbase.read32 20).toInt),
      { objslot with committedTs := scanTs })
    if mode = .checked then
      match checkSlots (last.read64 0) scanTs objslot.committedTs offset with
      | some e => (.error e, objslot)
      | none => ok
    else ok

/-- `kogmo_rtdb_obj_readdataslot_ptr`: the address and size of a record, and the cursor. -/
def readdataslotPtr (db : Db) (mode : SlotMode) (offset : Int) (objslot : ObjSlot) :
    Except Err (Int × Int) × ObjSlot :=
  match mode with
  | .init =>
      match db.findmetaById objslot.oid with
      | none => (.error .notFound, objslot)
      | some i =>
          let info := db.objmeta i
          let objslot := { objslot with objectSlot := i, historySlot := info.historySlot }
          if info.historySlot < 0 then (.error .notFound, objslot)
          else readSlot db.heap info .init 0 { objslot with committedTs := invalidTs }
  | mode =>
      if objslot.objectSlot < 0 ∨ objMax ≤ objslot.objectSlot then (.error .invalid, objslot)
      else
        let info := db.objmeta objslot.objectSlot.toNat
        if objslot.oid ≠ info.oid then (.error .notFound, objslot)
        else readSlot db.heap info mode offset objslot

/-- `kogmo_rtdb_obj_readdataslot_init`. -/
def readdataslotInit (db : Db) (objslot : ObjSlot) (oid : ObjId) : Result × ObjSlot :=
  let (olen, objslot) := readdataslotPtr db .init 0 { objslot with oid := oid }
  (olen.map (·.2), objslot)

/-- `kogmo_rtdb_obj_readdataslot_relative`: the cursor and the caller's buffer. A call that fails
after the copy has filled the buffer all the same. A record whose size is negative counts as a
failure. -/
def readdataslotRelative (db : Db) (objslot : ObjSlot) (offset : Int) (data : Mem) (size : Int) :
    Result × ObjSlot × Mem :=
  match readdataslotPtr db .checked offset objslot with
  | (.error olen, objslot) => (.error olen, (readdataslotPtr db .init 0 objslot).2, data)
  | (.ok (objdata, realsize), objslot) =>
      if realsize < 0 then (.ok realsize, (readdataslotPtr db .init 0 objslot).2, data)
      else
        let data := data.copy 0 (db.heap.window objdata) 0
          (if realsize < size then realsize else size).toNat
        match readdataslotPtr db .checked 0 objslot with
        | (.error olen, objslot) => (.error olen, (readdataslotPtr db .init 0 objslot).2, data)
        | (.ok (_, olen), objslot) =>
            if olen < 0 then (.ok olen, (readdataslotPtr db .init 0 objslot).2, data)
            else (.ok realsize, objslot, data)

/-- `kogmo_rtdb_obj_readdataslot_relative_ptr`. -/
def readdataslotRelativePtr (db : Db) (objslot : ObjSlot) (offset : Int) :
    Except Err (Int × Int) × ObjSlot :=
  match readdataslotPtr db .checked offset objslot with
  | (.error olen, objslot) => (.error olen, (readdataslotPtr db .init 0 objslot).2)
  | (.ok (objdata, olen), objslot) =>
      if olen < 0 then (.ok (objdata, olen), (readdataslotPtr db .init 0 objslot).2)
      else (.ok (objdata, olen), objslot)

/-! ## What a cursor is told -/

variable {heap : Heap} {info : ObjInfo} {mode : SlotMode} {offset : Int}
  {objslot objslot' : ObjSlot} {db : Db} {i : Nat} {pos : Int}

theorem readSlot_ok {r : Int × Int}
    (hpos : slotPos info.historySize objslot.historySlot offset = pos)
    (hread : readSlot heap info mode offset objslot = (.ok r, objslot')) :
    slotTs heap info pos ≠ invalidTs ∧ r = (info.slotAddr pos, slotSize heap info pos) ∧
      objslot' = { objslot with historySlot := pos, committedTs := slotTs heap info pos } ∧
      (mode = .checked →
        checkSlots (slotTs heap info objslot.historySlot) (slotTs heap info pos)
          objslot.committedTs offset = none) := by
  subst hpos
  unfold readSlot at hread
  dsimp only at hread
  split at hread
  · cases hread
  · rename_i hts
    refine ⟨hts, ?_⟩
    split at hread
    · split at hread
      · cases hread
      · rename_i hcheck
        cases hread
        exact ⟨rfl, rfl, fun _ => hcheck⟩
    · rename_i hmode
      cases hread
      exact ⟨rfl, rfl, fun h => absurd h hmode⟩

/-- A call that fails has moved the cursor, but not its stamp. -/
theorem readSlot_error {olen : Err}
    (hpos : slotPos info.historySize objslot.historySlot offset = pos)
    (hread : readSlot heap info mode offset objslot = (.error olen, objslot')) :
    objslot' = { objslot with historySlot := pos } ∧
      (olen = .notFound ∧ slotTs heap info pos = invalidTs ∨
        mode = .checked ∧ checkSlots (slotTs heap info objslot.historySlot)
          (slotTs heap info pos) objslot.committedTs offset = some olen) := by
  subst hpos
  unfold readSlot at hread
  dsimp only at hread
  split at hread
  · rename_i hts
    cases hread
    exact ⟨rfl, Or.inl ⟨rfl, hts⟩⟩
  · split at hread
    · rename_i hmode
      split at hread
      · rename_i hcheck
        cases hread
        exact ⟨rfl, Or.inr ⟨hmode, hcheck⟩⟩
      · cases hread
    · cases hread

theorem checkSlots_eq_none_iff {finalTs scanTs committedTs : Timestamp} {offset : Int} :
    checkSlots finalTs scanTs committedTs offset = none ↔
      finalTs = committedTs ∧ (offset < 0 → scanTs.toInt ≤ committedTs.toInt) ∧
        (0 < offset → committedTs.toInt ≤ scanTs.toInt) := by
  unfold checkSlots
  by_cases hfinal : finalTs = committedTs
  · rw [if_neg (not_not.mpr hfinal)]
    by_cases hneg : offset < 0 ∧ committedTs.toInt < scanTs.toInt
    · rw [if_pos hneg]
      refine ⟨(fun h => by cases h), fun h => ?_⟩
      have := h.2.1 hneg.1
      omega
    · rw [if_neg hneg]
      by_cases hpos : 0 < offset ∧ scanTs.toInt < committedTs.toInt
      · rw [if_pos hpos]
        refine ⟨(fun h => by cases h), fun h => ?_⟩
        have := h.2.2 hpos.1
        omega
      · rw [if_neg hpos]
        refine ⟨fun _ => ⟨hfinal, fun h => ?_, fun h => ?_⟩, fun _ => rfl⟩
        · omega
        · omega
  · rw [if_pos hfinal]
    exact ⟨(fun h => by cases h), fun h => absurd h.1 hfinal⟩

theorem checkSlots_none {finalTs scanTs committedTs : Timestamp} {offset : Int}
    (hcheck : checkSlots finalTs scanTs committedTs offset = none) :
    finalTs = committedTs ∧ (0 < offset → committedTs.toInt ≤ scanTs.toInt) := by
  obtain ⟨hfinal, -, hpos⟩ := checkSlots_eq_none_iff.mp hcheck
  exact ⟨hfinal, hpos⟩

/-- A call at a place with a record that passes the tests. -/
theorem readSlot_eq_ok (hpos : slotPos info.historySize objslot.historySlot offset = pos)
    (hts : slotTs heap info pos ≠ invalidTs)
    (hcheck : mode = .checked → checkSlots (slotTs heap info objslot.historySlot)
      (slotTs heap info pos) objslot.committedTs offset = none) :
    readSlot heap info mode offset objslot =
      (.ok (info.slotAddr pos, slotSize heap info pos),
        { objslot with historySlot := pos, committedTs := slotTs heap info pos }) := by
  cases hread : readSlot heap info mode offset objslot with
  | mk res o =>
      cases res with
      | ok r =>
          obtain ⟨-, hr, ho, -⟩ := readSlot_ok hpos hread
          rw [hr, ho]
      | error olen =>
          rcases (readSlot_error hpos hread).2 with ⟨-, h0⟩ | ⟨hmode, herr⟩
          · exact absurd h0 hts
          · rw [hcheck hmode] at herr
            cases herr

theorem readdataslotPtr_eq (hi : i < objMax) (hslot : objslot.objectSlot = i)
    (hoid : objslot.oid = (db.objmeta i).oid) (hmode : mode ≠ .init) :
    readdataslotPtr db mode offset objslot =
      readSlot db.heap (db.objmeta i) mode offset objslot := by
  have hbounds : ¬ (objslot.objectSlot < 0 ∨ objMax ≤ objslot.objectSlot) := by omega
  have hinfo : db.objmeta objslot.objectSlot.toNat = db.objmeta i := by
    rw [hslot, Int.toNat_natCast]
  rw [readdataslotPtr, if_neg hbounds, hinfo, if_neg (not_not.mpr hoid)]
  exact hmode

theorem readdataslotPtr_gone (hi : i < objMax) (hslot : objslot.objectSlot = i)
    (hoid : objslot.oid ≠ (db.objmeta i).oid) (hmode : mode ≠ .init) :
    readdataslotPtr db mode offset objslot = (.error .notFound, objslot) := by
  have hbounds : ¬ (objslot.objectSlot < 0 ∨ objMax ≤ objslot.objectSlot) := by omega
  have hinfo : db.objmeta objslot.objectSlot.toNat = db.objmeta i := by
    rw [hslot, Int.toNat_natCast]
  rw [readdataslotPtr, if_neg hbounds, hinfo, if_pos hoid]
  exact hmode

end KogmoRtdb
