import Mathlib.Logic.Function.Basic
import KogmoRtdb.Lib.Rounding
import KogmoRtdb.Types

/-!
# The database

The shared part of the database (`struct kogmo_rtdb_obj_local_t`): the table of
object metadata and the heap with the objects' data blocks. A slot of the
table is a natural number below `objMax`; the pointer that
`kogmo_rtdb_obj_findmeta_byid` returns is the number of the slot.

Intervals and cycle times (`float` in the source) are rationals, and what is
computed with them is rounded after each operation, to `float` or to `double` as
the source's types have it. How is left open (`Rounding`); only runs on fixed
inputs fix it. `int32_t` quantities are integers, and `wrap32` stands where the
source's arithmetic can leave the 32-bit range.
-/

namespace KogmoRtdb

/-- `kogmo_rtdb_objid_t`. -/
abbrev ObjId := Int

/-- The contents of a `kogmo_rtdb_objname_t` up to the terminating zero. -/
abbrev ObjName := List Char

/-- `KOGMO_RTDB_OBJ_MAX`. -/
@[irreducible] def objMax : Nat := 1000

/-- Arithmetic in `int32_t`. -/
def wrap32 (x : Int) : Int := x.bmod (2 ^ 32)

theorem wrap32_of_bounds {x : Int} (h1 : -2 ^ 31 ≤ x) (h2 : x < 2 ^ 31) : wrap32 x = x := by
  rw [wrap32, Int.bmod_eq_of_le] <;> omega

/-- The bit field `flags` of `kogmo_rtdb_obj_info_t`. -/
structure ObjFlags where
  readDeny : Bool := false
  writeAllow : Bool := false
  keepAlloc : Bool := false
  unique : Bool := false
  cycleWatch : Bool := false
  persistent : Bool := false
  parentDelete : Bool := false
  noNotifies : Bool := false
  immediatelyDelete : Bool := false
  withholdStale : Bool := false
  deriving DecidableEq, Repr

/-- `kogmo_rtdb_obj_info_t`, less the two `lastmodified` fields that nothing
reads. -/
structure ObjInfo where
  oid : ObjId := 0
  name : ObjName := []
  createdTs : Timestamp := 0
  createdProc : ObjId := 0
  deletedTs : Timestamp := 0
  deletedProc : ObjId := 0
  parentOid : ObjId := 0
  otype : Int := 0
  sizeMax : Int := 0
  historyInterval : ℚ := 0
  minCycletime : ℚ := 0
  maxCycletime : ℚ := 0
  flags : ObjFlags := {}
  historySize : Int := 0
  historySlot : Int := 0
  bufferIdx : Int := 0
  deriving DecidableEq

/-- `struct kogmo_rtdb_obj_local_t`: what the modelled functions read or write of
it. -/
structure Db where
  objmeta : Nat → ObjInfo
  objmetaFree : Int
  objmetaOidNext : Nat
  heap : Heap
  heapSize : Int
  heapFree : Int
  heapUsed : Int
  defaultKeepDeletedInterval : ℚ
  noNotifies : Bool
  simmode : Bool

/-- A process's handle: its process oid and whether it is connected as manager or
admin (`this_process_is_admin`). -/
structure Handle where
  procOid : ObjId
  admin : Bool
  deriving DecidableEq, Repr

namespace Db

/-- `kogmo_rtdb_obj_findmeta_byid`: linear search. -/
def findmetaById (db : Db) (oid : ObjId) : Option Nat :=
  (List.range objMax).find? fun i => decide ((db.objmeta i).oid = oid)

theorem findmetaById_some {db : Db} {oid : ObjId} {i : Nat}
    (h : db.findmetaById oid = some i) : i < objMax ∧ (db.objmeta i).oid = oid := by
  have hmem := List.mem_of_find?_eq_some h
  have hp := List.find?_some h
  exact ⟨List.mem_range.mp hmem, of_decide_eq_true hp⟩

/-- A search that finds nothing has looked at all occupied slots. -/
theorem findmetaById_none {db : Db} {oid : ObjId}
    (hbound : ∀ i, (db.objmeta i).oid ≠ 0 → i < objMax) (hoid : oid ≠ 0)
    (h : db.findmetaById oid = none) (j : Nat) : (db.objmeta j).oid ≠ oid := by
  intro heq
  have hj := hbound j (by rwa [heq])
  exact List.find?_eq_none.mp h j (List.mem_range.mpr hj) (decide_eq_true heq)

theorem findmetaById_congr {db db' : Db} {oid : ObjId}
    (h : ∀ i, (db'.objmeta i).oid = (db.objmeta i).oid) :
    db'.findmetaById oid = db.findmetaById oid := by
  simp only [findmetaById, h]

/-- Replace the metadata in slot `i`. -/
def setMeta (db : Db) (i : Nat) (info : ObjInfo) : Db :=
  { db with objmeta := Function.update db.objmeta i info }

@[simp] theorem setMeta_objmeta_self (db : Db) (i : Nat) (info : ObjInfo) :
    (db.setMeta i info).objmeta i = info := Function.update_self ..

theorem setMeta_objmeta_ne {db : Db} {i j : Nat} {info : ObjInfo} (h : j ≠ i) :
    (db.setMeta i info).objmeta j = db.objmeta j := Function.update_of_ne h ..

end Db

/-! ## Time arithmetic -/

/-- `KOGMO_TIMESTAMP_TICKSPERSECOND`. -/
def ticksPerSecond : Int := 1000000000

/-- A conversion from floating point to integer, towards zero. -/
def truncate (x : ℚ) : Int := if 0 ≤ x then x.floor else x.ceil

instance : Rounding := .ieee

open Rounding

/-- `kogmo_timestamp_diff_secs`. -/
def diffSecs [Rounding] (tsBegin tsEnd : Timestamp) : ℚ :=
  double (double (tsEnd - tsBegin).toInt / ticksPerSecond)

/-- `kogmo_timestamp_add_secs`. -/
def addSecs [Rounding] (ts : Timestamp) (secs : ℚ) : Timestamp :=
  BitVec.ofInt 64 (truncate (double (double ts.toInt + double (secs * ticksPerSecond))))

namespace ObjInfo

/-- `MIN_CYCLETIME` of an object. -/
def minCycle (info : ObjInfo) : ℚ :=
  if info.minCycletime < info.maxCycletime then info.minCycletime else info.maxCycletime

/-- `MAX_CYCLETIME` of an object. -/
def maxCycle (info : ObjInfo) : ℚ :=
  if info.minCycletime < info.maxCycletime then info.maxCycletime else info.minCycletime

/-- `poll_time`: `KOGMO_RTDB_NONOTIFIES_POLLTIME_FACTOR` of the cycle time, at most
`KOGMO_RTDB_NONOTIFIES_POLLTIME_MAX`, both the `double` nearest to a tenth. -/
def pollTime [Rounding] (info : ObjInfo) : ℚ :=
  let time := float (double (double (1 / 10) * info.minCycle))
  float (if time < double (1 / 10) then time else double (1 / 10))

/-- `buffer_idx + slot * size_max`, the heap index of a history slot. -/
def slotAddr (info : ObjInfo) (slot : Int) : Int :=
  wrap32 (info.bufferIdx + wrap32 (slot * info.sizeMax))

end ObjInfo

end KogmoRtdb
