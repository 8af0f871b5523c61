import KogmoRtdb.Lib.Bytes

/-!
# Basic types

Timestamps and error codes.

Every object starts with the packed header `kogmo_rtdb_subobj_base_t`, whose
fields the models address by byte offset: `committed_ts` at 0 (the platform
is little-endian, so its low word at 0 and its high word at 4),
`committed_proc` at 8, `data_ts` at 12 (words at 12 and 16), `size` at 20;
`sizeof` is 24.
-/

namespace KogmoRtdb

/-- `kogmo_timestamp_t`: nanoseconds as an `int64_t`. Comparisons in the
source are signed, hence always of `toInt`. -/
abbrev Timestamp := BitVec 64

/-- `invalid_ts`: an empty slot, or one in preparation. -/
abbrev invalidTs : Timestamp := 0

/-- `KOGMO_RTDB_ERR_*`. -/
inductive Err where
  | noPerm | notFound | noMemory | invalid | outOfObj | notUniq | unknown
  | histWrap | tooFast | timeout
  deriving DecidableEq, Repr

/-- The errno value behind an error; functions return its negation. -/
def Err.code : Err → Int
  | .noPerm => 13
  | .notFound => 2
  | .noMemory => 12
  | .invalid => 22
  | .outOfObj => 24
  | .notUniq => 17
  | .unknown => 1
  | .histWrap => 116
  | .tooFast => 11
  | .timeout => 110

theorem Err.neg_code_neg (e : Err) : -e.code < 0 := by
  cases e <;> decide

theorem Err.not_pos (e : Err) : ¬ 0 < -e.code := Int.not_lt.mpr (Int.le_of_lt e.neg_code_neg)

/-- What a function with return type `kogmo_rtdb_objsize_t` or `int` answers:
a value, or the negation of an error code. -/
abbrev Result := Except Err Int

end KogmoRtdb
