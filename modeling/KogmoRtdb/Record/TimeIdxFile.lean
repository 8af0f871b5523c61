import Mathlib.Data.List.Induction
import KogmoRtdb.Lib.Lts
import KogmoRtdb.Db
import KogmoRtdb.Record.TimeIdx

/-!
# The time index across sessions

The player keeps its time index in a file: at its end it writes the index, if this has changed,
and its next session begins with what the file has. Within a session the block of the index grows
by a fixed number of entries whenever a new one comes near its end.

`IdxSession` is what the sessions of one file go through, with all calls of `timeidx_add` noted
beside. The index of any session has the calls that `noteCall` keeps, as long as no session ends
with the first entry alone: `timeidx_add` does not mark the index as changed by that one.

Times, offsets and the interval are exact integers. `last_entry`, `max_entries` and the sizes have
the widths of the source.
-/

namespace KogmoRtdb

/-! ## The index in memory and in its file -/

/-- `TIMEIDXENTRIES_DEFAULT`. -/
def timeidxEntriesDefault : Nat := 6000

/-- `timeidx_info_size`. -/
def timeidxInfoSize : Int := 76

/-- `timeidx_entry_size`. -/
def timeidxEntrySize : Int := 16

/-- `IDXTYPE_GLOBALTIME`. -/
def idxtypeGlobaltime : Nat := 1

def uint32 (x : Int) : Nat := (x % 2 ^ 32).toNat

/-- `int size` of an index with `n` entries. -/
def timeidxSize (n : Nat) : Int := wrap32 (timeidxInfoSize + timeidxEntrySize * n)

/-- How many entries have room in a block or a file of `size` bytes. -/
def entriesIn (size : Int) : Nat := ((size - timeidxInfoSize) / timeidxEntrySize).toNat

/-- `timeidx_info_t` up to its entries. -/
structure TimeidxHeader where
  idxtype : Nat
  withTimestamps : Bool
  changed : Bool
  interval : Int
  firstTs : Int
  lastTs : Int
  lastEntry : Nat
  maxEntries : Nat
  deriving DecidableEq

/-- `timeidx_p`, with `block` entries of memory. -/
structure TimeidxInfo extends TimeidxHeader where
  entry : Nat → TimeidxEntry
  block : Nat

structure TimeidxFile where
  header : TimeidxHeader
  entries : List TimeidxEntry
  deriving DecidableEq

/-- `st_size`. -/
def TimeidxFile.size (f : TimeidxFile) : Int :=
  timeidxInfoSize + timeidxEntrySize * f.entries.length

/-- How a call can end the process, or write where it must not. -/
inductive TimeidxExit where
  | die
  | outOfBounds
  deriving DecidableEq

namespace TimeidxInfo

/-- `timeidx_init` without an index file. -/
def initial (interval : Int) : TimeidxInfo where
  idxtype := idxtypeGlobaltime
  withTimestamps := true
  changed := false
  interval := interval
  firstTs := 0
  lastTs := 0
  lastEntry := uint32 (-1)
  maxEntries := timeidxEntriesDefault
  entry := fun _ => ⟨0, 0⟩
  block := entriesIn (timeidxSize timeidxEntriesDefault)

/-- `timeidx_init`. The files are there to be read, and memory for them. -/
def init (interval : Int) : Option TimeidxFile → Except TimeidxExit TimeidxInfo
  | none => .ok (initial interval)
  | some f =>
      if f.header.idxtype ≠ idxtypeGlobaltime then .error .die
      else if f.header.withTimestamps = false then .error .die
      else
        let maxEntries := uint32 ((wrap32 f.size - timeidxInfoSize) / timeidxEntrySize)
        let lastEntry :=
          if uint32 (maxEntries - 1) < f.header.lastEntry then uint32 (maxEntries - 1)
          else f.header.lastEntry
        .ok
          { f.header with
            maxEntries := maxEntries
            lastEntry := lastEntry
            changed := false
            entry := fun i => f.entries.getD i ⟨0, 0⟩
            block := entriesIn (wrap32 f.size) }

/-- `timeidx_write`, to a file that can be written. -/
def write (s : TimeidxInfo) (file : Option TimeidxFile) : TimeidxInfo × Option TimeidxFile :=
  if s.changed then
    let size := timeidxSize (uint32 (s.lastEntry + 1))
    let s := { s with maxEntries := uint32 (s.lastEntry + 1) }
    (s, some ⟨s.toTimeidxHeader, (List.range (entriesIn size)).map s.entry⟩)
  else (s, file)

/-- `entry[i] = …`. -/
def put (s : TimeidxInfo) (i : Nat) (m : TimeidxEntry) : Except TimeidxExit TimeidxInfo :=
  if i < s.maxEntries ∧ i < s.block then .ok { s with entry := Function.update s.entry i m }
  else .error .outOfBounds

/-- More room for entry `i`, where it needs some. -/
def extend (s : TimeidxInfo) (i : Nat) : Except TimeidxExit TimeidxInfo :=
  if uint32 (s.maxEntries - 1) ≤ i then
    let maxEntries := uint32 (s.maxEntries + timeidxEntriesDefault)
    -- a negative `int` is more than `realloc` ever has
    if timeidxSize maxEntries < 0 then .error .die
    else .ok { s with maxEntries := maxEntries, block := entriesIn (timeidxSize maxEntries) }
  else .ok s

/-- The loop of `timeidx_add`, with `n` entries to go from `i` on. -/
def fill (m : TimeidxEntry) : Nat → Nat → TimeidxInfo → Except TimeidxExit TimeidxInfo
  | 0, _, s => .ok s
  | n + 1, i, s => do
      let s ← s.extend i
      let s ← s.put i m
      fill m n (i + 1) s

/-- `idx` of a time. What does not fit an `int` is the smallest of them. -/
def idx (s : TimeidxInfo) (ts : Int) : Int :=
  let q := (ts - s.firstTs).tdiv s.interval
  if -2 ^ 31 ≤ q ∧ q < 2 ^ 31 then q else -2 ^ 31

/-- `timeidx_add`, with its return code. -/
def add (s : TimeidxInfo) (ts off : Int) : Except TimeidxExit (Int × TimeidxInfo) :=
  if ts ≤ 0 ∨ off ≤ 0 then .ok (-1, s)
  else if ts - s.lastTs < s.interval ∧ s.firstTs ≠ 0 then .ok (0, s)
  else if s.firstTs = 0 then do
    -- `flags.changed` stays as it is
    let s ← put { s with firstTs := ts, lastTs := ts, lastEntry := 0 } 0 ⟨ts, off⟩
    return (0, s)
  else if s.idx ts < 0 then .ok (-1, s)
  else do
    let first := uint32 (s.lastEntry + 1)
    let s' ← fill ⟨ts, off⟩ ((s.idx ts).toNat + 1 - first) first s
    return (0, { s' with lastTs := ts, lastEntry := (s.idx ts).toNat, changed := true })

/-- `entry[idx].off`. In front of the first entry are `last_entry` and `max_entries`. -/
def offAt (s : TimeidxInfo) (idx : Int) : Int :=
  if 0 ≤ idx then (s.entry idx.toNat).off else s.lastEntry + s.maxEntries * 2 ^ 32

def lookup (s : TimeidxInfo) (ts : Int) : Int :=
  if s.lastTs < ts then -1
  else if s.idx ts < 0 then -1
  else s.offAt (if wrap32 s.lastEntry < s.idx ts then wrap32 s.lastEntry else s.idx ts)

end TimeidxInfo

/-! ## Sessions -/

/-- The index, its file, and the calls of `timeidx_add` in all sessions so far. -/
structure IdxSession where
  info : TimeidxInfo
  file : Option TimeidxFile
  calls : List (Int × Int)

inductive IdxStep where
  | add (ts off : Int)
  /-- `timeidx_write` at the end of a session, `timeidx_init` at the beginning of the next. -/
  | reopen
  deriving DecidableEq

/-- A step in which the process ends has no state behind it. -/
def idxStep (interval : Int) (s : IdxSession) : IdxStep → Option IdxSession
  | .add ts off =>
      if 0 < ts ∧ 0 < off then
        match s.info.add ts off with
        | .ok (_, info) => some { s with info := info, calls := s.calls ++ [(ts, off)] }
        | .error _ => none
      else none
  | .reopen =>
      let file := (s.info.write s.file).2
      match TimeidxInfo.init interval file with
      | .ok info => some { s with info := info, file := file }
      | .error _ => none

def idxLts (interval : Int) : Lts IdxSession IdxStep where
  init s := s = ⟨TimeidxInfo.initial interval, none, []⟩
  step := idxStep interval

def singleSession (interval : Int) (calls : List (Int × Int)) : Except TimeidxExit TimeidxInfo :=
  calls.foldlM (fun s c => (s.add c.1 c.2).map Prod.snd) (TimeidxInfo.initial interval)

/-- Entry `i` is one of those up to `last_entry`. -/
def TimeidxInfo.Has (s : TimeidxInfo) (i : Nat) : Prop := (i : Int) ≤ wrap32 s.lastEntry

/-- What the index is to be after any call, in any session. -/
structure ConsistentIdx (interval : Int) (s : IdxSession) : Prop where
  set : ∀ i, s.info.Has i → ((s.info.entry i).ts, (s.info.entry i).off) ∈ s.calls
  times : ∀ i j, i ≤ j → s.info.Has j → (s.info.entry i).ts ≤ (s.info.entry j).ts
  offs : s.calls.Pairwise (fun a b => a.2 ≤ b.2) →
    ∀ i j, i ≤ j → s.info.Has j → (s.info.entry i).off ≤ (s.info.entry j).off
  bucket : ∀ i, s.info.Has i → (i : Int) ≤ s.info.idx (s.info.entry i).ts
  below : ∀ i, s.info.Has i → i < s.info.maxEntries ∧ i < s.info.block
  inBounds : ∀ ts off, s.info.add ts off ≠ .error .outOfBounds
  lookup : ∀ single, singleSession interval s.calls = .ok single →
    ∀ ts, s.info.lookup ts = single.lookup ts

/-- No session ends with an index that has its first entry only. -/
def SavesIndex (s : IdxSession) (l : IdxStep) : Prop := l = .reopen → s.info.lastEntry ≠ 0

instance decidableSavesIndex (s : IdxSession) (l : IdxStep) : Decidable (SavesIndex s l) :=
  inferInstanceAs (Decidable (_ → _))

/-! ## The block has room for what is written -/

namespace TimeidxInfo

variable {s : TimeidxInfo} {m : TimeidxEntry} {i n : Nat}

theorem uint32_of_bounds {x : Int} (h0 : 0 ≤ x) (h : x < 2 ^ 32) : uint32 x = x.toNat := by
  rw [uint32, Int.emod_eq_of_lt h0 h]

structure Fits (s : TimeidxInfo) : Prop where
  pos : 0 < s.maxEntries
  size : timeidxInfoSize + timeidxEntrySize * s.maxEntries < 2 ^ 31
  block : s.block = s.maxEntries

theorem timeidxSize_of_lt (h : timeidxInfoSize + timeidxEntrySize * n < 2 ^ 31) :
    timeidxSize n = timeidxInfoSize + timeidxEntrySize * n := by
  unfold timeidxInfoSize timeidxEntrySize at h
  exact wrap32_of_bounds (by unfold timeidxInfoSize timeidxEntrySize; omega) h

/-- The first size beyond an `int` is a negative one. -/
theorem timeidxSize_neg (h : 2 ^ 31 ≤ timeidxInfoSize + timeidxEntrySize * n)
    (hlt : timeidxInfoSize + timeidxEntrySize * n < 2 ^ 32) : timeidxSize n < 0 := by
  unfold timeidxSize wrap32
  rw [Int.bmod_def]
  generalize timeidxInfoSize + timeidxEntrySize * (n : Int) = size at *
  split <;> omega

theorem entriesIn_size (h : timeidxInfoSize + timeidxEntrySize * n < 2 ^ 31) :
    entriesIn (timeidxSize n) = n := by
  rw [timeidxSize_of_lt h, entriesIn]
  unfold timeidxInfoSize timeidxEntrySize
  omega

theorem Fits.with_block (hf : s.Fits) : { s with block := s.maxEntries } = s := by
  obtain ⟨-, -, hblock⟩ := hf
  cases s
  dsimp only at hblock
  rw [hblock]

/-- The block is extended where it must be, or there is no more memory. -/
theorem Fits.extend (hf : s.Fits) (hi : i ≤ s.maxEntries) :
    s.extend i = .error .die ∨
      ∃ max, s.extend i = .ok { s with maxEntries := max, block := max } ∧ i < max ∧
        s.maxEntries ≤ max ∧ timeidxInfoSize + timeidxEntrySize * max < 2 ^ 31 := by
  have hpos := hf.pos
  have hsize := hf.size
  unfold timeidxInfoSize timeidxEntrySize at hsize
  have hlast : uint32 (s.maxEntries - 1) = s.maxEntries - 1 := by
    rw [uint32_of_bounds (by omega) (by omega)]
    omega
  have hgrown : uint32 (s.maxEntries + timeidxEntriesDefault) = s.maxEntries + 6000 := by
    unfold timeidxEntriesDefault
    rw [uint32_of_bounds (by omega) (by omega)]
    omega
  unfold TimeidxInfo.extend
  rw [hlast, hgrown]
  by_cases hnear : s.maxEntries - 1 ≤ i
  · rw [if_pos hnear]
    by_cases hlarge : timeidxInfoSize + timeidxEntrySize * (s.maxEntries + 6000 : Nat) < 2 ^ 31
    · refine Or.inr ⟨s.maxEntries + 6000, ?_, by omega, by omega, hlarge⟩
      dsimp only
      rw [entriesIn_size hlarge, timeidxSize_of_lt hlarge, if_neg]
      unfold timeidxInfoSize timeidxEntrySize
      omega
    · refine Or.inl (if_pos (timeidxSize_neg (Int.not_lt.mp hlarge) ?_))
      unfold timeidxInfoSize timeidxEntrySize
      omega
  · refine Or.inr ⟨s.maxEntries, ?_, by omega, Nat.le_refl _, hf.size⟩
    rw [if_neg hnear]
    exact congrArg Except.ok hf.with_block.symm

theorem put_of_lt (hmax : i < s.maxEntries) (hblock : i < s.block) :
    s.put i m = .ok { s with entry := Function.update s.entry i m } :=
  if_pos ⟨hmax, hblock⟩

/-- The loop of `timeidx_add` sets its entries and leaves the others, all within the block. -/
theorem Fits.fill (hf : s.Fits) (hi : i ≤ s.maxEntries) :
    TimeidxInfo.fill m n i s = .error .die ∨
      ∃ max, TimeidxInfo.fill m n i s = .ok
          { s with
            maxEntries := max
            block := max
            entry := fun j => if i ≤ j ∧ j < i + n then m else s.entry j } ∧
        i + n ≤ max ∧ s.maxEntries ≤ max ∧ timeidxInfoSize + timeidxEntrySize * max < 2 ^ 31 := by
  induction n generalizing i s with
  | zero =>
      refine Or.inr ⟨s.maxEntries, ?_, hi, Nat.le_refl _, hf.size⟩
      have hnone : (fun j => if i ≤ j ∧ j < i + 0 then m else s.entry j) = s.entry :=
        funext fun j => if_neg (by omega)
      rw [hnone]
      exact congrArg Except.ok hf.with_block.symm
  | succ n ih =>
      rw [TimeidxInfo.fill]
      rcases hf.extend hi with hdie | ⟨max, hok, hlt, hle, hsize⟩
      · left
        rw [hdie]
        rfl
      · have hput : put { s with maxEntries := max, block := max } i m = .ok
            { s with maxEntries := max, block := max, entry := Function.update s.entry i m } :=
          put_of_lt hlt hlt
        have hfits : Fits
            { s with maxEntries := max, block := max, entry := Function.update s.entry i m } :=
          ⟨by dsimp only; omega, hsize, rfl⟩
        rw [hok]
        change (put _ i m >>= _) = _ ∨ ∃ max, (put _ i m >>= _) = _ ∧ _
        rw [hput]
        rcases ih hfits (i := i + 1) hlt with hdie | ⟨max', hok', hlt', hle', hsize'⟩
        · exact Or.inl hdie
        · refine Or.inr ⟨max', hok'.trans (congrArg Except.ok ?_), by omega,
            Nat.le_trans hle hle', hsize'⟩
          congr 1
          funext j
          by_cases hj : j = i
          · subst hj
            rw [if_neg (by omega), if_pos (by omega)]
            exact Function.update_self ..
          · dsimp only
            rw [Function.update_of_ne hj]
            have hiff : (i + 1 ≤ j ∧ j < i + 1 + n) ↔ (i ≤ j ∧ j < i + (n + 1)) := by omega
            simp only [hiff]

end TimeidxInfo

/-! ## The calls that are kept -/

/-- A call of `timeidx_add` is kept if it is an interval after the last one kept and its number is
an `int`. -/
def noteCall (interval : Int) (ms : List TimeidxEntry) (c : Int × Int) : List TimeidxEntry :=
  if c.1 ≤ 0 ∨ c.2 ≤ 0 then ms
  else
    match ms.head?, ms.getLast? with
    | some first, some last =>
        if c.1 - last.ts < interval then ms
        else if 2 ^ 31 ≤ (c.1 - first.ts) / interval then ms
        else ms ++ [⟨c.1, c.2⟩]
    | _, _ => [⟨c.1, c.2⟩]

def notedOf (interval : Int) (calls : List (Int × Int)) : List TimeidxEntry :=
  calls.foldl (noteCall interval) []

namespace TimeidxInfo

def table (s : TimeidxInfo) : TimeIdx where
  interval := s.interval
  firstTs := s.firstTs
  lastTs := s.lastTs
  lastEntry := wrap32 s.lastEntry
  entry := fun i => if 0 ≤ i then s.entry i.toNat else ⟨0, 0⟩

/-- The index has the entries `ms`, at least one. -/
structure Indexes (interval : Int) (s : TimeidxInfo) (ms : List TimeidxEntry) : Prop where
  idxtype : s.idxtype = idxtypeGlobaltime
  withTimestamps : s.withTimestamps = true
  interval : s.interval = interval
  tab : Tabulates s.table ms
  last : ms.getLast?.map TimeidxEntry.ts = some s.lastTs
  sorted : ms.Pairwise fun a b => a.ts ≤ b.ts
  fits : s.Fits
  lt_max : s.lastEntry < s.maxEntries

/-- The index has the entries `ms`. -/
def Keeps (interval : Int) (s : TimeidxInfo) (ms : List TimeidxEntry) : Prop :=
  (ms = [] ∧ s = initial interval) ∨ Indexes interval s ms

end TimeidxInfo

section Calls

open TimeidxInfo

variable {interval ts off : Int} {s a b : TimeidxInfo} {m : TimeidxEntry} {ms : List TimeidxEntry}
  {calls : List (Int × Int)}

theorem fits_initial (interval : Int) : (initial interval).Fits := by
  refine ⟨show 0 < timeidxEntriesDefault by decide, ?_, ?_⟩
  · exact show timeidxInfoSize + timeidxEntrySize * timeidxEntriesDefault < 2 ^ 31 by decide
  · exact entriesIn_size (n := timeidxEntriesDefault) (by decide)

namespace TimeidxInfo

@[simp]
theorem table_interval : s.table.interval = s.interval := rfl

@[simp]
theorem table_firstTs : s.table.firstTs = s.firstTs := rfl

@[simp]
theorem table_lastTs : s.table.lastTs = s.lastTs := rfl

@[simp]
theorem table_lastEntry : s.table.lastEntry = wrap32 s.lastEntry := by
  rw [table]

@[simp]
theorem table_entry (i : Nat) : s.table.entry i = s.entry i := by
  simp [table]

theorem Indexes.wrap_lastEntry (h : Indexes interval s ms) :
    wrap32 s.lastEntry = s.lastEntry := by
  have hlt := h.lt_max
  have hsize := h.fits.size
  unfold timeidxInfoSize timeidxEntrySize at hsize
  exact wrap32_of_bounds (by omega) (by omega)

/-- Where its number is an `int`, a time has the same number as with exact integers. -/
theorem idx_eq_table (s : TimeidxInfo) (ts : Int) (h0 : 0 ≤ s.table.idx ts)
    (hlt : s.table.idx ts < 2 ^ 31) :
    s.idx ts = s.table.idx ts := by
  change (if _ then _ else _) = _
  rw [if_pos ⟨by change -2 ^ 31 ≤ s.table.idx ts; omega, hlt⟩]
  rfl

theorem idx_of_large (hle : 2 ^ 31 ≤ s.table.idx ts) : s.idx ts = -2 ^ 31 :=
  if_neg fun h => Int.not_le.mpr h.2 hle

theorem Indexes.exists_last (h : Indexes interval s ms) :
    ∃ last, ms.getLast? = some last ∧ last.ts = s.lastTs := by
  obtain ⟨last, hlast, hts⟩ := Option.map_eq_some_iff.mp h.last
  exact ⟨last, hlast, hts⟩

theorem Indexes.exists_first (h : Indexes interval s ms) :
    ∃ first, ms.head? = some first ∧ first.ts = s.firstTs := by
  obtain ⟨first, hfirst, hts⟩ := Option.map_eq_some_iff.mp h.tab.head
  exact ⟨first, hfirst, hts⟩

theorem Indexes.table_idx (h : Indexes interval s ms) (hle : s.firstTs ≤ ts) :
    s.table.idx ts = (ts - s.firstTs) / interval := by
  rw [← h.interval]
  exact TimeIdx.idx_eq (s := s.table) hle

/-- Which calls an index keeps, by what it has itself. -/
theorem Indexes.noteCall (h : Indexes interval s ms) (hts : 0 < ts) (hoff : 0 < off) :
    noteCall interval ms (ts, off) =
      if ts - s.lastTs < interval then ms
      else if 2 ^ 31 ≤ s.table.idx ts then ms
      else ms ++ [⟨ts, off⟩] := by
  obtain ⟨first, hfirst, hfts⟩ := h.exists_first
  obtain ⟨last, hlast, hlts⟩ := h.exists_last
  have hfl : s.firstTs ≤ s.lastTs := h.tab.first_le
  have hI : 0 < interval := h.interval ▸ h.tab.interval_pos
  unfold KogmoRtdb.noteCall
  rw [if_neg (by dsimp only; omega), hfirst, hlast]
  dsimp only
  rw [hfts, hlts]
  by_cases hearly : ts - s.lastTs < interval
  · rw [if_pos hearly, if_pos hearly]
  · rw [if_neg hearly, if_neg hearly, h.table_idx (by omega)]

theorem Indexes.lastEntry_eq (h : Indexes interval s ms) :
    (s.lastEntry : Int) = (s.lastTs - s.firstTs) / interval := by
  have hlast := h.tab.lastEntry
  simp only [table_lastEntry, table_lastTs, table_firstTs, table_interval] at hlast
  rw [h.wrap_lastEntry, h.interval] at hlast
  exact hlast

/-- A call an interval after the last one kept has a later number. -/
theorem Indexes.lastEntry_lt (h : Indexes interval s ms) (hlater : ¬ ts - s.lastTs < interval) :
    (s.lastEntry : Int) + 1 ≤ s.table.idx ts := by
  have hfl : s.firstTs ≤ s.lastTs := h.tab.first_le
  have hI : 0 < interval := h.interval ▸ h.tab.interval_pos
  rw [h.table_idx (by omega), h.lastEntry_eq, Int.le_ediv_iff_mul_le hI, Int.add_mul]
  have := Int.ediv_mul_le (s.lastTs - s.firstTs) (Int.ne_of_gt hI)
  omega

theorem Indexes.add_eq (h : Indexes interval s ms) (hoff : 0 < off)
    (hlater : ¬ ts - s.lastTs < interval) (hsmall : ¬ 2 ^ 31 ≤ s.table.idx ts) :
    s.add ts off = .error .die ∨
      ∃ max, s.add ts off = .ok (0,
          { s with
            changed := true
            lastTs := ts
            lastEntry := (s.table.idx ts).toNat
            maxEntries := max
            block := max
            entry := fun j =>
              if s.lastEntry < j ∧ j ≤ (s.table.idx ts).toNat then ⟨ts, off⟩ else s.entry j }) ∧
        (s.table.idx ts).toNat < max ∧
        timeidxInfoSize + timeidxEntrySize * max < 2 ^ 31 := by
  have hfl : s.firstTs ≤ s.lastTs := h.tab.first_le
  have hI : 0 < interval := h.interval ▸ h.tab.interval_pos
  have hfirst : 0 < s.firstTs := h.tab.firstTs_pos
  have hmax := h.lt_max
  have hsize := h.fits.size
  unfold timeidxInfoSize timeidxEntrySize at hsize
  have hnext := h.lastEntry_lt hlater
  have hidx := idx_eq_table s ts (by omega) (Int.not_le.mp hsmall)
  have hstart : uint32 (s.lastEntry + 1) = s.lastEntry + 1 := by
    rw [uint32_of_bounds (by omega) (by omega)]
    omega
  unfold add
  rw [if_neg (by omega), if_neg (by rw [h.interval]; omega), if_neg (by omega),
    if_neg (by rw [hidx]; omega), hstart, hidx]
  generalize (s.table.idx ts).toNat = k at *
  dsimp only
  rcases h.fits.fill (m := ⟨ts, off⟩) (n := k + 1 - (s.lastEntry + 1)) (i := s.lastEntry + 1)
    (by omega) with hdie | ⟨max, hok, hroom, hle, hmaxsize⟩
  · left
    rw [hdie]
    rfl
  · right
    have hentry (j : Nat) :
        (s.lastEntry + 1 ≤ j ∧ j < s.lastEntry + 1 + (k + 1 - (s.lastEntry + 1))) ↔
          (s.lastEntry < j ∧ j ≤ k) := by omega
    simp only [hentry] at hok
    rw [hok]
    exact ⟨max, rfl, by omega, hmaxsize⟩

/-- With its entries, the index is the one of exact integers. -/
theorem Indexes.table_added (h : Indexes interval s ms) {max k : Nat} (hk : (k : Int) < 2 ^ 31) :
    table { s with
        changed := true
        lastTs := ts
        lastEntry := k
        maxEntries := max
        block := max
        entry := fun j => if s.lastEntry < j ∧ j ≤ k then m else s.entry j } =
      { s.table with
        lastTs := ts
        lastEntry := k
        entry := fun i =>
          if s.table.lastEntry < i ∧ i ≤ k then m else s.table.entry i } := by
  have hwrap : wrap32 k = k := wrap32_of_bounds (by omega) hk
  rw [table_lastEntry, h.wrap_lastEntry]
  unfold table
  simp only [hwrap, TimeIdx.mk.injEq, true_and]
  funext i
  by_cases hi : 0 ≤ i
  · rw [if_pos hi, if_pos hi]
    have hiff : (s.lastEntry < i.toNat ∧ i.toNat ≤ k) ↔ ((s.lastEntry : Int) < i ∧ i ≤ k) := by
      omega
    simp only [hiff]
  · rw [if_neg hi, if_neg hi, if_neg (by omega)]

theorem Indexes.add_kept (h : Indexes interval s ms) (hoff : 0 < off)
    (hlater : ¬ ts - s.lastTs < interval) (hsmall : ¬ 2 ^ 31 ≤ s.table.idx ts) :
    s.add ts off = .error .die ∨ ∃ s', s.add ts off = .ok (0, s') ∧
      Indexes interval s' (ms ++ [⟨ts, off⟩]) ∧ s'.changed = true ∧ 0 < s'.lastEntry := by
  rcases h.add_eq hoff hlater hsmall with hdie | ⟨max, hok, hroom, hmaxsize⟩
  · exact Or.inl hdie
  have hpos : 0 < (s.table.idx ts).toNat := by
    have := h.lastEntry_lt hlater
    clear hsmall
    omega
  have hlater' : s.table.lastTs + s.table.interval ≤ (TimeidxEntry.mk ts off).ts := by
    rw [table_lastTs, table_interval, h.interval]
    dsimp only
    omega
  refine Or.inr ⟨_, hok, ?_, rfl, hpos⟩
  refine ⟨h.idxtype, h.withTimestamps, h.interval, ?_, by simp, ?_, ⟨?_, hmaxsize, rfl⟩, hroom⟩
  · have hadd := h.tab.add (m := ⟨ts, off⟩) hlater' hoff
    have hcast : ((s.table.idx ts).toNat : Int) = s.table.idx ts :=
      Int.toNat_of_nonneg (Int.le_of_lt (Int.lt_toNat.mp hpos))
    rw [h.tab.timeidxAdd_eq hlater' hoff] at hadd
    rw [h.table_added (by rw [hcast]; exact Int.not_le.mp hsmall), hcast]
    exact hadd
  · refine List.pairwise_append.mpr ⟨h.sorted, List.pairwise_singleton .., fun a ha b hb => ?_⟩
    have hle := h.tab.le_last a ha
    have hI : 0 < s.table.interval := h.tab.interval_pos
    rw [List.mem_singleton.mp hb]
    exact Int.le_trans hle (Int.le_trans (by omega) hlater')
  · exact Nat.lt_of_le_of_lt (Nat.zero_le _) hroom

theorem Indexes.add_skipped (h : Indexes interval s ms) (off : Int)
    (hskip : ts ≤ 0 ∨ off ≤ 0 ∨ ts - s.lastTs < interval ∨ 2 ^ 31 ≤ s.table.idx ts) :
    ∃ r, s.add ts off = .ok (r, s) := by
  have hfirst : s.firstTs ≠ 0 := Int.ne_of_gt h.tab.firstTs_pos
  unfold add
  by_cases hbad : ts ≤ 0 ∨ off ≤ 0
  · exact ⟨-1, if_pos hbad⟩
  rw [if_neg hbad]
  by_cases hearly : ts - s.lastTs < s.interval
  · exact ⟨0, if_pos ⟨hearly, hfirst⟩⟩
  rw [h.interval] at hearly
  have hlarge : 2 ^ 31 ≤ s.table.idx ts := by
    rcases hskip with hts | hoff | hearly' | hlarge
    · exact absurd (Or.inl hts) hbad
    · exact absurd (Or.inr hoff) hbad
    · exact absurd hearly' hearly
    · exact hlarge
  refine ⟨-1, ?_⟩
  rw [h.interval, if_neg (fun hc => hearly hc.1), if_neg hfirst, idx_of_large hlarge,
    if_pos (by decide)]

def begun (interval ts off : Int) : TimeidxInfo :=
  { initial interval with
    firstTs := ts
    lastTs := ts
    lastEntry := 0
    entry := Function.update (fun _ => ⟨0, 0⟩) 0 ⟨ts, off⟩ }

theorem add_initial (hts : 0 < ts) (hoff : 0 < off) :
    (initial interval).add ts off = .ok (0, begun interval ts off) := by
  have hfits := fits_initial interval
  have hroom : 0 < (initial interval).block := hfits.block ▸ hfits.pos
  have hzero : (initial interval).firstTs = 0 := rfl
  have hput : put { initial interval with firstTs := ts, lastTs := ts, lastEntry := 0 } 0 ⟨ts, off⟩
      = .ok (begun interval ts off) := put_of_lt hfits.pos hroom
  unfold add
  rw [if_neg (by omega), if_neg (fun h => h.2 hzero), if_pos hzero, hput]
  rfl

theorem table_begun : (begun interval ts off).table =
    ⟨interval, ts, ts, 0, Function.update (fun _ => ⟨0, 0⟩) 0 ⟨ts, off⟩⟩ := by
  have hwrap : wrap32 (0 : Nat) = 0 := by decide
  unfold table begun
  simp only [hwrap, TimeIdx.mk.injEq, true_and]
  refine ⟨rfl, funext fun i => ?_⟩
  by_cases hi : 0 ≤ i
  · rw [if_pos hi]
    by_cases hzero : i = 0
    · subst hzero
      rw [Function.update_self]
      exact Function.update_self ..
    · rw [Function.update_of_ne hzero, Function.update_of_ne (by omega)]
  · rw [if_neg hi, Function.update_of_ne (by omega)]

theorem indexes_begun (hI : 0 < interval) (hts : 0 < ts) (hoff : 0 < off) :
    Indexes interval (begun interval ts off) [⟨ts, off⟩] := by
  have hfits := fits_initial interval
  refine ⟨rfl, rfl, rfl, ?_, rfl, List.pairwise_singleton .., ⟨hfits.pos, hfits.size, hfits.block⟩,
    hfits.pos⟩
  have hfirst := tabulates_first (m := ⟨ts, off⟩) hI hts hoff
  rw [timeidxAdd_init (m := ⟨ts, off⟩) hts hoff] at hfirst
  rw [table_begun]
  exact hfirst

theorem noteCall_cases (interval : Int) (ms : List TimeidxEntry) (c : Int × Int) :
    KogmoRtdb.noteCall interval ms c = ms ∨
      (0 < c.1 ∧ 0 < c.2 ∧ KogmoRtdb.noteCall interval ms c = ms ++ [⟨c.1, c.2⟩]) := by
  unfold KogmoRtdb.noteCall
  by_cases hbad : c.1 ≤ 0 ∨ c.2 ≤ 0
  · exact Or.inl (if_pos hbad)
  rw [if_neg hbad]
  have hpos : 0 < c.1 ∧ 0 < c.2 := by omega
  cases hlast : ms.getLast? with
  | none =>
      rw [List.getLast?_eq_none_iff.mp hlast]
      exact Or.inr ⟨hpos.1, hpos.2, rfl⟩
  | some last =>
      cases hfirst : ms.head? with
      | none =>
          rw [List.head?_eq_none_iff.mp hfirst]
          exact Or.inr ⟨hpos.1, hpos.2, rfl⟩
      | some first =>
          dsimp only
          split
          · exact Or.inl rfl
          · split
            · exact Or.inl rfl
            · exact Or.inr ⟨hpos.1, hpos.2, rfl⟩

theorem length_le_noteCall (ms : List TimeidxEntry) (c : Int × Int) :
    ms.length ≤ (KogmoRtdb.noteCall interval ms c).length := by
  rcases noteCall_cases interval ms c with heq | ⟨-, -, heq⟩
  · rw [heq]
  · rw [heq]
    simp

/-- Every call leaves the index with the calls that are kept, or there is no more memory. Nothing
is written outside of the block. -/
theorem Keeps.add (hI : 0 < interval) (h : Keeps interval s ms) (ts off : Int) :
    (s.add ts off = .error .die ∧ 2 ≤ (noteCall interval ms (ts, off)).length) ∨
      ∃ r s', s.add ts off = .ok (r, s') ∧ Keeps interval s' (noteCall interval ms (ts, off)) ∧
        ((s' = s ∧ noteCall interval ms (ts, off) = ms) ∨
          (s = initial interval ∧ s' = begun interval ts off ∧
            noteCall interval ms (ts, off) = [⟨ts, off⟩]) ∨
          (s'.changed = true ∧ 0 < s'.lastEntry)) := by
  by_cases hbad : ts ≤ 0 ∨ off ≤ 0
  · have hnote : noteCall interval ms (ts, off) = ms := if_pos hbad
    rw [hnote]
    exact Or.inr ⟨-1, s, if_pos hbad, h, Or.inl ⟨rfl, rfl⟩⟩
  obtain ⟨hts, hoff⟩ : 0 < ts ∧ 0 < off := by omega
  rcases h with ⟨rfl, rfl⟩ | h
  · have hnote : noteCall interval [] (ts, off) = [⟨ts, off⟩] := if_neg hbad
    rw [hnote]
    exact Or.inr ⟨0, _, add_initial hts hoff, Or.inr (indexes_begun hI hts hoff),
      Or.inr (Or.inl ⟨rfl, rfl, rfl⟩)⟩
  rw [h.noteCall hts hoff]
  by_cases hearly : ts - s.lastTs < interval
  · obtain ⟨r, hadd⟩ := h.add_skipped off (Or.inr (Or.inr (Or.inl hearly)))
    rw [if_pos hearly]
    exact Or.inr ⟨r, s, hadd, Or.inr h, Or.inl ⟨rfl, rfl⟩⟩
  by_cases hlarge : 2 ^ 31 ≤ s.table.idx ts
  · obtain ⟨r, hadd⟩ := h.add_skipped off (Or.inr (Or.inr (Or.inr hlarge)))
    rw [if_neg hearly, if_pos hlarge]
    exact Or.inr ⟨r, s, hadd, Or.inr h, Or.inl ⟨rfl, rfl⟩⟩
  rw [if_neg hearly, if_neg hlarge]
  rcases h.add_kept hoff hearly hlarge with hdie | ⟨s', hadd, hs', hchanged, hpos⟩
  · obtain ⟨first, hfirst, -⟩ := h.exists_first
    have hlen := List.length_pos_of_mem (List.mem_of_mem_head? hfirst)
    exact Or.inl ⟨hdie, by simp; omega⟩
  · exact Or.inr ⟨0, s', hadd, Or.inr hs', Or.inr (Or.inr ⟨hchanged, hpos⟩)⟩

end TimeidxInfo

theorem notedOf_append (calls : List (Int × Int)) (c : Int × Int) :
    notedOf interval (calls ++ [c]) = noteCall interval (notedOf interval calls) c := by
  simp [notedOf]

/-- All calls in one session leave the index with those that are kept. -/
theorem singleSession_keeps (hI : 0 < interval) (calls : List (Int × Int)) :
    (singleSession interval calls = .error .die ∧ 2 ≤ (notedOf interval calls).length) ∨
      ∃ s, singleSession interval calls = .ok s ∧ Keeps interval s (notedOf interval calls) := by
  induction calls using List.reverseRecOn with
  | nil => exact Or.inr ⟨_, rfl, Or.inl ⟨rfl, rfl⟩⟩
  | append_singleton calls c ih =>
      have happend : singleSession interval (calls ++ [c]) =
          singleSession interval calls >>= fun s => (s.add c.1 c.2).map Prod.snd := by
        unfold singleSession
        rw [List.foldlM_append]
        simp
      rw [happend, notedOf_append]
      rcases ih with ⟨hdie, hlen⟩ | ⟨s, hs, hkeeps⟩
      · rw [hdie]
        exact Or.inl ⟨rfl, Nat.le_trans hlen (length_le_noteCall _ c)⟩
      · rw [hs]
        rcases hkeeps.add hI c.1 c.2 with ⟨hdie, hlen⟩ | ⟨r, s', hadd, hkeeps', -⟩
        · exact Or.inl ⟨congrArg (Except.map Prod.snd) hdie, hlen⟩
        · exact Or.inr ⟨s', congrArg (Except.map Prod.snd) hadd, hkeeps'⟩

/-! ## The end of a session -/

namespace TimeidxInfo

/-- What the next session has of an index that has been saved. -/
def reopened (s : TimeidxInfo) : TimeidxInfo :=
  { s with
    changed := false
    maxEntries := s.lastEntry + 1
    entry := fun i => ((List.range (s.lastEntry + 1)).map s.entry).getD i ⟨0, 0⟩
    block := s.lastEntry + 1 }

theorem reopened_entry {i : Nat} (hi : i ≤ s.lastEntry) : s.reopened.entry i = s.entry i := by
  have hlt : i < s.lastEntry + 1 := by omega
  simp [reopened, List.getD_eq_getElem?_getD, List.getElem?_map, List.getElem?_range hlt]

theorem Indexes.reopen (h : Indexes interval s ms) (hchanged : s.changed = true)
    (file : Option TimeidxFile) :
    ∃ f, (s.write file).2 = some f ∧ init interval (some f) = .ok s.reopened := by
  have hmax := h.lt_max
  have hsize := h.fits.size
  have hlast : uint32 (s.lastEntry + 1) = s.lastEntry + 1 := by
    unfold timeidxInfoSize timeidxEntrySize at hsize
    rw [uint32_of_bounds (by omega) (by omega)]
    omega
  have hsize' : timeidxInfoSize + timeidxEntrySize * (s.lastEntry + 1 : Nat) < 2 ^ 31 := by
    unfold timeidxInfoSize timeidxEntrySize at hsize ⊢
    omega
  refine ⟨⟨{ s.toTimeidxHeader with maxEntries := s.lastEntry + 1 },
    (List.range (s.lastEntry + 1)).map s.entry⟩, ?_, ?_⟩
  · rw [write, if_pos hchanged, hlast]
    dsimp only
    rw [entriesIn_size hsize']
  · have hfile : wrap32 (timeidxInfoSize +
        timeidxEntrySize * ((List.range (s.lastEntry + 1)).map s.entry).length) =
        timeidxSize (s.lastEntry + 1) := by
      rw [List.length_map, List.length_range, timeidxSize]
    have hentries : uint32 ((timeidxSize (s.lastEntry + 1) - timeidxInfoSize) / timeidxEntrySize) =
        s.lastEntry + 1 := by
      rw [timeidxSize_of_lt hsize']
      unfold timeidxInfoSize timeidxEntrySize at hsize' ⊢
      rw [uint32_of_bounds (by omega) (by omega)]
      omega
    have hprev : uint32 ((s.lastEntry + 1 : Nat) - 1) = s.lastEntry := by
      unfold timeidxInfoSize timeidxEntrySize at hsize'
      rw [uint32_of_bounds (by omega) (by omega)]
      omega
    unfold init
    dsimp only [TimeidxFile.size]
    rw [hfile, hentries, hprev, entriesIn_size hsize', if_neg (fun hne => hne h.idxtype),
      if_neg (by rw [h.withTimestamps]; decide), if_neg (Nat.lt_irrefl _)]
    rfl

theorem Indexes.reopened (h : Indexes interval s ms) : Indexes interval s.reopened ms := by
  have hmax := h.lt_max
  have hsize := h.fits.size
  refine ⟨h.idxtype, h.withTimestamps, h.interval, ?_, h.last, h.sorted,
    ⟨Nat.succ_pos _, ?_, rfl⟩, Nat.lt_succ_self _⟩
  · obtain ⟨hI, hfirst, hhead, hfl, hlast, hentry, hfind⟩ := h.tab
    refine ⟨hI, hfirst, hhead, hfl, hlast, hentry, fun i h0 hle => ?_⟩
    obtain ⟨k, rfl⟩ := Int.eq_ofNat_of_zero_le h0
    rw [table_lastEntry] at hle
    have hk : k ≤ s.lastEntry := by
      change (k : Int) ≤ wrap32 s.lastEntry at hle
      rw [h.wrap_lastEntry] at hle
      omega
    have hfound := hfind k h0 (by rw [table_lastEntry, h.wrap_lastEntry]; omega)
    rw [table_entry] at hfound ⊢
    rw [reopened_entry hk]
    exact hfound
  · unfold timeidxInfoSize timeidxEntrySize at hsize ⊢
    change 76 + 16 * ((s.lastEntry + 1 : Nat) : Int) < 2 ^ 31
    omega

end TimeidxInfo

/-! ## The run of the sessions -/

theorem notedOf_sublist (interval : Int) (calls : List (Int × Int)) :
    ((notedOf interval calls).map fun m => (m.ts, m.off)).Sublist calls := by
  induction calls using List.reverseRecOn with
  | nil => exact List.Sublist.refl _
  | append_singleton calls c ih =>
      rw [notedOf_append]
      rcases noteCall_cases interval (notedOf interval calls) c with heq | ⟨-, -, heq⟩
      · rw [heq]
        exact ih.trans (List.sublist_append_left ..)
      · rw [heq, List.map_append]
        exact ih.append (List.Sublist.refl _)

/-- Where an entry is found by a stronger test, it is not before the one found by a weaker. -/
theorem rel_of_find? {α : Type} {R : α → α → Prop} {p q : α → Bool} {l : List α} {x y : α}
    (hR : l.Pairwise R) (hrefl : ∀ x, R x x) (hpq : ∀ x, q x = true → p x = true)
    (hx : l.find? p = some x) (hy : l.find? q = some y) : R x y := by
  obtain ⟨hp, as, bs, rfl, has⟩ := List.find?_eq_some_iff_append.mp hx
  have hyp := hpq y (List.find?_some hy)
  rcases List.mem_append.mp (List.mem_of_find?_eq_some hy) with hbefore | hafter
  · have := has y hbefore
    rw [hyp] at this
    cases this
  · rcases List.mem_cons.mp hafter with rfl | hafter
    · exact hrefl y
    · exact (List.pairwise_cons.mp (List.pairwise_append.mp hR).2.1).1 y hafter

namespace TimeidxInfo

theorem Indexes.has_iff (h : Indexes interval s ms) (i : Nat) : s.Has i ↔ i ≤ s.lastEntry := by
  rw [Has, h.wrap_lastEntry]
  omega

theorem not_has_initial (i : Nat) : ¬ (initial interval).Has i := by
  have hlast : wrap32 (initial interval).lastEntry = -1 := show wrap32 (uint32 (-1)) = -1 by decide
  rw [Has, hlast]
  omega

/-- Entry `i` is the first that belongs there or behind. -/
theorem Indexes.find_entry (h : Indexes interval s ms) {i : Nat} (hi : s.Has i) :
    ms.find? (fun m => (i : Int) ≤ (m.ts - s.firstTs) / interval) = some (s.entry i) := by
  have hfind := h.tab.entry i (Int.natCast_nonneg i) (by rw [table_lastEntry]; exact hi)
  rw [table_entry, table_firstTs, table_interval, h.interval] at hfind
  exact hfind

theorem Indexes.lookup_eq (ha : Indexes interval a ms) (hb : Indexes interval b ms) (ts : Int) :
    a.lookup ts = b.lookup ts := by
  obtain ⟨first, hfirst, hfa⟩ := ha.exists_first
  obtain ⟨first', hfirst', hfb⟩ := hb.exists_first
  obtain ⟨last, hlast, hla⟩ := ha.exists_last
  obtain ⟨last', hlast', hlb⟩ := hb.exists_last
  obtain rfl : first = first' := Option.some.inj (hfirst.symm.trans hfirst')
  obtain rfl : last = last' := Option.some.inj (hlast.symm.trans hlast')
  have hff : a.firstTs = b.firstTs := hfa.symm.trans hfb
  have hll : a.lastTs = b.lastTs := hla.symm.trans hlb
  have hee : a.lastEntry = b.lastEntry := by
    have hea := ha.lastEntry_eq
    have heb := hb.lastEntry_eq
    rw [hff, hll, ← heb] at hea
    exact Int.ofNat_inj.mp hea
  have hidx : a.idx ts = b.idx ts := by
    unfold idx
    rw [hff, ha.interval, hb.interval]
  unfold lookup
  rw [hll, hidx, hee]
  by_cases hlate : b.lastTs < ts
  · rw [if_pos hlate, if_pos hlate]
  rw [if_neg hlate, if_neg hlate]
  by_cases hneg : b.idx ts < 0
  · rw [if_pos hneg, if_pos hneg]
  rw [if_neg hneg, if_neg hneg, hb.wrap_lastEntry]
  generalize hk : (if (b.lastEntry : Int) < b.idx ts then (b.lastEntry : Int) else b.idx ts) = k
  have hbounds : 0 ≤ k ∧ k ≤ b.lastEntry := by
    rw [← hk]
    split <;> omega
  unfold offAt
  rw [if_pos hbounds.1, if_pos hbounds.1]
  have hfa := ha.find_entry (i := k.toNat) ((ha.has_iff _).mpr (by omega))
  have hfb := hb.find_entry (i := k.toNat) ((hb.has_iff _).mpr (by omega))
  rw [hff, hfb] at hfa
  exact congrArg TimeidxEntry.off (Option.some.inj hfa).symm

end TimeidxInfo

section Run

variable {t t' : IdxSession} {l : IdxStep}

/-- An index with the calls that are kept is consistent. -/
theorem TimeidxInfo.Indexes.consistent (hI : 0 < interval)
    (h : Indexes interval t.info (notedOf interval t.calls)) : ConsistentIdx interval t where
  set i hi := by
    have hmem := List.mem_of_find?_eq_some (h.find_entry hi)
    have hsub := notedOf_sublist interval t.calls
    exact hsub.subset (List.mem_map.mpr ⟨_, hmem, rfl⟩)
  times i j hij hj := by
    have hi : t.info.Has i := (h.has_iff i).mpr (Nat.le_trans hij ((h.has_iff j).mp hj))
    refine rel_of_find? (R := fun a b : TimeidxEntry => a.ts ≤ b.ts) h.sorted
      (fun _ => Int.le_refl _) (fun m hm => ?_) (h.find_entry hi) (h.find_entry hj)
    have := of_decide_eq_true hm
    exact decide_eq_true (by omega)
  offs hoffs i j hij hj := by
    have hi : t.info.Has i := (h.has_iff i).mpr (Nat.le_trans hij ((h.has_iff j).mp hj))
    have hsorted := hoffs.sublist (notedOf_sublist interval t.calls)
    have hnoted : (notedOf interval t.calls).Pairwise fun a b => a.off ≤ b.off :=
      (List.pairwise_map (R := fun a b : Int × Int => a.2 ≤ b.2)).mp hsorted
    refine rel_of_find? (R := fun a b : TimeidxEntry => a.off ≤ b.off) hnoted
      (fun _ => Int.le_refl _) (fun m hm => ?_) (h.find_entry hi) (h.find_entry hj)
    have := of_decide_eq_true hm
    exact decide_eq_true (by omega)
  bucket i hi := by
    have hfind := h.find_entry hi
    have hge : (i : Int) ≤ ((t.info.entry i).ts - t.info.firstTs) / interval := by
      have hfound := List.find?_some hfind
      exact of_decide_eq_true hfound
    have hle : (t.info.entry i).ts ≤ t.info.lastTs :=
      h.tab.le_last _ (List.mem_of_find?_eq_some hfind)
    have hlast : ((t.info.entry i).ts - t.info.firstTs) / interval ≤ t.info.lastEntry := by
      rw [h.lastEntry_eq]
      exact Int.ediv_le_ediv hI (by omega)
    have hmax := h.lt_max
    have hsize := h.fits.size
    unfold timeidxInfoSize timeidxEntrySize at hsize
    have hfirst : t.info.firstTs ≤ (t.info.entry i).ts := by
      have hnonneg : 0 ≤ ((t.info.entry i).ts - t.info.firstTs) / interval := by omega
      have := (Int.ediv_nonneg_iff_of_pos hI).mp hnonneg
      omega
    have hidx := h.table_idx hfirst
    rw [idx_eq_table _ _ (by omega) (by omega), hidx]
    exact hge
  below i hi := by
    have hle := (h.has_iff i).mp hi
    have hmax := h.lt_max
    have hblock := h.fits.block
    omega
  inBounds ts off hout := by
    rcases Keeps.add hI (Or.inr h) ts off with ⟨hdie, -⟩ | ⟨r, s', hok, -⟩
    · rw [hdie] at hout
      cases hout
    · rw [hok] at hout
      cases hout
  lookup single hsingle ts := by
    rcases singleSession_keeps hI t.calls with ⟨hdie, -⟩ | ⟨s, hs, ⟨hnil, -⟩ | hkeeps⟩
    · rw [hdie] at hsingle
      cases hsingle
    · have hhead := h.tab.head
      rw [hnil] at hhead
      cases hhead
    · obtain rfl : s = single := Except.ok.inj (hs.symm.trans hsingle)
      exact h.lookup_eq hkeeps ts

/-- So is the empty index, before any call that is kept. -/
theorem consistent_initial (hI : 0 < interval) (hinfo : t.info = initial interval)
    (hnil : notedOf interval t.calls = []) : ConsistentIdx interval t where
  set i hi := absurd (hinfo ▸ hi) (not_has_initial i)
  times i j _ hj := absurd (hinfo ▸ hj) (not_has_initial j)
  offs _ i j _ hj := absurd (hinfo ▸ hj) (not_has_initial j)
  bucket i hi := absurd (hinfo ▸ hi) (not_has_initial i)
  below i hi := absurd (hinfo ▸ hi) (not_has_initial i)
  inBounds ts off hout := by
    rcases Keeps.add hI (Or.inl ⟨hnil, hinfo⟩) ts off with ⟨hdie, -⟩ | ⟨r, s', hok, -⟩
    · rw [hdie] at hout
      cases hout
    · rw [hok] at hout
      cases hout
  lookup single hsingle ts := by
    rcases singleSession_keeps hI t.calls with ⟨hdie, -⟩ | ⟨s, hs, ⟨-, rfl⟩ | hkeeps⟩
    · rw [hdie] at hsingle
      cases hsingle
    · obtain rfl : initial interval = single := Except.ok.inj (hs.symm.trans hsingle)
      rw [hinfo]
    · have hhead := hkeeps.tab.head
      rw [hnil] at hhead
      cases hhead

inductive SavedIdx (interval : Int) (t : IdxSession) : Prop where
  | empty : t.info = initial interval → t.file = none → SavedIdx interval t
  /-- The first entry alone is in no file. -/
  | first (ts off : Int) : 0 < ts → 0 < off → t.info = begun interval ts off → t.file = none →
      notedOf interval t.calls = [⟨ts, off⟩] → SavedIdx interval t
  | saved (f : TimeidxFile) : t.file = some f → init interval (some f) = .ok t.info →
      t.info.changed = false → 0 < t.info.firstTs → 0 < t.info.lastEntry → SavedIdx interval t
  | changed : t.info.changed = true → 0 < t.info.lastEntry → SavedIdx interval t

structure SessionInv (interval : Int) (t : IdxSession) : Prop where
  keeps : Keeps interval t.info (notedOf interval t.calls)
  saved : SavedIdx interval t

theorem SessionInv.consistent (hI : 0 < interval) (h : SessionInv interval t) :
    ConsistentIdx interval t := by
  rcases h.keeps with ⟨hnil, hinfo⟩ | hindexes
  · exact consistent_initial hI hinfo hnil
  · exact hindexes.consistent hI

theorem SessionInv.indexes (h : SessionInv interval t) (hchanged : t.info.changed = true) :
    TimeidxInfo.Indexes interval t.info (notedOf interval t.calls) := by
  rcases h.keeps with ⟨-, hinfo⟩ | hindexes
  · rw [hinfo] at hchanged
    cases hchanged
  · exact hindexes

theorem sessionInv_init (h : (idxLts interval).init t) : SessionInv interval t := by
  obtain rfl : t = _ := h
  exact ⟨Or.inl ⟨rfl, rfl⟩, .empty rfl rfl⟩

theorem SessionInv.add (hI : 0 < interval) (h : SessionInv interval t) {ts off : Int}
    (hs : (idxLts interval).step t (.add ts off) = some t') : SessionInv interval t' := by
  change (if _ then _ else _) = _ at hs
  by_cases hpos : 0 < ts ∧ 0 < off
  · rw [if_pos hpos] at hs
    rcases h.keeps.add hI ts off with ⟨hdie, -⟩ | ⟨r, info, hok, hkeeps, hcase⟩
    · rw [hdie] at hs
      cases hs
    rw [hok] at hs
    obtain rfl := Option.some.inj hs
    rw [← notedOf_append] at hkeeps hcase
    refine ⟨hkeeps, ?_⟩
    rcases hcase with ⟨rfl, hnoted⟩ | ⟨hinitial, rfl, hnoted⟩ | ⟨hchanged, hlast⟩
    · cases h.saved with
      | empty hinfo hfile => exact .empty hinfo hfile
      | first ts' off' hts hoff hinfo hfile hfirst =>
          exact .first ts' off' hts hoff hinfo hfile (hnoted.trans hfirst)
      | saved f hfile hinit hchanged hfirst hlast =>
          exact .saved f hfile hinit hchanged hfirst hlast
      | changed hchanged hlast => exact .changed hchanged hlast
    · have hfile : t.file = none := by
        cases h.saved with
        | empty _ hfile => exact hfile
        | first _ _ _ _ _ hfile _ => exact hfile
        | saved f _ _ _ hfirst _ =>
            rw [hinitial] at hfirst
            exact absurd hfirst (Int.lt_irrefl 0)
        | changed hchanged _ =>
            rw [hinitial] at hchanged
            cases hchanged
      exact .first ts off hpos.1 hpos.2 rfl hfile hnoted
    · exact .changed hchanged hlast
  · rw [if_neg hpos] at hs
    cases hs

theorem reopen_step (h : init interval (t.info.write t.file).2 = .ok s) :
    (idxLts interval).step t .reopen =
      some { t with info := s, file := (t.info.write t.file).2 } := by
  change (match init interval (t.info.write t.file).2 with
    | .ok info => some { t with info := info, file := (t.info.write t.file).2 }
    | .error _ => none) = _
  rw [h]

theorem TimeidxInfo.write_unchanged (h : s.changed = false) (file : Option TimeidxFile) :
    (s.write file).2 = file := by
  rw [write, if_neg (by rw [h]; decide)]

/-- At the end of a session that saves the index, what is read in again keeps the invariant. -/
theorem SessionInv.reopen (h : SessionInv interval t) (hsaves : t.info.lastEntry ≠ 0) :
    ∃ t', (idxLts interval).step t .reopen = some t' ∧ SessionInv interval t' := by
  cases h.saved with
  | empty hinfo hfile =>
      have hwrite : (t.info.write t.file).2 = none := by
        rw [write_unchanged (by rw [hinfo]; rfl), hfile]
      refine ⟨_, reopen_step (s := initial interval) (by rw [hwrite]; rfl), ?_, .empty rfl hwrite⟩
      exact hinfo ▸ h.keeps
  | first ts off _ _ hinfo => exact absurd (congrArg (·.lastEntry) hinfo) hsaves
  | saved f hfile hinit hchanged hfirst hlast =>
      have hwrite : (t.info.write t.file).2 = some f := by
        rw [write_unchanged hchanged, hfile]
      exact ⟨_, reopen_step (s := t.info) (by rw [hwrite]; exact hinit), h.keeps,
        .saved f hwrite hinit hchanged hfirst hlast⟩
  | changed hchanged hlast =>
      have hindexes := h.indexes hchanged
      obtain ⟨f, hwrite, hinit⟩ := hindexes.reopen hchanged t.file
      refine ⟨_, reopen_step (s := t.info.reopened) (by rw [hwrite]; exact hinit),
        Or.inr hindexes.reopened, .saved f hwrite hinit rfl hindexes.tab.firstTs_pos hlast⟩

theorem lookup_begun (interval ts off : Int) : (begun interval ts off).lookup ts = off := by
  have hidx : (begun interval ts off).idx ts = 0 := by
    have hdiff : ts - (begun interval ts off).firstTs = 0 := Int.sub_self ts
    have hzero : (ts - (begun interval ts off).firstTs).tdiv (begun interval ts off).interval =
        0 := by
      rw [hdiff, Int.zero_tdiv]
    unfold idx
    dsimp only
    rw [hzero, if_pos (by decide)]
  have hwrap : wrap32 (begun interval ts off).lastEntry = 0 := show wrap32 (0 : Nat) = 0 by decide
  unfold lookup
  rw [if_neg (show ¬ (begun interval ts off).lastTs < ts from Int.lt_irrefl ts), hidx,
    if_neg (Int.lt_irrefl 0), hwrap, if_neg (Int.lt_irrefl 0)]
  have hentry : (begun interval ts off).entry 0 = ⟨ts, off⟩ := by
    simp [begun]
  exact congrArg TimeidxEntry.off hentry

/-- A session that ends with the first entry alone loses it. -/
theorem SessionInv.lost (hI : 0 < interval) (h : SessionInv interval t)
    (hlost : t.info.lastEntry = 0) :
    ∃ t', (idxLts interval).step t .reopen = some t' ∧ ¬ ConsistentIdx interval t' := by
  cases h.saved with
  | empty hinfo _ =>
      rw [hinfo] at hlost
      exact absurd (show uint32 (-1) = 0 from hlost) (by decide)
  | first ts off hts hoff hinfo hfile hnoted =>
      have hwrite : (t.info.write t.file).2 = none := by
        rw [write_unchanged (by rw [hinfo]; rfl), hfile]
      refine ⟨_, reopen_step (s := initial interval) (by rw [hwrite]; rfl), fun hcons => ?_⟩
      -- one session of the same calls still has it
      obtain ⟨s, hs, hkeeps⟩ : ∃ s, singleSession interval t.calls = .ok s ∧
          TimeidxInfo.Indexes interval s [⟨ts, off⟩] := by
        rcases singleSession_keeps hI t.calls with ⟨-, hlen⟩ | ⟨s, hs, ⟨hnil, -⟩ | hkeeps⟩
        · rw [hnoted] at hlen
          exact absurd hlen (by simp)
        · rw [hnoted] at hnil
          cases hnil
        · exact ⟨s, hs, hnoted ▸ hkeeps⟩
      have hsame := hcons.lookup s hs ts
      have hnone : (initial interval).lookup ts = -1 := if_pos hts
      have hone : s.lookup ts = off := by
        rw [hkeeps.lookup_eq (indexes_begun hI hts hoff), lookup_begun]
      rw [hnone, hone] at hsame
      omega
  | saved _ _ _ _ _ hlast => exact absurd hlost (Nat.ne_of_gt hlast)
  | changed _ hlast => exact absurd hlost (Nat.ne_of_gt hlast)

end Run

/-- As long as no session ends with the first entry alone, the index is the same as after one
session, whatever the calls are and wherever the sessions end. One that does so loses the entry:
`timeidx_add` notes it without setting `flags.changed`. -/
theorem consistentIdx_of_savesIndex {t : IdxSession} (hI : 0 < interval)
    (h : (idxLts interval).Guarded SavesIndex t) :
    ConsistentIdx interval t ∧ ∃ t', (idxLts interval).step t .reopen = some t' ∧
      (ConsistentIdx interval t' ↔ SavesIndex t .reopen) := by
  have hinv : SessionInv interval t := by
    refine h.invariant (fun _ => sessionInv_init) (fun t l t' hinv hsaves hs => ?_)
    cases l with
    | add ts off => exact hinv.add hI hs
    | reopen =>
        obtain ⟨t'', hs', hinv'⟩ := hinv.reopen (hsaves rfl)
        obtain rfl := Option.some.inj (hs.symm.trans hs')
        exact hinv'
  refine ⟨hinv.consistent hI, ?_⟩
  by_cases hlost : t.info.lastEntry = 0
  · obtain ⟨t', hs, hcons⟩ := hinv.lost hI hlost
    exact ⟨t', hs, fun h => absurd h hcons, fun hsaves => absurd hlost (hsaves rfl)⟩
  · obtain ⟨t', hs, hinv'⟩ := hinv.reopen hlost
    exact ⟨t', hs, fun _ _ => hlost, fun _ => hinv'.consistent hI⟩

/-- Two sessions, the second of which begins with an empty index. -/
def firstAlone : List IdxStep :=
  [.add 1000000000 184, .reopen, .add 2000000000 282, .add 3000000000 380, .reopen]

/-- Two sessions, the first of which ends with two entries. -/
def firstTwo : List IdxStep :=
  [.add 1000000000 184, .add 2000000000 282, .reopen, .add 3000000000 380]

/-- After two entries a session may end. -/
theorem consistentIdx_of_savesIndex_firstTwo :
    ∃ t, (idxLts 100000000).Guarded SavesIndex t ∧ t.calls.length = 3 ∧
      ConsistentIdx 100000000 t := by
  obtain ⟨t, ht, hcalls⟩ := Lts.exists_of_execGuarded (M := idxLts 100000000) (G := SavesIndex)
    (fun _ _ => of_decide_eq_true) firstTwo (fun t => t.calls.length = 3) rfl (by decide +kernel)
  exact ⟨t, ht, of_decide_eq_true hcalls, (consistentIdx_of_savesIndex (by decide) ht).1⟩

/-- The position of the first entry is found after one session, and lost after two. -/
theorem not_consistentIdx :
    ∃ t, (idxLts 100000000).Reachable t ∧ ¬ ConsistentIdx 100000000 t := by
  obtain ⟨t, ht, hlookup⟩ := Lts.exists_of_exec (M := idxLts 100000000) firstAlone
    (fun t => (singleSession 100000000 t.calls).toOption.any fun s =>
      s.lookup 1000000000 = 184 ∧ t.info.lookup 1000000000 = -1) rfl (by decide +kernel)
  refine ⟨t, ht, fun hcons => ?_⟩
  obtain ⟨s, hs, hboth⟩ := (Option.any_eq_true _ _).mp hlookup
  obtain ⟨hone, htwo⟩ := of_decide_eq_true hboth
  cases hsingle : singleSession 100000000 t.calls with
  | error e =>
      rw [hsingle] at hs
      cases hs
  | ok s' =>
      rw [hsingle] at hs
      obtain rfl : s' = s := Option.some.inj hs
      have hsame := hcons.lookup s' hsingle 1000000000
      rw [hone, htwo] at hsame
      exact absurd hsame (by decide)

end Calls

end KogmoRtdb
