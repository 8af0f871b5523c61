import KogmoRtdb.Lib.Extent
import KogmoRtdb.Record.AviCodec
import KogmoRtdb.Record.AviIdx

/-!
# The buffers of the player

What the read loop of `kogmo_rtdb_play.c` stores with a length that it took from the file. The
base buffer has `PREBUFSZ` bytes in front of the chunk's data, so that the header of a frame, kept
in `pre_buf` until then, can be put before it. The byte that makes a length even is read too, but
no check of a capacity counts it; and a new size of the buffer is computed as an `int`.
`playSafe_iff` says which files and initial sizes go wrong.

Where the player goes in the file, whether an object is played and whether there is memory are
inputs. It also stores into the base buffer in front of `buf` and behind the header of an RTDB
chunk, and, for a frame whose kept header is shorter than 12 bytes, in the first 12 bytes at `buf`.
Of these only the oid of a chunk shorter than its own header is read, whose copy goes wrong then.
-/

namespace KogmoRtdb

/-! ## The buffers -/

/-- Places of a buffer that are accessed, and its size. The argument of `realloc` is the size of
the buffer it makes. -/
structure BufAccess where
  extent : Extent
  cap : Int
  deriving DecidableEq

def BufAccess.Ok (a : BufAccess) : Prop := a.extent.Inside a.cap

instance (a : BufAccess) : Decidable a.Ok := inferInstanceAs (Decidable (a.extent.Inside a.cap))

/-- `PREBUFSZ`: a base and the rest of an image's header. -/
abbrev prebufsz : Nat := 24 + 24

/-- `MINBUFSZ`. -/
def minbufsz : Nat := aviHeaderSize - prebufsz

/-- `base_bufsz` before the loop. -/
def initBufsz (initbufsz : BitVec 32) : BitVec 32 :=
  (if initbufsz < BitVec.ofNat 32 minbufsz then BitVec.ofNat 32 minbufsz else initbufsz) +
    BitVec.ofNat 32 prebufsz

/-- The variables of the loop: `base` is the base buffer as far as chunks were read into it. -/
structure PlayReader where
  fp : FilePtr
  feof : Bool
  baseBufsz : BitVec 32
  base : Mem
  nextPrebufSize : Int
  rawnextOid : BitVec 32

/-- Before the first pass, with the bytes that `malloc` gave. -/
def playStart (file : List Byte) (initbufsz : BitVec 32) (base : Mem) : PlayReader :=
  ⟨⟨file, 0⟩, false, initBufsz initbufsz, base, 0, 0⟩

namespace PlayReader

variable (s : PlayReader)

def cap : Int := s.baseBufsz.toNat

/-- `base_bufsz-PREBUFSZ`, which is unsigned. -/
def maxsize : BitVec 32 := s.baseBufsz - BitVec.ofNat 32 prebufsz

/-- The answer of `aviraw_fget_chunkdata`, with the data stored from `start` on, complete or
not. -/
def fget (start : Nat) (cb maxsize : BitVec 32) : Int × PlayReader :=
  let data := if maxsize < cb then [] else (s.fp.fread (padCb cb).toNat).2.1
  let got := avirawFgetChunkdata cb maxsize s.fp
  (got.1, { s with fp := got.2.2, base := s.base.copy start (Mem.ofBytes data) 0 data.length })

def fgetAccess (start : Nat) (cb maxsize : BitVec 32) : List BufAccess :=
  if maxsize < cb then [] else [⟨⟨start, (padCb cb).toNat⟩, s.cap⟩]

end PlayReader

/-! ## The loop -/

/-- What is accessed, and the variables then unless the program has ended. -/
abbrev PlayStep := List BufAccess × Option PlayReader

def PlayStep.andThen (r : PlayStep) (f : PlayReader → PlayStep) : PlayStep :=
  match r.2 with
  | none => r
  | some s => (r.1 ++ (f s).1, (f s).2)

/-- `"LIST"`, `"RIFF"` and `"AVI "`. -/
def fccList : List Byte := [0x4c, 0x49, 0x53, 0x54]
def fccRiff : List Byte := [0x52, 0x49, 0x46, 0x46]
def fccAvi : List Byte := [0x41, 0x56, 0x49, 0x20]

/-- What a pass finds: whether `realloc` has memory, whether an RTDB chunk comes to the `switch`,
and whether `map_querydest` knows its object. -/
structure PlayEnv where
  memory : Bool
  passes : Bool
  mapped : Bool

def IsOpened (fcc listfcc : List Byte) : Prop :=
  fcc = fccRiff ∧ listfcc = fccAvi ∨ fcc = fccList ∧ listfcc = fccMovi

instance (fcc listfcc : List Byte) : Decidable (IsOpened fcc listfcc) :=
  inferInstanceAs (Decidable (_ ∨ _))

def playList (fcc : List Byte) (cb : BitVec 32) (s : PlayReader) : PlayStep :=
  let (ret, listfcc, fp) := avirawFgetChunkdata 4 4 s.fp
  let s := { s with fp := fp }
  let access : BufAccess := ⟨⟨0, 4⟩, 4⟩
  if ret < 0 then ([access], none)
  else if IsOpened fcc listfcc then ([access], some s)
  else if s.baseBufsz < cb - 4 then ([access], none)
  else
    let (ret, s') := s.fget 0 (cb - 4) s.baseBufsz
    (access :: s.fgetAccess 0 (cb - 4) s.baseBufsz, if ret < 0 then none else some s')

/-- `new_base_bufsz`. -/
def newBufsz (cb : BitVec 32) : Int := wrap32 (cb.toInt + prebufsz)

/-- Makes room for a chunk. There is no buffer of no or of a negative size. -/
def playGrow (memory : Bool) (cb : BitVec 32) (s : PlayReader) : PlayStep :=
  if s.maxsize < cb then
    let size := newBufsz cb
    ([⟨⟨0, size⟩, size⟩],
      if size ≤ 0 ∨ memory = false then none
      else some { s with baseBufsz := BitVec.ofInt 32 size })
  else ([], some s)

/-- `KOGMO_RTDB_STREAM_TYPE_UPDOBJ_NEXT`. -/
def typeUpdobjNext : BitVec 32 := 4

/-- `rtdbchunk->oid` and `rtdbchunk->type`: the chunk's own header is 8 bytes before `buf`. -/
def PlayReader.chunkOid (s : PlayReader) : BitVec 32 := s.base.read32 (prebufsz - 8 + 16)
def PlayReader.chunkType (s : PlayReader) : BitVec 32 := s.base.read32 (prebufsz - 8 + 20)

/-- An RTDB chunk. Only the header of a frame is copied. -/
def playRtdb (env : PlayEnv) (size : Int) (s : PlayReader) : PlayStep :=
  let size := size - (24 - 8)
  if env.passes ∧ s.chunkType = typeUpdobjNext ∧ env.mapped then
    if prebufsz < size then ([], none)
    else
      ([⟨⟨0, size⟩, prebufsz⟩, ⟨⟨prebufsz - 8 + 24, size⟩, s.cap⟩],
        some { s with rawnextOid := s.chunkOid, nextPrebufSize := size })
  else ([], some s)

def playFrame (s : PlayReader) : PlayStep :=
  if s.rawnextOid = 0 then ([], some s)
  else
    ([⟨⟨prebufsz - s.nextPrebufSize, s.nextPrebufSize⟩, s.cap⟩,
        ⟨⟨0, s.nextPrebufSize⟩, prebufsz⟩],
      some { s with rawnextOid := 0 })

def playRead (env : PlayEnv) (fcc : List Byte) (size : Int) (s : PlayReader) : PlayStep :=
  if size < 0 then ([], some { s with feof := true })
  else if fcc = fccRtdb then playRtdb env size s
  else if isStreamFcc fcc then playFrame s
  else ([], some s)

def playData (env : PlayEnv) (fcc : List Byte) (cb : BitVec 32) (s : PlayReader) : PlayStep :=
  (playGrow env.memory cb s).andThen fun s =>
    let got := s.fget prebufsz cb s.maxsize
    PlayStep.andThen (s.fgetAccess prebufsz cb s.maxsize, some got.2) (playRead env fcc got.1)

/-- A pass: the header of a chunk, and what follows it. `feof` also says that the loop was
left. -/
def playPass (env : PlayEnv) (s : PlayReader) : PlayStep :=
  let (ret, fcc, cb, fp) := avirawFgetChunkheader s.fp
  let s := { s with fp := fp }
  PlayStep.andThen ([⟨⟨0, 8⟩, 8⟩], some s) fun s =>
    if ret ≠ 0 then ([], some { s with feof := true })
    else if fcc = fccList ∨ fcc = fccRiff then playList fcc cb s
    else playData env fcc cb s

/-- A pass, a seek, or a new run of the outer loop, which opens the file again. -/
inductive PlayInput where
  | pass (env : PlayEnv)
  | seek (pos : Nat)
  | again

def playStep (s : PlayReader) : PlayInput → PlayStep
  | .pass env => if s.feof then ([], some s) else playPass env s
  | .seek pos => ([], some { s with fp := { s.fp with pos := pos } })
  | .again =>
      ([], some { s with
        fp := { s.fp with pos := 0 }, feof := false, nextPrebufSize := 0, rawnextOid := 0 })

def playRun : List PlayInput → PlayReader → List BufAccess
  | [], _ => []
  | input :: inputs, s => ((playStep s input).andThen fun s => (playRun inputs s, none)).1

def PlaySafe (inputs : List PlayInput) (s : PlayReader) : Prop :=
  ∀ a ∈ playRun inputs s, a.Ok

/-! ## What goes wrong -/

/-- The rest of a list has an odd length, just as large as the buffer. -/
def ListOverruns (rest : BitVec 32) (s : PlayReader) : Prop :=
  rest.toNat % 2 = 1 ∧ rest = s.baseBufsz ∧ rest.toNat + 1 < 2 ^ 32

/-- The new size is not the sum, or has no room for the byte that makes the length even. -/
def GrowFits (memory : Bool) (cb : BitVec 32) : Prop :=
  cb.toNat + prebufsz < 2 ^ 31 ∧ (memory → cb.toNat % 2 = 0) ∨
    2 ^ 32 - prebufsz ≤ cb.toNat ∧ (memory → cb.toNat = 2 ^ 32 - prebufsz)

/-- Without growth: the buffer has the bytes in front of the data, and the length is not odd and
just as large as what is left. -/
def ReadFits (cb : BitVec 32) (s : PlayReader) : Prop :=
  prebufsz ≤ s.baseBufsz.toNat ∧ ¬ (cb.toNat % 2 = 1 ∧ cb = s.maxsize)

/-- A chunk of the RTDB is shorter than its own header, and with what the buffer had before it is
the header of a frame that is played. -/
def RtdbTooShort (env : PlayEnv) (fcc : List Byte) (cb : BitVec 32) (s : PlayReader) : Prop :=
  cb.toNat < 24 - 8 ∧ fcc = fccRtdb ∧ (s.fp.fread (padCb cb).toNat).1 = 1 ∧
    (s.fget prebufsz cb cb).2.chunkType = typeUpdobjNext ∧ env.passes ∧ env.mapped

def DataFits (env : PlayEnv) (fcc : List Byte) (cb : BitVec 32) (s : PlayReader) : Prop :=
  (if s.maxsize < cb then GrowFits env.memory cb else ReadFits cb s) ∧
    ¬ ((s.maxsize < cb → env.memory) ∧ RtdbTooShort env fcc cb s)

def PassFits (env : PlayEnv) (s : PlayReader) : Prop :=
  let (ret, fcc, cb, fp) := avirawFgetChunkheader s.fp
  let s := { s with fp := fp }
  ret = 0 →
    if fcc = fccList ∨ fcc = fccRiff then
      let (ret, listfcc, _) := avirawFgetChunkdata 4 4 fp
      0 ≤ ret → ¬ IsOpened fcc listfcc → ¬ ListOverruns (cb - 4) s
    else DataFits env fcc cb s

def InputFits (s : PlayReader) : PlayInput → Prop
  | .pass env => s.feof = false → PassFits env s
  | .seek _ => True
  | .again => True

def PlayFits : List PlayInput → PlayReader → Prop
  | [], _ => True
  | input :: inputs, s =>
      InputFits s input ∧ ∀ s', (playStep s input).2 = some s' → PlayFits inputs s'

/-! ## Steps -/

def PlayStep.Ok (r : PlayStep) : Prop := ∀ a ∈ r.1, a.Ok

namespace PlayStep

variable {r : PlayStep} {f : PlayReader → PlayStep}

theorem ok_andThen : (r.andThen f).Ok ↔ r.Ok ∧ ∀ s, r.2 = some s → (f s).Ok := by
  obtain ⟨accesses, state⟩ := r
  cases state with
  | none => simp [andThen, Ok]
  | some s => simp [andThen, Ok, or_imp, forall_and]

theorem ok_nil (state : Option PlayReader) : Ok ([], state) :=
  fun _ ha => absurd ha List.not_mem_nil

theorem ok_singleton {a : BufAccess} {state : Option PlayReader} : Ok ([a], state) ↔ a.Ok :=
  List.forall_mem_singleton

theorem andThen_some {r : PlayStep} {s' : PlayReader} (h : (r.andThen f).2 = some s') :
    ∃ s, r.2 = some s ∧ (f s).2 = some s' := by
  obtain ⟨accesses, state⟩ := r
  cases state with
  | none => cases h
  | some s => exact ⟨s, rfl, h⟩

end PlayStep

/-- What was kept of a frame's header fits into `pre_buf`. -/
def PreFits (s : PlayReader) : Prop := 0 ≤ s.nextPrebufSize ∧ s.nextPrebufSize ≤ prebufsz

/-! ### Reading the data -/

/-- `aviraw_fget_chunkdata` answers the length of a complete chunk of less than 2 GB. -/
theorem not_avirawFgetChunkdata_neg {cb maxsize : BitVec 32} {fp : FilePtr}
    (hle : ¬ maxsize < cb) :
    ¬ (avirawFgetChunkdata cb maxsize fp).1 < 0 ↔
      (fp.fread (padCb cb).toNat).1 = 1 ∧ cb.toNat < 2 ^ 31 := by
  have hlt := cb.isLt
  rw [avirawFgetChunkdata, if_neg hle]
  dsimp only
  by_cases hread : (fp.fread (padCb cb).toNat).1 = 1
  · rw [if_neg (not_not.mpr hread), and_iff_right hread, BitVec.toInt_eq_toNat_cond]
    dsimp only
    split <;> omega
  · rw [if_pos hread]
    exact ⟨fun h => absurd (show (-1 : Int) < 0 by decide) h, fun h => absurd h.1 hread⟩

theorem avirawFgetChunkdata_fst {cb maxsize : BitVec 32} {fp : FilePtr}
    (h : ¬ (avirawFgetChunkdata cb maxsize fp).1 < 0) :
    (avirawFgetChunkdata cb maxsize fp).1 = cb.toNat := by
  rw [avirawFgetChunkdata] at h ⊢
  split at h
  · exact absurd (show (-1 : Int) < 0 by decide) h
  rename_i hle
  rw [if_neg hle]
  dsimp only at h ⊢
  split at h
  · exact absurd (show (-1 : Int) < 0 by decide) h
  rename_i hread
  rw [if_neg hread]
  dsimp only at h ⊢
  exact BitVec.toInt_eq_toNat_of_lt (by
    rw [BitVec.toInt_eq_toNat_cond] at h
    have hlt := cb.isLt
    split at h <;> omega)

namespace PlayReader

variable {s : PlayReader} {start : Nat} {cb maxsize : BitVec 32}

/-- What is stored does not depend on the size of a buffer that is large enough. -/
theorem chunkType_fget (hle : ¬ maxsize < cb) (b : BitVec 32) :
    ({ s with baseBufsz := b }.fget start cb maxsize).2.chunkType =
      (s.fget start cb cb).2.chunkType := by
  simp only [fget, if_neg hle, if_neg (BitVec.lt_irrefl cb)]
  rfl

theorem fgetAccess_ok (hle : ¬ maxsize < cb) {state : Option PlayReader} :
    PlayStep.Ok (s.fgetAccess start cb maxsize, state) ↔
      (start : Int) + (padCb cb).toNat ≤ s.cap := by
  rw [fgetAccess, if_neg hle, PlayStep.ok_singleton, BufAccess.Ok]
  dsimp only
  rw [Extent.inside_iff]
  omega

end PlayReader

/-- Which lengths fit with the byte that makes them even. -/
theorem pad_le_iff {n : Nat} {cb : BitVec 32} (hle : cb.toNat ≤ n) :
    (padCb cb).toNat ≤ n ↔ ¬ (cb.toNat % 2 = 1 ∧ cb.toNat = n ∧ cb.toNat + 1 < 2 ^ 32) := by
  have hlt := cb.isLt
  rw [toNat_padCb, length_padding]
  omega

/-! ### A chunk that was read -/

variable {env : PlayEnv} {fcc : List Byte} {size : Int} {s : PlayReader}

/-- The header of a frame is copied in full, unless its length is negative. -/
theorem playRtdb_ok_iff (hroom : prebufsz + size ≤ s.cap) :
    (playRtdb env size s).Ok ↔
      ¬ (size < 24 - 8 ∧ s.chunkType = typeUpdobjNext ∧ env.passes ∧ env.mapped) := by
  rw [playRtdb]
  by_cases hnext : env.passes ∧ s.chunkType = typeUpdobjNext ∧ env.mapped
  · obtain ⟨hpasses, htype, hmapped⟩ := hnext
    rw [if_pos ⟨hpasses, htype, hmapped⟩, and_iff_left ⟨htype, hpasses, hmapped⟩]
    by_cases hlong : prebufsz < size - (24 - 8)
    · rw [if_pos hlong]
      refine iff_of_true (PlayStep.ok_nil _) ?_
      unfold prebufsz at hlong
      omega
    · rw [if_neg hlong]
      simp only [PlayStep.Ok, List.forall_mem_cons, BufAccess.Ok, Extent.inside_iff]
      unfold prebufsz at hlong hroom ⊢
      constructor
      · intro h
        have := h.1
        omega
      · intro h
        refine ⟨by omega, by omega, fun a ha => absurd ha List.not_mem_nil⟩
  · rw [if_neg hnext]
    exact iff_of_true (PlayStep.ok_nil _) fun h => hnext ⟨h.2.2.1, h.2.1, h.2.2.2⟩

theorem playFrame_ok (hpre : PreFits s) (hroom : prebufsz ≤ s.cap) : (playFrame s).Ok := by
  obtain ⟨hnonneg, hle⟩ := hpre
  rw [playFrame]
  split
  · exact PlayStep.ok_nil _
  · simp only [PlayStep.Ok, List.forall_mem_cons, BufAccess.Ok, Extent.inside_iff]
    refine ⟨by omega, by omega, fun a ha => absurd ha List.not_mem_nil⟩

theorem playRead_ok_iff (hpre : PreFits s) (hroom : prebufsz + size ≤ s.cap) :
    (playRead env fcc size s).Ok ↔
      ¬ (¬ size < 0 ∧ size < 24 - 8 ∧ fcc = fccRtdb ∧ s.chunkType = typeUpdobjNext ∧
        env.passes ∧ env.mapped) := by
  rw [playRead]
  by_cases hsize : size < 0
  · rw [if_pos hsize]
    exact iff_of_true (PlayStep.ok_nil _) fun h => h.1 hsize
  rw [if_neg hsize, and_iff_right hsize]
  by_cases hrtdb : fcc = fccRtdb
  · rw [if_pos hrtdb, and_iff_right hrtdb]
    exact playRtdb_ok_iff hroom
  · rw [if_neg hrtdb]
    refine iff_of_true ?_ fun h => hrtdb h.2.1
    split
    · exact playFrame_ok hpre (by omega)
    · exact PlayStep.ok_nil _

/-- A chunk for which there is room, from the reading on. -/
theorem fget_ok_iff {cb maxsize : BitVec 32} (hle : ¬ maxsize < cb) (hpre : PreFits s)
    (hroom : (prebufsz : Int) + (padCb cb).toNat ≤ s.cap) :
    (playRead env fcc (s.fget prebufsz cb maxsize).1 (s.fget prebufsz cb maxsize).2).Ok ↔
      ¬ RtdbTooShort env fcc cb s := by
  have hneg : ¬ (s.fget prebufsz cb maxsize).1 < 0 ↔ _ := not_avirawFgetChunkdata_neg hle
  have hpad := toNat_padCb cb
  have hlt := cb.isLt
  rw [length_padding] at hpad
  by_cases hsize : (s.fget prebufsz cb maxsize).1 < 0
  · have hshort : ¬ RtdbTooShort env fcc cb s := fun h =>
      hneg.mpr ⟨h.2.2.1, Nat.lt_trans h.1 (by decide)⟩ hsize
    refine iff_of_true ?_ hshort
    rw [playRead, if_pos hsize]
    exact PlayStep.ok_nil _
  · have hfst : (s.fget prebufsz cb maxsize).1 = cb.toNat := avirawFgetChunkdata_fst hsize
    obtain ⟨hread, hcb⟩ := hneg.mp hsize
    have htype : (s.fget prebufsz cb maxsize).2.chunkType = _ := s.chunkType_fget hle s.baseBufsz
    rw [playRead_ok_iff hpre (s := (s.fget prebufsz cb maxsize).2)
      (show _ ≤ s.cap by rw [hfst]; omega), RtdbTooShort, htype, hfst]
    constructor
    · rintro h ⟨hlt, hfcc, -, hrest⟩
      exact h ⟨by omega, by omega, hfcc, hrest⟩
    · rintro h ⟨-, hlt, hfcc, hrest⟩
      exact h ⟨by omega, hfcc, hread, hrest⟩

/-! ### Growth -/

theorem PlayReader.toNat_maxsize (s : PlayReader) :
    s.maxsize.toNat = (2 ^ 32 - prebufsz + s.baseBufsz.toNat) % 2 ^ 32 := BitVec.toNat_sub ..

/-- Where the buffer is not to grow, there is room for the chunk unless the subtraction or the
byte behind it is what deceives. -/
theorem room_iff_readFits {cb : BitVec 32} (h : ¬ s.maxsize < cb) :
    (prebufsz : Int) + (padCb cb).toNat ≤ s.cap ↔ ReadFits cb s := by
  have hmax := s.toNat_maxsize
  have hbase := s.baseBufsz.isLt
  have hle : cb.toNat ≤ s.maxsize.toNat := Nat.not_lt.mp h
  have hpad := pad_le_iff hle
  rw [ReadFits, PlayReader.cap, ← BitVec.toNat_inj]
  unfold prebufsz at *
  omega

/-- The new size is that of the length as a signed number. -/
theorem newBufsz_cases (cb : BitVec 32) :
    cb.toNat + prebufsz < 2 ^ 31 ∧ newBufsz cb = cb.toNat + prebufsz ∨
      2 ^ 31 ≤ cb.toNat + prebufsz ∧ cb.toNat < 2 ^ 32 - prebufsz ∧ newBufsz cb < 0 ∨
      2 ^ 32 - prebufsz ≤ cb.toNat ∧ newBufsz cb = cb.toNat + prebufsz - 2 ^ 32 := by
  have hlt := cb.isLt
  have hint := BitVec.toInt_eq_toNat_cond cb
  have hmod := Int.bmod_def (cb.toInt + prebufsz) (2 ^ 32)
  rw [newBufsz, wrap32, hmod]
  unfold prebufsz at *
  split at hint <;> rw [hint] <;> split <;> omega

theorem toNat_ofInt_newBufsz {cb : BitVec 32} (h : 0 ≤ newBufsz cb) :
    ((BitVec.ofInt 32 (newBufsz cb)).toNat : Int) = newBufsz cb := by
  have hlt : newBufsz cb < 2 ^ 31 := by
    rcases newBufsz_cases cb with h | h | h <;> unfold prebufsz at * <;> omega
  rw [BitVec.toNat_ofInt]
  omega

/-- A buffer that was made for a chunk has the chunk's length behind `PREBUFSZ`. -/
theorem maxsize_newBufsz (s : PlayReader) {cb : BitVec 32} (h : 0 ≤ newBufsz cb) :
    { s with baseBufsz := BitVec.ofInt 32 (newBufsz cb) }.maxsize = cb := by
  refine BitVec.eq_of_toNat_eq ?_
  have hcases := newBufsz_cases cb
  have hnat := toNat_ofInt_newBufsz h
  have hlt := cb.isLt
  rw [PlayReader.toNat_maxsize]
  unfold prebufsz at *
  dsimp only
  omega

theorem growFits_iff (memory : Bool) (cb : BitVec 32) :
    GrowFits memory cb ↔ 0 ≤ newBufsz cb ∧
      (0 < newBufsz cb → memory → (prebufsz : Int) + (padCb cb).toNat ≤ newBufsz cb) := by
  have hcases := newBufsz_cases cb
  have hlt := cb.isLt
  have hpad := toNat_padCb cb
  rw [length_padding] at hpad
  rw [GrowFits]
  unfold prebufsz at *
  cases memory with
  | false => simp only [Bool.false_eq_true, false_implies, implies_true, and_true]; omega
  | true => simp only [forall_const]; omega

/-! ### A chunk -/

/-- A chunk that needs no more growth is read and used in its bounds. -/
theorem readData_ok_iff {cb maxsize : BitVec 32} (hle : ¬ maxsize < cb) (hpre : PreFits s) :
    (PlayStep.andThen (s.fgetAccess prebufsz cb maxsize, some (s.fget prebufsz cb maxsize).2)
        (playRead env fcc (s.fget prebufsz cb maxsize).1)).Ok ↔
      (prebufsz : Int) + (padCb cb).toNat ≤ s.cap ∧ ¬ RtdbTooShort env fcc cb s := by
  rw [PlayStep.ok_andThen, PlayReader.fgetAccess_ok hle]
  refine and_congr_right fun hroom => ?_
  rw [← fget_ok_iff hle hpre hroom]
  exact ⟨fun h => h _ rfl, fun h s' hs' => Option.some.inj hs' ▸ h⟩

theorem rtdbTooShort_baseBufsz {cb : BitVec 32} (b : BitVec 32) :
    RtdbTooShort env fcc cb { s with baseBufsz := b } ↔ RtdbTooShort env fcc cb s := by
  rw [RtdbTooShort, RtdbTooShort, s.chunkType_fget (BitVec.lt_irrefl cb) b]

/-- The program ends in growing: for a lack of memory, or because of a size that is far from that
of a short chunk. -/
theorem not_tooShort_of_dead {memory : Bool} {cb : BitVec 32}
    (hdead : newBufsz cb ≤ 0 ∨ memory = false) :
    ¬ (memory ∧ RtdbTooShort env fcc cb s) := by
  rintro ⟨hmem, hshort, -⟩
  rcases hdead with hle | hmem'
  · have hcases := newBufsz_cases cb
    unfold prebufsz at hcases
    omega
  · exact absurd (hmem ▸ hmem') (by decide)

theorem playData_ok_of_grow {cb : BitVec 32} (hpre : PreFits s) (hgrow : s.maxsize < cb) :
    (playData env fcc cb s).Ok ↔
      GrowFits env.memory cb ∧ ¬ (env.memory ∧ RtdbTooShort env fcc cb s) := by
  rw [playData, PlayStep.ok_andThen, playGrow, growFits_iff env.memory cb, if_pos hgrow,
    PlayStep.ok_singleton, BufAccess.Ok]
  dsimp only
  rw [Extent.inside_zero, and_iff_left (Int.le_refl _), and_assoc]
  refine and_congr_right fun hnonneg => ?_
  by_cases hdead : newBufsz cb ≤ 0 ∨ env.memory = false
  · rw [if_pos hdead]
    refine iff_of_true (fun s' h => by cases h) ⟨fun hpos hmem => ?_, not_tooShort_of_dead hdead⟩
    rcases hdead with hle | hmem'
    · exact absurd hpos (Int.not_lt.mpr hle)
    · exact absurd (hmem ▸ hmem') (by decide)
  · rw [if_neg hdead]
    obtain ⟨hpos, hmem⟩ := not_or.mp hdead
    have hmem : env.memory = true := eq_true_of_ne_false hmem
    let s' : PlayReader := { s with baseBufsz := BitVec.ofInt 32 (newBufsz cb) }
    have hmax : ¬ s'.maxsize < cb := by
      rw [maxsize_newBufsz s hnonneg]
      exact BitVec.lt_irrefl cb
    have hcap : s'.cap = newBufsz cb := toNat_ofInt_newBufsz hnonneg
    have hread : _ ↔ _ ∧ ¬ RtdbTooShort env fcc cb s' := readData_ok_iff hmax hpre
    rw [hcap, rtdbTooShort_baseBufsz] at hread
    constructor
    · intro h
      obtain ⟨hroom, hshort⟩ := hread.mp (h s' rfl)
      exact ⟨fun _ _ => hroom, fun h => hshort h.2⟩
    · rintro ⟨hroom, hshort⟩ s₁ hs₁
      rw [← Option.some.inj hs₁]
      exact hread.mpr ⟨hroom (Int.not_le.mp hpos) hmem, fun h => hshort ⟨hmem, h⟩⟩

theorem playData_ok_of_room {cb : BitVec 32} (hpre : PreFits s) (hroom : ¬ s.maxsize < cb) :
    (playData env fcc cb s).Ok ↔ ReadFits cb s ∧ ¬ RtdbTooShort env fcc cb s := by
  have hread : _ ↔ _ ∧ ¬ RtdbTooShort env fcc cb s := readData_ok_iff hroom hpre
  rw [room_iff_readFits hroom] at hread
  rw [playData, PlayStep.ok_andThen, playGrow, if_neg hroom, and_iff_right (PlayStep.ok_nil _),
    ← hread]
  exact ⟨fun h => h s rfl, fun h s' hs' => Option.some.inj hs' ▸ h⟩

theorem playData_ok_iff {cb : BitVec 32} (hpre : PreFits s) :
    (playData env fcc cb s).Ok ↔ DataFits env fcc cb s := by
  rw [DataFits]
  by_cases hgrow : s.maxsize < cb
  · rw [playData_ok_of_grow hpre hgrow, if_pos hgrow, forall_prop_of_true hgrow]
  · rw [playData_ok_of_room hpre hgrow, if_neg hgrow, forall_prop_of_false hgrow, true_and]

/-! ### A list -/

theorem playList_ok_iff {cb : BitVec 32} :
    (playList fcc cb s).Ok ↔
      (0 ≤ (avirawFgetChunkdata 4 4 s.fp).1 →
        ¬ IsOpened fcc (avirawFgetChunkdata 4 4 s.fp).2.1 → ¬ ListOverruns (cb - 4) s) := by
  have haccess : BufAccess.Ok ⟨⟨0, 4⟩, 4⟩ := by decide
  rw [playList]
  dsimp only
  split
  · rename_i hret
    exact iff_of_true (PlayStep.ok_singleton.mpr haccess)
      fun h => absurd hret (Int.not_lt.mpr h)
  rename_i hret
  rw [forall_prop_of_true (Int.not_lt.mp hret)]
  split
  · rename_i hopened
    exact iff_of_true (PlayStep.ok_singleton.mpr haccess) fun h => absurd hopened h
  rename_i hopened
  rw [forall_prop_of_true hopened]
  split
  · rename_i hlarge
    refine iff_of_true (PlayStep.ok_singleton.mpr haccess) fun h => ?_
    rw [h.2.1] at hlarge
    exact BitVec.lt_irrefl _ hlarge
  rename_i hlarge
  have hpad := pad_le_iff (Nat.not_lt.mp hlarge)
  let s' : PlayReader := { s with fp := (avirawFgetChunkdata 4 4 s.fp).2.2 }
  have hget : PlayStep.Ok (s'.fgetAccess 0 (cb - 4) s.baseBufsz, none) ↔ _ :=
    PlayReader.fgetAccess_ok hlarge
  have hcap : s'.cap = s.baseBufsz.toNat := rfl
  simp only [PlayStep.Ok, List.forall_mem_cons] at hget ⊢
  rw [and_iff_right haccess, hget, ListOverruns, ← BitVec.toNat_inj, ← hpad, hcap]
  omega

/-! ### A pass -/

theorem playPass_ok_iff (hpre : PreFits s) : (playPass env s).Ok ↔ PassFits env s := by
  rcases hheader : avirawFgetChunkheader s.fp with ⟨ret, fcc, cb, fp⟩
  have haccess : PlayStep.Ok ([⟨⟨0, 8⟩, 8⟩], some { s with fp := fp }) :=
    PlayStep.ok_singleton.mpr (by decide)
  simp only [playPass, PassFits, hheader, PlayStep.ok_andThen, and_iff_right haccess,
    Option.some.injEq, forall_eq']
  by_cases hret : ret = 0
  · rw [if_neg (not_not.mpr hret), forall_prop_of_true hret]
    split
    · exact playList_ok_iff
    · exact playData_ok_iff hpre
  · rw [if_pos hret, forall_prop_of_false hret, iff_true]
    exact PlayStep.ok_nil _

/-- What is kept of a header fits after a step whose accesses were in their buffers. -/
def PlayStep.Keeps (r : PlayStep) : Prop := r.Ok → ∀ s, r.2 = some s → PreFits s

theorem PlayStep.Keeps.andThen {r : PlayStep} {f : PlayReader → PlayStep} (h : r.Keeps)
    (hf : ∀ s, PreFits s → (f s).Keeps) : (r.andThen f).Keeps := by
  intro hok s' hs'
  obtain ⟨hr, hrest⟩ := PlayStep.ok_andThen.mp hok
  obtain ⟨s, hs, hs'⟩ := PlayStep.andThen_some hs'
  exact hf s (h hr s hs) (hrest s hs) s' hs'

theorem PlayStep.keeps_some {accesses : List BufAccess} (hpre : PreFits s) :
    Keeps (accesses, some s) := fun _ _ hs => Option.some.inj hs ▸ hpre

theorem PlayStep.keeps_none {accesses : List BufAccess} : Keeps (accesses, none) :=
  fun _ _ hs => by cases hs

theorem playRtdb_keeps (hpre : PreFits s) : (playRtdb env size s).Keeps := by
  rw [playRtdb]
  split
  · split
    · exact PlayStep.keeps_none
    · intro hok s' hs'
      cases hs'
      have hin := (List.forall_mem_cons.mp hok).1
      exact ⟨hin.len_nonneg, (Extent.inside_zero.mp hin).2⟩
  · exact PlayStep.keeps_some hpre

theorem playRead_keeps (hpre : PreFits s) : (playRead env fcc size s).Keeps := by
  rw [playRead]
  split
  · exact PlayStep.keeps_some hpre
  split
  · exact playRtdb_keeps hpre
  split
  · rw [playFrame]
    split <;> exact PlayStep.keeps_some hpre
  · exact PlayStep.keeps_some hpre

theorem playData_keeps {cb : BitVec 32} (hpre : PreFits s) : (playData env fcc cb s).Keeps := by
  refine PlayStep.Keeps.andThen ?_ fun s hs =>
    PlayStep.Keeps.andThen (PlayStep.keeps_some hs) fun s hs => playRead_keeps hs
  rw [playGrow]
  split
  · dsimp only
    split
    · exact PlayStep.keeps_none
    · exact PlayStep.keeps_some hpre
  · exact PlayStep.keeps_some hpre

theorem playList_keeps {cb : BitVec 32} (hpre : PreFits s) : (playList fcc cb s).Keeps := by
  rw [playList]
  dsimp only
  split
  · exact PlayStep.keeps_none
  split
  · exact PlayStep.keeps_some hpre
  split
  · exact PlayStep.keeps_none
  split
  · exact PlayStep.keeps_none
  · exact PlayStep.keeps_some hpre

theorem playPass_keeps (hpre : PreFits s) : (playPass env s).Keeps := by
  rcases hheader : avirawFgetChunkheader s.fp with ⟨ret, fcc, cb, fp⟩
  simp only [playPass, hheader]
  refine PlayStep.Keeps.andThen (PlayStep.keeps_some hpre) fun s hs => ?_
  split
  · exact PlayStep.keeps_some hs
  split
  · exact playList_keeps hs
  · exact playData_keeps hs

/-! ## Runs -/

theorem playStep_ok_iff (hpre : PreFits s) (input : PlayInput) :
    (playStep s input).Ok ↔ InputFits s input := by
  cases input with
  | pass env =>
      rw [playStep, InputFits]
      split
      · rename_i hfeof
        exact iff_of_true (PlayStep.ok_nil _) fun h => absurd (hfeof.symm.trans h) (by decide)
      · rename_i hfeof
        rw [forall_prop_of_true (eq_false_of_ne_true hfeof)]
        exact playPass_ok_iff hpre
  | seek pos => exact iff_of_true (PlayStep.ok_nil _) trivial
  | again => exact iff_of_true (PlayStep.ok_nil _) trivial

theorem playStep_keeps (hpre : PreFits s) (input : PlayInput) : (playStep s input).Keeps := by
  cases input with
  | pass env =>
      rw [playStep]
      split
      · exact PlayStep.keeps_some hpre
      · exact playPass_keeps hpre
  | seek pos => exact PlayStep.keeps_some hpre
  | again => exact PlayStep.keeps_some ⟨Int.le_refl 0, Int.natCast_nonneg _⟩

theorem playSafe_cons (input : PlayInput) (inputs : List PlayInput) (s : PlayReader) :
    PlaySafe (input :: inputs) s ↔
      (playStep s input).Ok ∧ ∀ s', (playStep s input).2 = some s' → PlaySafe inputs s' :=
  PlayStep.ok_andThen

theorem playSafe_iff_of_preFits : ∀ (inputs : List PlayInput) (s : PlayReader), PreFits s →
    (PlaySafe inputs s ↔ PlayFits inputs s)
  | [], _, _ => iff_of_true (fun _ ha => absurd ha List.not_mem_nil) trivial
  | input :: inputs, s, hpre => by
      have hok := playStep_ok_iff hpre input
      rw [playSafe_cons, PlayFits, hok]
      refine and_congr_right fun hfits => forall_congr' fun s' => imp_congr_right fun hs' => ?_
      exact playSafe_iff_of_preFits inputs s' (playStep_keeps hpre input (hok.mpr hfits) s' hs')

/-- The lengths with which the player reads, copies and grows stay inside its buffers, for every
file, initial size and run, if and only if every pass finds a chunk that fits. -/
theorem playSafe_iff (file : List Byte) (initbufsz : BitVec 32) (base : Mem)
    (inputs : List PlayInput) :
    PlaySafe inputs (playStart file initbufsz base) ↔
      PlayFits inputs (playStart file initbufsz base) :=
  playSafe_iff_of_preFits inputs _ ⟨Int.le_refl 0, Int.natCast_nonneg _⟩

/-- A chunk that is one byte larger than the smallest buffer has room for: it is read with the
byte that makes the length even. -/
theorem exists_not_playSafe :
    ¬ PlaySafe [.pass ⟨true, true, true⟩]
      (playStart (fccJunk ++ Mem.le32 (BitVec.ofNat 32 (minbufsz + 1))) 0 Mem.zero) := by
  intro h
  have hin := h ⟨⟨prebufsz, minbufsz + 2⟩, prebufsz + minbufsz + 1⟩ (by decide +kernel)
  exact absurd hin (by decide)

end KogmoRtdb
