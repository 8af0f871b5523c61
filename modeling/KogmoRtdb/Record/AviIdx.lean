import KogmoRtdb.Lib.Extent
import KogmoRtdb.Record.AviRaw

/-!
# The index of a recording

`kogmo_rtdb_avi_idx` walks over the chunks behind the header, writes an index chunk behind them
and corrects the header. With `-c` the first chunk gets an entry whatever it is, and is counted
for the stream that its second character names: `idxWalk_safe_iff` says when that is a stream.
An old index is stepped over and stays where it is, so that a second run appends another one:
`reindex_iff` says when it does not.

Offsets are those from the end of the header on.
-/

namespace KogmoRtdb

/-! ## The file -/

/-- `NSTREAMS`. -/
abbrev nstreams : Nat := 10

/-- `sizeof (avirawheader_t)`. -/
def aviHeaderSize : Nat := 12 + 12 + 64 + 12 + nstreams * (64 + 1072) + 12

/-- What the tool reads and writes of a stream's headers, and the bytes of all other fields. -/
structure AviStreamHeader where
  dwLength : BitVec 32
  dwQuality : BitVec 32
  biSize : BitVec 32
  biHeight : BitVec 32
  others : List Byte

/-- `avirawheader_t`. -/
structure AviRawHeader where
  fileCb : BitVec 32
  dwFlags : BitVec 32
  dwTotalFrames : BitVec 32
  strHeaders : Fin nstreams → AviStreamHeader
  listCb : BitVec 32
  typeFcc : List Byte
  others : List Byte

structure AviFile where
  header : AviRawHeader
  data : List Byte

def AviFile.size (file : AviFile) : Nat := aviHeaderSize + file.data.length

/-- `"movi"` and `"idx1"`. -/
def fccMovi : List Byte := [0x6d, 0x6f, 0x76, 0x69]
def fccIdx1 : List Byte := [0x69, 0x64, 0x78, 0x31]

/-! ## The walk -/

/-- `aviidxentry_t`. -/
structure AviIdxEntry where
  dwChunkId : List Byte
  dwFlags : BitVec 32
  dwOffset : BitVec 32
  dwSize : BitVec 32

/-- `AVIIF_KEYFRAME`. -/
def aviifKeyframe : BitVec 32 := 0x10

/-- `fcc[1]-'0'`. -/
def fccStreamnr (fcc : List Byte) : Int := (fcc.getD 1 0).toInt - 0x30

def IsStream (streamnr : Int) : Prop := 0 ≤ streamnr ∧ streamnr < nstreams

instance (streamnr : Int) : Decidable (IsStream streamnr) := inferInstanceAs (Decidable (_ ∧ _))

/-- `0Xdb`. -/
def isStreamFcc (fcc : List Byte) : Bool :=
  fcc.getD 0 0 = 0x30 && IsStream (fccStreamnr fcc) && fcc.getD 2 0 = 0x64 && fcc.getD 3 0 = 0x62

/-- The variables of the walk, and what it has accessed: where it read chunk headers, counted
from the start of the file, and which of the streams' counters it used. -/
structure IdxWalk where
  ptr : Nat
  entries : List AviIdxEntry
  entriesStream : Int → Nat
  stream9used : Bool
  reads : List Extent
  used : List Int

def idxStart : IdxWalk := ⟨0, [], fun _ => 0, false, [], []⟩

def idxAppend (fcc : List Byte) (cb : BitVec 32) (s : IdxWalk) : IdxWalk :=
  let streamnr := fccStreamnr fcc
  { s with
    entries := s.entries ++ [⟨fcc, aviifKeyframe, BitVec.ofNat 32 (s.ptr + 4), cb⟩]
    entriesStream := Function.update s.entriesStream streamnr (s.entriesStream streamnr + 1)
    stream9used := s.stream9used || fcc.getD 1 0 = 0x39
    used := streamnr :: s.used }

/-- The length of the data with the byte that makes it even. -/
def evenCb (cb : BitVec 32) : Nat := cb.toNat + cb.toNat % 2

def idxVisit (compat : Bool) (fcc : List Byte) (cb : BitVec 32) (s : IdxWalk) : IdxWalk :=
  let s := { s with reads := ⟨aviHeaderSize + s.ptr, 8⟩ :: s.reads }
  let s := if isStreamFcc fcc || compat && s.entries.isEmpty then idxAppend fcc cb s else s
  { s with ptr := s.ptr + evenCb cb + 8 }

def fccAt (data : List Byte) (ptr : Nat) : List Byte := (data.drop ptr).take 4

def cbAt (data : List Byte) (ptr : Nat) : BitVec 32 := (Mem.ofBytes data).read32 (ptr + 4)

/-- The loop. It has stepped over an old index when it ends at it. -/
def idxLoop (compat : Bool) (data : List Byte) : Nat → IdxWalk → Option IdxWalk
  | 0, _ => none
  | fuel + 1, s =>
      if s.ptr + 8 < data.length then
        let fcc := fccAt data s.ptr
        let s := idxVisit compat fcc (cbAt data s.ptr) s
        if fcc = fccIdx1 then some s else idxLoop compat data fuel s
      else some s

/-! ## The header -/

/-- The sign of `biHeight`. The least number has no opposite and stays. -/
def fixHeight (compat : Bool) (biHeight : BitVec 32) : BitVec 32 :=
  if (if compat then biHeight else -biHeight).toInt < 0 then -biHeight else biHeight

/-- `Fix misc. Data`. -/
def fixMisc (compat : Bool) (header : AviRawHeader) : AviRawHeader :=
  { header with
    strHeaders := fun i =>
      { header.strHeaders i with
        biHeight := fixHeight compat (header.strHeaders i).biHeight
        dwQuality := 0
        biSize := 40 } }

/-- Stream 9 is a copy of stream 0, if it is not used. -/
def fixStream9 (stream9used : Bool) (header : AviRawHeader) : AviRawHeader :=
  if stream9used then header
  else { header with strHeaders := Function.update header.strHeaders 9 (header.strHeaders 0) }

/-- `AVIF_HASINDEX | AVIF_ISINTERLEAVED`. -/
def avifIndexed : BitVec 32 := 0x10 ||| 0x100

/-- `sizeof(aviidxheader_t) + sizeof(aviidxentry_t) * aviidxentries`. -/
def idxSize (s : IdxWalk) : Nat := 8 + 16 * s.entries.length

def setLengths (s : IdxWalk) (header : AviRawHeader) : AviRawHeader :=
  { header with
    listCb := BitVec.ofNat 32 (s.ptr + 4)
    fileCb := BitVec.ofNat 32 (aviHeaderSize + s.ptr + idxSize s - 8)
    dwFlags := header.dwFlags ||| avifIndexed
    dwTotalFrames := BitVec.ofNat 32 (s.entriesStream 0)
    strHeaders := fun i =>
      { header.strHeaders i with dwLength := BitVec.ofNat 32 (s.entriesStream i) } }

/-! ## The tool -/

def AviIdxEntry.bytes (entry : AviIdxEntry) : List Byte :=
  entry.dwChunkId ++ Mem.le32 entry.dwFlags ++ Mem.le32 entry.dwOffset ++ Mem.le32 entry.dwSize

def idxBytes (s : IdxWalk) : List Byte :=
  fccIdx1 ++ Mem.le32 (BitVec.ofNat 32 (16 * s.entries.length)) ++
    s.entries.flatMap AviIdxEntry.bytes

/-- The data with the index where the walk ended. A file that ends before that gets zeros, one
that goes on is truncated. -/
def putIndex (s : IdxWalk) (data : List Byte) : List Byte :=
  data.take s.ptr ++ List.replicate (s.ptr - data.length) 0 ++ idxBytes s

/-- What follows the walk. The file as the tool leaves it, also where it dies; there is none if a
counter was used that does not exist. -/
def idxFinish (compat : Bool) (s : IdxWalk) (file : AviFile) : Option AviFile :=
  if ∀ i ∈ s.used, IsStream i then
    let header := fixStream9 s.stream9used (fixMisc compat file.header)
    -- `write` with a negative `aviidxheader_size` fails
    if wrap32 (idxSize s) < 0 then some { file with header := header }
    else some ⟨setLengths s header, putIndex s file.data⟩
  else none

/-- `main`, after the options. -/
def aviIdx (compat : Bool) (fuel : Nat) (file : AviFile) : Option AviFile :=
  if 2 ^ 31 ≤ file.size then some file
  else if file.header.typeFcc ≠ fccMovi then some file
  else do
    let s ← idxLoop compat file.data fuel idxStart
    idxFinish compat s file

def Indexes (compat : Bool) (file file' : AviFile) : Prop :=
  ∃ fuel, aviIdx compat fuel file = some file'

/-! ## The walk is safe -/

/-- The walk ends, reads chunk headers in the file and uses counters that exist. -/
def IdxWalkSafe (compat : Bool) (data : List Byte) : Prop :=
  (∃ fuel s, idxLoop compat data fuel idxStart = some s) ∧
    ∀ fuel s, idxLoop compat data fuel idxStart = some s →
      (∀ e ∈ s.reads, e.Inside (aviHeaderSize + data.length : Nat)) ∧ ∀ i ∈ s.used, IsStream i

/-- With `-c` the second character of the first chunk is a digit. -/
def FirstIsStream (compat : Bool) (data : List Byte) : Prop :=
  compat = true → 8 < data.length → IsStream (fccStreamnr (fccAt data 0))

section Walk

variable {compat : Bool} {data : List Byte} {fcc : List Byte} {cb : BitVec 32}
  {s s' : IdxWalk} {fuel : Nat}

@[simp] theorem idxVisit_ptr (compat : Bool) (fcc : List Byte) (cb : BitVec 32) (s : IdxWalk) :
    (idxVisit compat fcc cb s).ptr = s.ptr + evenCb cb + 8 := by
  unfold idxVisit
  dsimp only
  split <;> rfl

@[simp] theorem idxVisit_reads (compat : Bool) (fcc : List Byte) (cb : BitVec 32) (s : IdxWalk) :
    (idxVisit compat fcc cb s).reads = ⟨aviHeaderSize + s.ptr, 8⟩ :: s.reads := by
  unfold idxVisit
  dsimp only
  split <;> rfl

theorem isStream_of_isStreamFcc (h : isStreamFcc fcc = true) : IsStream (fccStreamnr fcc) := by
  simp only [isStreamFcc, Bool.and_eq_true, decide_eq_true_eq] at h
  exact h.1.1.2

/-- The first chunk is past, or `-c` is not given. -/
def IdxWalk.Plain (compat : Bool) (s : IdxWalk) : Prop := compat = false ∨ s.entries ≠ []

theorem IdxWalk.Plain.eq_false (h : s.Plain compat) : (compat && s.entries.isEmpty) = false := by
  rcases h with rfl | h
  · rfl
  · rw [List.isEmpty_eq_false_iff.mpr h, Bool.and_false]

theorem idxVisit_used (h : s.Plain compat) :
    (idxVisit compat fcc cb s).used =
      if isStreamFcc fcc then fccStreamnr fcc :: s.used else s.used := by
  unfold idxVisit
  dsimp only
  rw [h.eq_false, Bool.or_false]
  split <;> rfl

theorem idxVisit_length (h : s.Plain compat) :
    (idxVisit compat fcc cb s).entries.length =
      s.entries.length + if isStreamFcc fcc then 1 else 0 := by
  unfold idxVisit
  dsimp only
  rw [h.eq_false, Bool.or_false]
  split
  · exact List.length_append
  · rfl

theorem Plain.idxVisit (h : s.Plain compat) : (idxVisit compat fcc cb s).Plain compat := by
  refine h.imp id fun hne hnil => hne (List.length_eq_zero_iff.mp ?_)
  have hlen : (KogmoRtdb.idxVisit compat fcc cb s).entries.length = _ := idxVisit_length h
  rw [hnil, List.length_nil] at hlen
  omega

/-- The counters that are used exist after a chunk if they did before. -/
theorem used_idxVisit_iff (h : s.Plain compat) :
    (∀ i ∈ (idxVisit compat fcc cb s).used, IsStream i) ↔ ∀ i ∈ s.used, IsStream i := by
  rw [idxVisit_used h]
  split
  · rename_i hfcc
    rw [List.forall_mem_cons]
    exact and_iff_right (isStream_of_isStreamFcc hfcc)
  · rfl

theorem idxLoop_ends (compat : Bool) (data : List Byte) :
    ∀ (fuel : Nat) (s : IdxWalk), data.length - s.ptr < fuel →
      ∃ s', idxLoop compat data fuel s = some s'
  | 0, _, h => absurd h (Nat.not_lt_zero _)
  | fuel + 1, s, h => by
      rw [idxLoop]
      split
      · dsimp only
        split
        · exact ⟨_, rfl⟩
        · refine idxLoop_ends compat data fuel _ ?_
          rw [idxVisit_ptr]
          omega
      · exact ⟨s, rfl⟩

theorem idxLoop_reads (hs : ∀ e ∈ s.reads, e.Inside (aviHeaderSize + data.length : Nat))
    (h : idxLoop compat data fuel s = some s') :
    ∀ e ∈ s'.reads, e.Inside (aviHeaderSize + data.length : Nat) := by
  induction fuel generalizing s with
  | zero => cases h
  | succ fuel ih =>
      rw [idxLoop] at h
      split at h
      · rename_i hlt
        have hvisit : ∀ e ∈ (idxVisit compat (fccAt data s.ptr) (cbAt data s.ptr) s).reads,
            e.Inside (aviHeaderSize + data.length : Nat) := by
          rw [idxVisit_reads, List.forall_mem_cons]
          refine ⟨Extent.inside_iff.mpr ⟨?_, ?_, ?_⟩, hs⟩ <;> omega
        dsimp only at h
        split at h
        · cases h
          exact hvisit
        · exact ih hvisit h
      · cases h
        exact hs

theorem idxLoop_used_iff (hplain : s.Plain compat) (h : idxLoop compat data fuel s = some s') :
    (∀ i ∈ s'.used, IsStream i) ↔ ∀ i ∈ s.used, IsStream i := by
  induction fuel generalizing s with
  | zero => cases h
  | succ fuel ih =>
      rw [idxLoop] at h
      split at h
      · dsimp only at h
        split at h
        · cases h
          exact used_idxVisit_iff hplain
        · exact (ih (Plain.idxVisit hplain) h).trans (used_idxVisit_iff hplain)
      · cases h
        rfl

/-- The first chunk with `-c`. -/
theorem idxVisit_start (fcc : List Byte) (cb : BitVec 32) :
    (idxVisit true fcc cb idxStart).used = [fccStreamnr fcc] ∧
      (idxVisit true fcc cb idxStart).entries.length = 1 := by
  unfold idxVisit
  dsimp only
  rw [if_pos (by rw [Bool.or_eq_true]; exact Or.inr rfl)]
  exact ⟨rfl, rfl⟩

theorem plain_idxVisit_start (fcc : List Byte) (cb : BitVec 32) :
    (idxVisit true fcc cb idxStart).Plain true :=
  Or.inr (List.ne_nil_of_length_pos (by rw [(idxVisit_start fcc cb).2]; exact Nat.one_pos))

theorem idxLoop_start_used_iff (h : idxLoop compat data fuel idxStart = some s) :
    (∀ i ∈ s.used, IsStream i) ↔ FirstIsStream compat data := by
  cases compat with
  | false =>
      rw [idxLoop_used_iff (Or.inl rfl) h]
      exact iff_of_true (fun i hi => absurd hi List.not_mem_nil) fun hc => by cases hc
  | true =>
      cases fuel with
      | zero => cases h
      | succ fuel =>
          rw [idxLoop] at h
          split at h
          · rename_i hlt
            have hlt : 8 < data.length := by simpa [idxStart] using hlt
            have hfirst : (∀ i ∈ (idxVisit true (fccAt data 0) (cbAt data 0) idxStart).used,
                IsStream i) ↔ FirstIsStream true data := by
              rw [(idxVisit_start _ _).1, List.forall_mem_singleton]
              exact ⟨fun h _ _ => h, fun h => h rfl hlt⟩
            dsimp only at h
            split at h
            · cases h
              exact hfirst
            · exact (idxLoop_used_iff (plain_idxVisit_start _ _) h).trans hfirst
          · rename_i hlt
            have hlt : ¬ 8 < data.length := by simpa [idxStart] using hlt
            cases h
            exact iff_of_true (fun i hi => absurd hi List.not_mem_nil) fun _ h => absurd h hlt

/-- The walk is safe on a file if and only if, with `-c`, the second character of its first chunk
is a digit. -/
theorem idxWalk_safe_iff (compat : Bool) (data : List Byte) :
    IdxWalkSafe compat data ↔ FirstIsStream compat data := by
  obtain ⟨s, hs⟩ := idxLoop_ends compat data (data.length + 1) idxStart (by omega)
  constructor
  · intro h
    exact (idxLoop_start_used_iff hs).mp (h.2 _ s hs).2
  · intro h
    refine ⟨⟨_, s, hs⟩, fun fuel s hrun => ⟨idxLoop_reads ?_ hrun, ?_⟩⟩
    · exact fun e he => absurd he List.not_mem_nil
    · exact (idxLoop_start_used_iff hrun).mpr h

/-- The first chunk of a recording is one of the RTDB. -/
theorem exists_not_idxWalkSafe :
    ¬ IdxWalkSafe true (riffBytes fccRtdb 16 (List.replicate 16 0)) := by
  intro h
  have hused := (h.2 2 _ rfl).2 36 (by decide)
  exact absurd hused (by decide)

end Walk

/-! ## A second run -/

/-- A chunk, with any byte behind data of an odd length. -/
structure PaddedChunk extends RiffChunk where
  pad : List Byte
  pad_length : pad.length = data.length % 2

namespace PaddedChunk

def cb (c : PaddedChunk) : BitVec 32 := BitVec.ofNat 32 c.data.length

def bytes (c : PaddedChunk) : List Byte := c.fcc ++ Mem.le32 c.cb ++ c.data ++ c.pad

end PaddedChunk

def chunkBytes (chunks : List PaddedChunk) : List Byte := chunks.flatMap PaddedChunk.bytes

/-- The chunks that the walk looks at: not an empty one at the end of the file. -/
def lookedAt : List PaddedChunk → List PaddedChunk
  | [] => []
  | [c] => if c.data = [] then [] else [c]
  | c :: d :: chunks => c :: lookedAt (d :: chunks)

/-- The chunks that get an entry: the frames, and with `-c` the first one. -/
def indexed (compat : Bool) : List PaddedChunk → List PaddedChunk
  | [] => []
  | c :: chunks =>
      if isStreamFcc c.fcc || compat then c :: chunks.filter fun c => isStreamFcc c.fcc
      else chunks.filter fun c => isStreamFcc c.fcc

/-- Nothing is indexed, or the file with its index is refused by the second run; and with `-c`
the first chunk is counted for a stream. -/
structure ReindexKeeps (compat : Bool) (chunks : List PaddedChunk) : Prop where
  counted : compat = true → ∀ c ∈ (lookedAt chunks).head?, IsStream (fccStreamnr c.fcc)
  once : indexed compat (lookedAt chunks) = [] ∨
    2 ^ 31 ≤ aviHeaderSize + (chunkBytes (lookedAt chunks)).length +
      (8 + 16 * (indexed compat (lookedAt chunks)).length)

/-- The file that a run leaves is left unchanged by a second one. -/
def Reindexed (compat : Bool) (file : AviFile) : Prop :=
  ∃ file', Indexes compat file file' ∧ Indexes compat file' file'

variable {compat : Bool} {data : List Byte} {fcc : List Byte} {s s' : IdxWalk} {fuel : Nat}

namespace PaddedChunk

theorem toNat_cb (c : PaddedChunk) : c.cb.toNat = c.data.length := Nat.mod_eq_of_lt c.data_lt

theorem length_bytes (c : PaddedChunk) : c.bytes.length = evenCb c.cb + 8 := by
  simp only [bytes, List.length_append, c.fcc_length, Mem.length_le32, c.pad_length, evenCb,
    c.toNat_cb]
  omega

end PaddedChunk

def visitChunk (compat : Bool) (s : IdxWalk) (c : PaddedChunk) : IdxWalk :=
  idxVisit compat c.fcc c.cb s

theorem fccAt_append (front : List Byte) (hfcc : fcc.length = 4) (rest : List Byte) :
    fccAt (front ++ (fcc ++ rest)) front.length = fcc := by
  rw [fccAt, List.drop_left' rfl, List.take_left' hfcc]

theorem cbAt_append (front : List Byte) (hfcc : fcc.length = 4) (cb : BitVec 32)
    (rest : List Byte) : cbAt (front ++ (fcc ++ (Mem.le32 cb ++ rest))) front.length = cb := by
  rw [cbAt, Mem.read32_ofBytes_right, show 4 = fcc.length + 0 by omega, Mem.read32_ofBytes_right,
    Mem.read32_le32]

theorem chunkBytes_cons (c : PaddedChunk) (chunks : List PaddedChunk) :
    chunkBytes (c :: chunks) = c.bytes ++ chunkBytes chunks := List.flatMap_cons

/-- There is more than a chunk header left, unless all there is left is an empty chunk. -/
theorem eight_lt_length {c : PaddedChunk} {chunks : List PaddedChunk} {tail : List Byte}
    (hend : tail = [] → ∀ d ∈ (c :: chunks).getLast?, d.data ≠ []) :
    8 < (c.bytes ++ (chunkBytes chunks ++ tail)).length := by
  simp only [List.length_append, c.length_bytes, evenCb, c.toNat_cb]
  cases chunks with
  | nil =>
      cases tail with
      | nil =>
          have hne := List.length_pos_iff.mpr (hend rfl c rfl)
          omega
      | cons b tail =>
          simp only [List.length_cons]
          omega
  | cons d chunks =>
      simp only [chunkBytes_cons, List.length_append, d.length_bytes]
      omega

/-- The walk over chunks that are followed by something, or of which the last is not empty. -/
theorem idxLoop_chunks (compat : Bool) (fuel : Nat) {tail : List Byte} :
    ∀ (chunks : List PaddedChunk) (front : List Byte) (s : IdxWalk),
      (∀ c ∈ chunks, c.fcc ≠ fccIdx1) →
      (tail = [] → ∀ c ∈ chunks.getLast?, c.data ≠ []) →
      s.ptr = front.length →
      idxLoop compat (front ++ (chunkBytes chunks ++ tail)) (chunks.length + fuel) s =
        idxLoop compat (front ++ (chunkBytes chunks ++ tail)) fuel
          (chunks.foldl (visitChunk compat) s)
  | [], front, s, _, _, _ => by rw [List.length_nil, Nat.zero_add]; rfl
  | c :: chunks, front, s, hidx, hend, hptr => by
      have hsplit : front ++ (chunkBytes (c :: chunks) ++ tail) =
          front ++ (c.fcc ++ (Mem.le32 c.cb ++
            (c.data ++ c.pad ++ (chunkBytes chunks ++ tail)))) := by
        simp only [chunkBytes_cons, PaddedChunk.bytes, List.append_assoc]
      have hfcc : fccAt (front ++ (chunkBytes (c :: chunks) ++ tail)) s.ptr = c.fcc := by
        rw [hsplit, hptr]
        exact fccAt_append _ c.fcc_length _
      have hcb : cbAt (front ++ (chunkBytes (c :: chunks) ++ tail)) s.ptr = c.cb := by
        rw [hsplit, hptr]
        exact cbAt_append _ c.fcc_length _ _
      have hlt : s.ptr + 8 < (front ++ (chunkBytes (c :: chunks) ++ tail)).length := by
        rw [hptr, List.length_append, chunkBytes_cons, List.append_assoc]
        exact Nat.add_lt_add_left (eight_lt_length hend) _
      rw [List.length_cons, Nat.add_right_comm, idxLoop, if_pos hlt]
      dsimp only
      rw [hfcc, hcb, if_neg (hidx c List.mem_cons_self), List.foldl_cons, chunkBytes_cons,
        List.append_assoc, ← List.append_assoc front]
      refine idxLoop_chunks compat fuel chunks (front ++ c.bytes) _
        (fun d hd => hidx d (List.mem_cons_of_mem _ hd)) ?_ ?_
      · intro htail d hd
        refine hend htail d ?_
        rw [List.getLast?_cons]
        exact (Option.mem_def.mp hd) ▸ rfl
      · rw [idxVisit_ptr, hptr, List.length_append, c.length_bytes, Nat.add_assoc]

theorem foldl_ptr (compat : Bool) :
    ∀ (chunks : List PaddedChunk) (s : IdxWalk),
      (chunks.foldl (visitChunk compat) s).ptr = s.ptr + (chunkBytes chunks).length
  | [], _ => rfl
  | c :: chunks, s => by
      rw [List.foldl_cons, foldl_ptr compat chunks, visitChunk, idxVisit_ptr, chunkBytes_cons,
        List.length_append, c.length_bytes]
      omega

theorem foldl_length_of_plain (compat : Bool) :
    ∀ (chunks : List PaddedChunk) (s : IdxWalk), s.Plain compat →
      (chunks.foldl (visitChunk compat) s).entries.length =
        s.entries.length + (chunks.filter fun c => isStreamFcc c.fcc).length
  | [], _, _ => rfl
  | c :: chunks, s, h => by
      rw [List.foldl_cons, visitChunk, foldl_length_of_plain compat chunks _ (Plain.idxVisit h),
        idxVisit_length h, List.filter_cons]
      split
      · rw [List.length_cons]
        omega
      · rfl

theorem foldl_used_of_plain (compat : Bool) :
    ∀ (chunks : List PaddedChunk) (s : IdxWalk), s.Plain compat →
      ((∀ i ∈ (chunks.foldl (visitChunk compat) s).used, IsStream i) ↔
        ∀ i ∈ s.used, IsStream i)
  | [], _, _ => Iff.rfl
  | _ :: chunks, _, h =>
      (foldl_used_of_plain compat chunks _ (Plain.idxVisit h)).trans (used_idxVisit_iff h)

def walked (compat : Bool) (chunks : List PaddedChunk) : IdxWalk :=
  chunks.foldl (visitChunk compat) idxStart

theorem walked_length (compat : Bool) (chunks : List PaddedChunk) :
    (walked compat chunks).entries.length = (indexed compat chunks).length := by
  cases chunks with
  | nil => rfl
  | cons c chunks =>
      cases compat with
      | false =>
          have hlen := foldl_length_of_plain false (c :: chunks) idxStart (Or.inl rfl)
          rw [walked, hlen, indexed, Bool.or_false, List.filter_cons]
          exact Nat.zero_add _
      | true =>
          rw [walked, List.foldl_cons, visitChunk,
            foldl_length_of_plain true chunks _ (plain_idxVisit_start c.fcc c.cb),
            (idxVisit_start _ _).2, indexed, Bool.or_true, if_pos rfl, List.length_cons,
            Nat.add_comm]

theorem walked_used_iff (compat : Bool) (chunks : List PaddedChunk) :
    (∀ i ∈ (walked compat chunks).used, IsStream i) ↔
      (compat = true → ∀ c ∈ chunks.head?, IsStream (fccStreamnr c.fcc)) := by
  have hstart : ∀ i ∈ idxStart.used, IsStream i := fun i hi => absurd hi List.not_mem_nil
  cases compat with
  | false =>
      rw [walked, foldl_used_of_plain false chunks idxStart (Or.inl rfl)]
      exact iff_of_true hstart fun h => by cases h
  | true =>
      cases chunks with
      | nil => exact iff_of_true hstart fun _ c hc => by cases hc
      | cons c chunks =>
          rw [walked, List.foldl_cons, visitChunk,
            foldl_used_of_plain true chunks _ (plain_idxVisit_start c.fcc c.cb),
            (idxVisit_start _ _).1, List.forall_mem_singleton]
          refine ⟨fun h _ d hd => ?_, fun h => h rfl c rfl⟩
          cases hd
          exact h

/-! The chunks that are looked at, and what is left of the file then. -/

theorem lookedAt_subset : ∀ (chunks : List PaddedChunk), ∀ c ∈ lookedAt chunks, c ∈ chunks
  | [], _, h => h
  | [d], c, h => by
      rw [lookedAt] at h
      split at h
      · exact absurd h List.not_mem_nil
      · exact h
  | d :: e :: chunks, c, h => by
      rw [lookedAt] at h
      rcases List.mem_cons.mp h with rfl | h
      · exact List.mem_cons_self
      · exact List.mem_cons_of_mem _ (lookedAt_subset (e :: chunks) c h)

theorem lookedAt_split : ∀ (chunks : List PaddedChunk), ∃ tail,
    chunkBytes chunks = chunkBytes (lookedAt chunks) ++ tail ∧ tail.length ≤ 8 ∧
      (tail = [] → ∀ c ∈ (lookedAt chunks).getLast?, c.data ≠ [])
  | [] => ⟨[], rfl, Nat.zero_le _, fun _ c hc => by cases hc⟩
  | [c] => by
      rw [lookedAt]
      split
      · rename_i hnil
        refine ⟨c.bytes, ?_, ?_, fun _ d hd => by cases hd⟩
        · rw [chunkBytes_cons]
          exact List.append_nil _
        · rw [c.length_bytes, evenCb, c.toNat_cb, hnil]
          exact Nat.le_refl 8
      · rename_i hne
        refine ⟨[], (List.append_nil _).symm, Nat.zero_le _, fun _ d hd => ?_⟩
        cases hd
        exact hne
  | c :: d :: chunks => by
      obtain ⟨tail, hsplit, hle, hend⟩ := lookedAt_split (d :: chunks)
      refine ⟨tail, ?_, hle, fun htail e he => ?_⟩
      · rw [lookedAt, chunkBytes_cons c, chunkBytes_cons c, hsplit, List.append_assoc]
      · rw [lookedAt, List.getLast?_cons] at he
        cases hlast : (lookedAt (d :: chunks)).getLast? with
        | none =>
            -- then the rest is one empty chunk, and not nothing
            rw [List.getLast?_eq_none_iff.mp hlast, htail] at hsplit
            have hlen : (chunkBytes (d :: chunks)).length = 0 := by
              rw [hsplit]
              rfl
            rw [chunkBytes_cons, List.length_append, d.length_bytes] at hlen
            omega
        | some last =>
            rw [hlast] at he
            cases he
            exact hend htail last hlast

theorem visitChunk_entries (compat : Bool) (s : IdxWalk) (c : PaddedChunk)
    (hs : ∀ e ∈ s.entries, e.dwChunkId.length = 4) :
    ∀ e ∈ (visitChunk compat s c).entries, e.dwChunkId.length = 4 := by
  unfold visitChunk idxVisit
  dsimp only
  split
  · intro e he
    rcases List.mem_append.mp he with he | he
    · exact hs e he
    · rcases List.mem_singleton.mp he with rfl
      exact c.fcc_length
  · exact hs

theorem walked_entries (compat : Bool) (chunks : List PaddedChunk) :
    ∀ e ∈ (walked compat chunks).entries, e.dwChunkId.length = 4 := by
  refine List.foldlRecOn chunks (visitChunk compat) ?_ fun s hs c _ =>
    visitChunk_entries compat s c hs
  exact fun e he => absurd he List.not_mem_nil

theorem length_idxBytes (hs : ∀ e ∈ s.entries, e.dwChunkId.length = 4) :
    (idxBytes s).length = idxSize s := by
  have hentries : (s.entries.flatMap AviIdxEntry.bytes).length = s.entries.length * 16 := by
    have hmap : s.entries.map (fun e => e.bytes.length) = s.entries.map fun _ => 16 :=
      List.map_congr_left fun e he => by simp [AviIdxEntry.bytes, hs e he]
    rw [List.length_flatMap, hmap, List.map_const', List.sum_replicate_nat]
  simp only [idxBytes, List.length_append, Mem.length_le32, hentries, idxSize, fccIdx1,
    List.length_cons, List.length_nil]
  omega

theorem idxLoop_first {chunks : List PaddedChunk} (hidx : ∀ c ∈ chunks, c.fcc ≠ fccIdx1) :
    idxLoop compat (chunkBytes chunks) ((lookedAt chunks).length + 1) idxStart =
      some (walked compat (lookedAt chunks)) := by
  obtain ⟨tail, hsplit, hle, hend⟩ := lookedAt_split chunks
  have hloop := idxLoop_chunks compat 1 (lookedAt chunks) [] idxStart
    (fun c hc => hidx c (lookedAt_subset chunks c hc)) hend rfl
  rw [List.nil_append, ← hsplit] at hloop
  rw [hloop, idxLoop, if_neg]
  · rfl
  · rw [foldl_ptr, hsplit, List.length_append]
    show ¬ 0 + _ + 8 < _
    omega

theorem idxLoop_second {chunks : List PaddedChunk} (hidx : ∀ c ∈ chunks, c.fcc ≠ fccIdx1)
    (fuel : Nat) :
    idxLoop compat (chunkBytes chunks ++ idxBytes (walked compat chunks)) (chunks.length + fuel)
        idxStart =
      idxLoop compat (chunkBytes chunks ++ idxBytes (walked compat chunks)) fuel
        (walked compat chunks) := by
  refine idxLoop_chunks compat fuel chunks [] idxStart hidx (fun hnil => ?_) rfl
  have hlen := length_idxBytes (walked_entries compat chunks)
  rw [hnil, idxSize, List.length_nil] at hlen
  omega

theorem idxLoop_mono {k : Nat} (h : idxLoop compat data fuel s = some s') :
    idxLoop compat data (fuel + k) s = some s' := by
  induction fuel generalizing s with
  | zero => cases h
  | succ fuel ih =>
      rw [idxLoop] at h
      rw [Nat.add_right_comm, idxLoop]
      split at h
      · rename_i hlt
        rw [if_pos hlt]
        dsimp only at h ⊢
        split at h
        · rename_i hfcc
          rw [if_pos hfcc, h]
        · rename_i hfcc
          rw [if_neg hfcc]
          exact ih h
      · rename_i hlt
        rw [if_neg hlt, h]

theorem indexes_iff {file file' : AviFile} (hsize : file.size < 2 ^ 31)
    (hmovi : file.header.typeFcc = fccMovi)
    (hs : idxLoop compat file.data fuel idxStart = some s) :
    Indexes compat file file' ↔ idxFinish compat s file = some file' := by
  have hrun (k : Nat) : aviIdx compat k file =
      (idxLoop compat file.data k idxStart).bind fun s => idxFinish compat s file := by
    rw [aviIdx, if_neg (Nat.not_le.mpr hsize), if_neg (not_not.mpr hmovi)]
    rfl
  constructor
  · rintro ⟨k, hk⟩
    rw [hrun] at hk
    obtain ⟨t, ht, hfinish⟩ := Option.bind_eq_some_iff.mp hk
    have heq := (idxLoop_mono (k := k) hs).symm.trans
      ((Nat.add_comm k fuel ▸ idxLoop_mono (k := fuel) ht))
    cases heq
    exact hfinish
  · intro h
    refine ⟨fuel, ?_⟩
    rw [hrun, hs]
    exact h

theorem indexes_of_large {file : AviFile} (hsize : 2 ^ 31 ≤ file.size) :
    Indexes compat file file := ⟨0, if_pos hsize⟩

theorem fixHeight_fixHeight (compat : Bool) (biHeight : BitVec 32) :
    fixHeight compat (fixHeight compat biHeight) = fixHeight compat biHeight := by
  have hmin (v : BitVec 32) (h : v.toInt < 0) (h' : (-v).toInt < 0) : -v = v := by
    refine BitVec.eq_of_toNat_eq ?_
    rw [BitVec.toInt_eq_toNat_cond] at h h'
    rw [BitVec.toNat_neg] at h' ⊢
    omega
  unfold fixHeight
  cases compat <;> simp only [Bool.false_eq_true, if_false, if_true]
  · by_cases h : (-biHeight).toInt < 0
    · rw [if_pos h, BitVec.neg_neg]
      split
      · rename_i h'
        exact (hmin biHeight h' h).symm
      · rfl
    · rw [if_neg h, if_neg h]
  · by_cases h : biHeight.toInt < 0
    · rw [if_pos h, BitVec.neg_neg]
      split
      · rename_i h'
        exact (hmin biHeight h h').symm
      · rfl
    · rw [if_neg h, if_neg h]

theorem typeFcc_fix (compat used : Bool) (header : AviRawHeader) :
    (fixStream9 used (fixMisc compat header)).typeFcc = header.typeFcc := by
  unfold fixStream9
  split <;> rfl

theorem fix_fix (compat used : Bool) (header : AviRawHeader) :
    fixStream9 used (fixMisc compat (fixStream9 used (fixMisc compat header))) =
      fixStream9 used (fixMisc compat header) := by
  cases used with
  | true => simp only [fixStream9, fixMisc, if_true, fixHeight_fixHeight]
  | false =>
      simp only [fixStream9, fixMisc, Bool.false_eq_true, if_false, AviRawHeader.mk.injEq,
        true_and, and_true]
      funext i
      by_cases hi : i = 9
      · subst hi
        simp [fixHeight_fixHeight]
      · simp [Function.update_of_ne hi, fixHeight_fixHeight]

theorem setLengths_fix (compat used : Bool) (s : IdxWalk) (header : AviRawHeader) :
    setLengths s (fixStream9 used (fixMisc compat (setLengths s
        (fixStream9 used (fixMisc compat header))))) =
      setLengths s (fixStream9 used (fixMisc compat header)) := by
  have hflags (flags : BitVec 32) :
      flags ||| avifIndexed ||| avifIndexed = flags ||| avifIndexed := by
    rw [BitVec.or_assoc, BitVec.or_self]
  cases used with
  | true => simp only [setLengths, fixStream9, fixMisc, if_true, fixHeight_fixHeight, hflags]
  | false =>
      simp only [setLengths, fixStream9, fixMisc, Bool.false_eq_true, if_false,
        AviRawHeader.mk.injEq, true_and, and_true, hflags]
      funext i
      by_cases hi : i = 9
      · subst hi
        simp [fixHeight_fixHeight]
      · simp [Function.update_of_ne hi, fixHeight_fixHeight]

theorem length_putIndex (s : IdxWalk) (data : List Byte) :
    (putIndex s data).length = s.ptr + (idxBytes s).length := by
  simp only [putIndex, List.length_append, List.length_take, List.length_replicate]
  omega

theorem putIndex_append {front : List Byte} (hptr : s.ptr = front.length) (tail : List Byte) :
    putIndex s (front ++ tail) = front ++ idxBytes s := by
  rw [putIndex, hptr, List.take_left' rfl, List.length_append, Nat.sub_eq_zero_of_le
    (Nat.le_add_right _ _), List.replicate_zero, List.append_nil]

theorem walked_ptr (compat : Bool) (chunks : List PaddedChunk) :
    (walked compat chunks).ptr = (chunkBytes chunks).length := by
  rw [walked, foldl_ptr]
  exact Nat.zero_add _

/-- The walk of the second run over the index, if there is something in it. -/
theorem idxLoop_index {chunks : List PaddedChunk} (hidx : ∀ c ∈ chunks, c.fcc ≠ fccIdx1)
    (hne : (walked compat chunks).entries ≠ [])
    (hlt : 16 * (walked compat chunks).entries.length < 2 ^ 32) :
    ∃ s, idxLoop compat (chunkBytes chunks ++ idxBytes (walked compat chunks))
        (chunks.length + 1) idxStart = some s ∧
      s.ptr = (chunkBytes chunks).length + idxSize (walked compat chunks) ∧
      s.entries.length = (walked compat chunks).entries.length := by
  have hlen := length_idxBytes (walked_entries compat chunks)
  have hsplit : idxBytes (walked compat chunks) = fccIdx1 ++
      (Mem.le32 (BitVec.ofNat 32 (16 * (walked compat chunks).entries.length)) ++
        (walked compat chunks).entries.flatMap AviIdxEntry.bytes) := List.append_assoc ..
  have hfcc := fccAt_append (chunkBytes chunks) (show fccIdx1.length = 4 from rfl)
    (Mem.le32 (BitVec.ofNat 32 (16 * (walked compat chunks).entries.length)) ++
      (walked compat chunks).entries.flatMap AviIdxEntry.bytes)
  have hcb := cbAt_append (chunkBytes chunks) (show fccIdx1.length = 4 from rfl)
    (BitVec.ofNat 32 (16 * (walked compat chunks).entries.length))
    ((walked compat chunks).entries.flatMap AviIdxEntry.bytes)
  rw [← hsplit] at hfcc hcb
  have hpos := List.length_pos_iff.mpr hne
  have hplain : (walked compat chunks).Plain compat := Or.inr hne
  refine ⟨idxVisit compat fccIdx1
    (BitVec.ofNat 32 (16 * (walked compat chunks).entries.length)) (walked compat chunks),
    ?_, ?_, ?_⟩
  · rw [idxLoop_second hidx, idxLoop, if_pos, walked_ptr, hfcc, hcb]
    · exact if_pos rfl
    · rw [walked_ptr, List.length_append, hlen, idxSize]
      omega
  · rw [idxVisit_ptr, walked_ptr, evenCb, BitVec.toNat_ofNat, Nat.mod_eq_of_lt hlt, idxSize]
    omega
  · rw [idxVisit_length hplain]
    rfl

theorem idxLoop_empty {chunks : List PaddedChunk} (hidx : ∀ c ∈ chunks, c.fcc ≠ fccIdx1)
    (hnil : (walked compat chunks).entries = []) :
    idxLoop compat (chunkBytes chunks ++ idxBytes (walked compat chunks)) (chunks.length + 1)
        idxStart = some (walked compat chunks) := by
  have hlen := length_idxBytes (walked_entries compat chunks)
  rw [idxLoop_second hidx, idxLoop, if_neg]
  rw [walked_ptr, List.length_append, hlen, idxSize, hnil, List.length_nil]
  omega

theorem wrap32_idxSize (h : idxSize s < 2 ^ 31) : wrap32 (idxSize s) = idxSize s :=
  wrap32_of_bounds (by omega) (by omega)

/-- A second run, in terms of the two walks: the first ends behind `front`, the second there too
or behind the index. -/
theorem reindexed_iff_of_walks {file : AviFile} {front tail : List Byte} {k k' : Nat}
    (hsize : file.size < 2 ^ 31) (hmovi : file.header.typeFcc = fccMovi)
    (hdata : file.data = front ++ tail) (hptr : s.ptr = front.length)
    (hlen : (idxBytes s).length = idxSize s)
    (hfirst : idxLoop compat file.data k idxStart = some s)
    (hempty : s.entries = [] → idxLoop compat (front ++ idxBytes s) k' idxStart = some s)
    (hindex : s.entries ≠ [] → 16 * s.entries.length < 2 ^ 32 →
      ∃ t, idxLoop compat (front ++ idxBytes s) k' idxStart = some t ∧
        t.ptr = front.length + idxSize s ∧ t.entries.length = s.entries.length) :
    Reindexed compat file ↔ (∀ i ∈ s.used, IsStream i) ∧
      (s.entries = [] ∨ 2 ^ 31 ≤ aviHeaderSize + front.length + idxSize s) := by
  unfold Reindexed
  by_cases hok : ∀ i ∈ s.used, IsStream i
  swap
  · refine iff_of_false ?_ fun h => hok h.1
    rintro ⟨file', hfile', -⟩
    rw [indexes_iff hsize hmovi hfirst, idxFinish, if_neg hok] at hfile'
    cases hfile'
  rw [and_iff_right hok]
  by_cases hwrite : wrap32 (idxSize s) < 0
  · -- both runs correct the header and die
    have hlarge : 2 ^ 31 ≤ idxSize s := by
      by_contra hlt
      rw [wrap32_idxSize (by omega)] at hwrite
      omega
    have hsize' : AviFile.size ⟨fixStream9 s.stream9used (fixMisc compat file.header),
        file.data⟩ < 2 ^ 31 := hsize
    refine iff_of_true ⟨⟨fixStream9 s.stream9used (fixMisc compat file.header), file.data⟩,
      ?_, ?_⟩ (Or.inr (by omega))
    · rw [indexes_iff hsize hmovi hfirst, idxFinish, if_pos hok]
      exact if_pos hwrite
    · rw [indexes_iff hsize' ((typeFcc_fix ..).trans hmovi) hfirst, idxFinish, if_pos hok]
      dsimp only
      rw [if_pos hwrite, fix_fix]
  have hrun (file' : AviFile) : Indexes compat file file' ↔
      ⟨setLengths s (fixStream9 s.stream9used (fixMisc compat file.header)),
        front ++ idxBytes s⟩ = file' := by
    rw [indexes_iff hsize hmovi hfirst, idxFinish, if_pos hok]
    dsimp only
    rw [if_neg hwrite, hdata, putIndex_append hptr, Option.some.injEq]
  by_cases hlarge : 2 ^ 31 ≤ aviHeaderSize + front.length + idxSize s
  · -- the second run refuses the file
    refine iff_of_true ⟨_, (hrun _).mpr rfl, indexes_of_large ?_⟩ (Or.inr hlarge)
    rw [AviFile.size, List.length_append, hlen]
    omega
  have hsize' : AviFile.size ⟨setLengths s (fixStream9 s.stream9used (fixMisc compat file.header)),
      front ++ idxBytes s⟩ < 2 ^ 31 := by
    rw [AviFile.size, List.length_append, hlen]
    omega
  have hmovi' : (setLengths s (fixStream9 s.stream9used (fixMisc compat file.header))).typeFcc =
      fccMovi := (typeFcc_fix ..).trans hmovi
  by_cases hnil : s.entries = []
  · refine iff_of_true ⟨_, (hrun _).mpr rfl, ?_⟩ (Or.inl hnil)
    rw [indexes_iff hsize' hmovi' (hempty hnil), idxFinish, if_pos hok]
    dsimp only
    rw [if_neg hwrite, putIndex_append hptr, setLengths_fix]
  · -- the second index is put behind the first
    refine iff_of_false ?_ fun h => h.elim hnil hlarge
    rintro ⟨file', hfile', hagain⟩
    obtain rfl := (hrun _).mp hfile'
    obtain ⟨t, ht, htptr, htlen⟩ := hindex hnil (by unfold idxSize at hlarge; omega)
    rw [indexes_iff hsize' hmovi' ht, idxFinish] at hagain
    split at hagain
    · dsimp only at hagain
      have hsame : idxSize t = idxSize s := by rw [idxSize, htlen, idxSize]
      rw [hsame, if_neg hwrite, Option.some.injEq, AviFile.mk.injEq] at hagain
      have hlonger := congrArg List.length hagain.2
      rw [length_putIndex, htptr, List.length_append, hlen, idxBytes] at hlonger
      simp only [List.length_append, Mem.length_le32] at hlonger
      omega
    · cases hagain

/-- A second run on a file with complete chunks and no index leaves it unchanged if and only if
the first one has written an empty index, or a file that is too large for the second; and the
first chunk counts for a stream, with `-c`. -/
theorem reindex_iff (compat : Bool) (file : AviFile) (chunks : List PaddedChunk)
    (hdata : file.data = chunkBytes chunks) (hmovi : file.header.typeFcc = fccMovi)
    (hidx : ∀ c ∈ chunks, c.fcc ≠ fccIdx1) (hsize : file.size < 2 ^ 31) :
    Reindexed compat file ↔ ReindexKeeps compat chunks := by
  have hidx' : ∀ c ∈ lookedAt chunks, c.fcc ≠ fccIdx1 := fun c hc =>
    hidx c (lookedAt_subset chunks c hc)
  obtain ⟨tail, hsplit, -, -⟩ := lookedAt_split chunks
  rw [reindexed_iff_of_walks hsize hmovi (hdata.trans hsplit) (walked_ptr compat _)
    (length_idxBytes (walked_entries compat _)) (hdata ▸ idxLoop_first hidx)
    (idxLoop_empty hidx') (idxLoop_index hidx'), walked_used_iff, idxSize,
    ← List.length_eq_zero_iff, walked_length, List.length_eq_zero_iff]
  exact ⟨fun h => ⟨h.1, h.2⟩, fun h => ⟨h.1, h.2⟩⟩

def blankHeader : AviRawHeader := ⟨0, 0, 0, fun _ => ⟨0, 0, 0, 0, []⟩, 0, fccMovi, []⟩

def rtdbChunk : PaddedChunk := ⟨⟨fccRtdb, List.replicate 16 0, rfl, by decide⟩, [], rfl⟩
def frameChunk : PaddedChunk := ⟨⟨fccStream 0, [1], rfl, by decide⟩, [0], rfl⟩

theorem reindex_iff_rtdb :
    Reindexed false ⟨blankHeader, chunkBytes [rtdbChunk]⟩ ↔ ReindexKeeps false [rtdbChunk] :=
  reindex_iff false ⟨blankHeader, chunkBytes [rtdbChunk]⟩ [rtdbChunk] rfl rfl (by decide)
    (by decide)

/-- A recording with one frame gets a second index. -/
theorem exists_not_reindexed :
    ∃ (file : AviFile) (chunks : List PaddedChunk), file.data = chunkBytes chunks ∧
      file.header.typeFcc = fccMovi ∧ (∀ c ∈ chunks, c.fcc ≠ fccIdx1) ∧ file.size < 2 ^ 31 ∧
      ¬ Reindexed false file := by
  have hidx : ∀ c ∈ [rtdbChunk, frameChunk], c.fcc ≠ fccIdx1 := by decide
  refine ⟨⟨blankHeader, chunkBytes [rtdbChunk, frameChunk]⟩, _, rfl, rfl, hidx, by decide, ?_⟩
  have hdata : chunkBytes [rtdbChunk, frameChunk] = chunkBytes [rtdbChunk, frameChunk] ++ [] :=
    (List.append_nil _).symm
  rw [reindexed_iff_of_walks (by decide) rfl hdata
    (walked_ptr false _) (length_idxBytes (walked_entries false _)) (idxLoop_first hidx)
    (idxLoop_empty hidx) (idxLoop_index hidx)]
  rintro ⟨-, hnil | hlarge⟩
  · have hlen := walked_length false [rtdbChunk, frameChunk]
    rw [hnil] at hlen
    exact absurd hlen (by decide)
  · exact absurd hlarge (by decide)

end KogmoRtdb
