import KogmoRtdb.Record.AviRaw
import KogmoRtdb.Record.Player

/-!
# Playing a file once

The player takes the chunks from the bytes of a file, and an RTDB chunk's stamp, object and type
from the chunk's data. `readChunks_fileBytes` says that it finds what the recorder wrote. Without
filters an object is played from the first of its metadata on until it is deleted: `Playing` is
this about the player's map, and each chunk keeps it.
-/

namespace KogmoRtdb

/-! ## Reading -/

def StreamType.ofCode (code : BitVec 32) : Option StreamType :=
  [addobj, delobj, updobj, updobjNext, rfrobj, chgobj, error].find? fun type => type.code = code

/-- The bit field `flags` of a word. -/
def ObjFlags.ofWord (w : BitVec 32) : ObjFlags where
  readDeny := w.getLsbD 0
  writeAllow := w.getLsbD 1
  keepAlloc := w.getLsbD 2
  unique := w.getLsbD 3
  cycleWatch := w.getLsbD 4
  persistent := w.getLsbD 5
  parentDelete := w.getLsbD 6
  noNotifies := w.getLsbD 7
  immediatelyDelete := w.getLsbD 8
  withholdStale := w.getLsbD 9

/-- `kogmo_rtdb_obj_info_t` in memory, `float` being what a word says as a number. -/
def ObjInfo.ofMem (float : BitVec 32 → ℚ) (m : Mem) : ObjInfo where
  oid := (m.read32 0).toInt
  name := ((m.bytes 4 nameMaxlen).takeWhile (· ≠ 0)).map fun b => Char.ofNat b.toNat
  createdTs := m.read64 36
  createdProc := (m.read32 44).toInt
  deletedTs := m.read64 60
  deletedProc := (m.read32 68).toInt
  parentOid := (m.read32 72).toInt
  otype := (m.read32 76).toInt
  sizeMax := (m.read32 80).toInt
  historyInterval := float (m.read32 84)
  minCycletime := float (m.read32 88)
  maxCycletime := float (m.read32 92)
  flags := ObjFlags.ofWord (m.read32 96)
  historySize := (m.read32 100).toInt
  historySlot := (m.read32 104).toInt
  bufferIdx := (m.read32 108).toInt

/-- `info_p` and `base_p`, as the type of the chunk has them looked at. -/
def chunkData (float : BitVec 32 → ℚ) (type : StreamType) (data : List Byte) : ChunkData :=
  match type with
  | .updobj => .object (Mem.ofBytes data) data.length
  | .updobjNext => .object (Mem.ofBytes data) data.length
  | .error => .empty
  | _ => .info (ObjInfo.ofMem float (Mem.ofBytes data))

/-- A chunk from its four characters and its data. One of the RTDB with an unknown type is passed
over. -/
def decodeChunk (float : BitVec 32 → ℚ) (fcc data : List Byte) : PlayChunk :=
  let m := Mem.ofBytes data
  if fcc = fccRtdb then
    match StreamType.ofCode (m.read32 12) with
    | none => .other
    | some type =>
        .entry (.rtdb ⟨m.read64 0, (m.read32 8).toInt, type, chunkData float type (data.drop 16)⟩)
  else if isStreamFcc fcc then .entry (.stream (fccStreamnr fcc).toNat m 0 data.length)
  else if fcc = fccJunk then .entry (.junk m 0 data.length)
  else .other

/-- The chunks of a file, of which there are at most `fuel`. -/
def readChunks (float : BitVec 32 → ℚ) : Nat → List Byte → List PlayChunk
  | 0, _ => []
  | fuel + 1, file =>
      match fgetChunkheader file with
      | none => []
      | some (fcc, cb, rest) =>
          match fgetChunkdata cb rest with
          | none => []
          | some (data, rest) => decodeChunk float fcc data :: readChunks float fuel rest

/-- The calls for the chunks of a file, until the loop is left. -/
def playFile (opts : PlayOptions) (answers : Nat → PlayAnswer) :
    List PlayChunk → Player → List PlayCall × Player
  | [], s => ([], s)
  | chunk :: chunks, s =>
      let done := playEntry opts (answers s.pos) (some chunk) s
      if done.player.phase = .reading then
        let (calls, s') := playFile opts answers chunks done.player
        (done.calls ++ calls, s')
      else (done.calls, done.player)

/-! ## What the recorder wrote -/

/-- The four characters and the data of an entry's chunk. -/
def FileEntry.raw (rest : ObjInfo → Mem) : FileEntry → List Byte × List Byte
  | .rtdb c => (fccRtdb, rtdbData c.ts c.oid c.type (c.data.bytes rest))
  | .stream nr objData offset size =>
      (fccStream nr, objData.bytes offset.toNat size.toNat)
  | .junk objData offset size => (fccJunk, objData.bytes offset.toNat size.toNat)

def FileEntry.Sized : FileEntry → Prop
  | .rtdb c => ∀ objData size, c.data = .object objData size → size < 2 ^ 31
  | .stream _ _ _ size => 0 < size ∧ size < 2 ^ 31
  | .junk _ _ size => 0 < size ∧ size < 2 ^ 31

/-- A value of the type `int`. -/
def FitsInt (x : Int) : Prop := -2 ^ 31 ≤ x ∧ x < 2 ^ 31

variable {rest : ObjInfo → Mem} {float : BitVec 32 → ℚ} {e : FileEntry} {entries : List FileEntry}

theorem length_bytes_chunkData {data : ChunkData}
    (h : ∀ objData size, data = .object objData size → size < 2 ^ 31) :
    (data.bytes rest).length < 2 ^ 31 := by
  cases data with
  | empty => exact show 0 < 2 ^ 31 by decide
  | info info => simp [ChunkData.bytes, infoSize]
  | object objData size =>
      have hlt := h objData size rfl
      simp only [ChunkData.bytes, Mem.length_bytes]
      omega

theorem length_rtdbData (ts : Timestamp) (oid : ObjId) (type : StreamType) (data : List Byte) :
    (rtdbData ts oid type data).length = 16 + data.length := by
  simp only [rtdbData, List.length_append, Mem.length_le64, Mem.length_le32]

namespace FileEntry

theorem raw_fcc_length (e : FileEntry) (rest : ObjInfo → Mem) : (e.raw rest).1.length = 4 := by
  cases e <;> rfl

theorem Sized.length_raw (h : e.Sized) (rest : ObjInfo → Mem) :
    0 < (e.raw rest).2.length ∧ (e.raw rest).2.length < 2 ^ 32 := by
  cases e with
  | rtdb c =>
      have hlt : (c.data.bytes rest).length < 2 ^ 31 := length_bytes_chunkData h
      simp only [raw, length_rtdbData]
      omega
  | stream nr objData offset size =>
      obtain ⟨hpos, hlt⟩ := h
      simp only [raw, Mem.length_bytes]
      omega
  | junk objData offset size =>
      obtain ⟨hpos, hlt⟩ := h
      simp only [raw, Mem.length_bytes]
      omega

theorem Sized.bytes_eq (h : e.Sized) (rest : ObjInfo → Mem) :
    e.bytes rest =
      riffBytes (e.raw rest).1 (BitVec.ofNat 32 (e.raw rest).2.length) (e.raw rest).2 := by
  have hint {size : Int} (hpos : 0 < size) : BitVec.ofInt 32 size = BitVec.ofNat 32 size.toNat := by
    rw [← BitVec.ofInt_natCast, Int.toNat_of_nonneg (Int.le_of_lt hpos)]
  cases e with
  | rtdb c => rfl
  | stream nr objData offset size =>
      simp only [bytes, raw, Mem.length_bytes, hint h.1]
  | junk objData offset size =>
      simp only [bytes, raw, Mem.length_bytes, hint h.1]

end FileEntry

theorem readChunks_fileBytes {n : Nat} (hsized : ∀ e ∈ entries, e.Sized)
    (hn : entries.length ≤ n) :
    readChunks float n (fileBytes rest entries) =
      entries.map fun e => decodeChunk float (e.raw rest).1 (e.raw rest).2 := by
  induction entries generalizing n with
  | nil => cases n <;> rfl
  | cons e entries ih =>
      cases n with
      | zero => exact absurd hn (Nat.not_succ_le_zero _)
      | succ n =>
          obtain ⟨he, hrest⟩ := List.forall_mem_cons.mp hsized
          obtain ⟨hpos, hlt⟩ := he.length_raw rest
          have hcb : (BitVec.ofNat 32 (e.raw rest).2.length).toNat = (e.raw rest).2.length :=
            Nat.mod_eq_of_lt hlt
          rw [fileBytes, List.flatMap_cons, he.bytes_eq rest, readChunks,
            fgetChunkheader_riffBytes (e.raw_fcc_length rest)]
          dsimp only
          rw [fgetChunkdata_append hcb (List.ne_nil_of_length_pos hpos)]
          dsimp only
          rw [List.map_cons]
          exact congrArg _ (ih hrest (Nat.le_of_succ_le_succ hn))

theorem ofCode_code (type : StreamType) : StreamType.ofCode type.code = some type := by
  cases type <;> decide

/-- An RTDB chunk has its stamp, its object and its type back. -/
theorem decodeChunk_rtdb (c : Chunk) (hoid : FitsInt c.oid) :
    decodeChunk float ((FileEntry.rtdb c).raw rest).1 ((FileEntry.rtdb c).raw rest).2 =
      .entry (.rtdb ⟨c.ts, c.oid, c.type, chunkData float c.type (c.data.bytes rest)⟩) := by
  obtain ⟨ts, oid, type, data⟩ := c
  obtain ⟨hlo, hhi⟩ := hoid
  dsimp only at hlo hhi
  have hts : (Mem.ofBytes (rtdbData ts oid type (data.bytes rest))).read64 0 = ts := by
    simp only [rtdbData, List.append_assoc, Mem.read64_le64]
  have hoid : (Mem.ofBytes (rtdbData ts oid type (data.bytes rest))).read32 8 =
      BitVec.ofInt 32 oid := by
    have hright := Mem.read32_ofBytes_right (Mem.le64 ts)
      (Mem.le32 (BitVec.ofInt 32 oid) ++ (Mem.le32 type.code ++ data.bytes rest)) 0
    simpa only [rtdbData, List.append_assoc, Mem.length_le64, Mem.read32_le32] using hright
  have htype : (Mem.ofBytes (rtdbData ts oid type (data.bytes rest))).read32 12 = type.code := by
    have hright := Mem.read32_ofBytes_right (Mem.le64 ts ++ Mem.le32 (BitVec.ofInt 32 oid))
      (Mem.le32 type.code ++ data.bytes rest) 0
    simpa only [rtdbData, List.append_assoc, List.length_append, Mem.length_le64,
      Mem.length_le32, Mem.read32_le32] using hright
  have hdrop : (rtdbData ts oid type (data.bytes rest)).drop 16 = data.bytes rest :=
    List.drop_left' (by simp)
  have hint : (BitVec.ofInt 32 oid).toInt = oid := by
    rw [BitVec.toInt_ofInt, Int.bmod_eq_of_le (by omega) (by omega)]
  simp only [FileEntry.raw, decodeChunk, if_true, hts, hoid, htype, hdrop, hint, ofCode_code]

theorem decodeChunk_stream {nr : Nat} (hnr : nr < nstreams) (data : List Byte) :
    decodeChunk float (fccStream nr) data =
      .entry (.stream nr (Mem.ofBytes data) 0 data.length) := by
  have hfcc : ∀ nr < nstreams, fccStream nr ≠ fccRtdb ∧ isStreamFcc (fccStream nr) = true ∧
      (fccStreamnr (fccStream nr)).toNat = nr := by decide
  obtain ⟨hne, hstream, hstreamnr⟩ := hfcc nr hnr
  rw [decodeChunk, if_neg hne, if_pos hstream, hstreamnr]

theorem decodeChunk_junk (data : List Byte) :
    decodeChunk float fccJunk data = .entry (.junk (Mem.ofBytes data) 0 data.length) := by
  have hne : fccJunk ≠ fccRtdb := by decide
  have hstream : ¬ isStreamFcc fccJunk = true := by decide
  rw [decodeChunk, if_neg hne, if_neg hstream, if_pos rfl]

/-! ## Playing everything -/

/-- Which objects are played: a deletion ends it, and other metadata begin it. -/
def presentAfter (present : ObjId → Bool) : FileEntry → ObjId → Bool
  | .rtdb c =>
      match c.type with
      | .addobj => Function.update present c.oid true
      | .rfrobj => Function.update present c.oid true
      | .chgobj => Function.update present c.oid true
      | .delobj => Function.update present c.oid false
      | _ => present
  | _ => present

/-- A player without filters that plays the objects `present`, all of them from `oids`. -/
structure Playing (oids : List ObjId) (present : ObjId → Bool) (s : Player) : Prop where
  reading : s.phase = .reading
  doEnd : s.doEnd = 0
  doGoto : s.doGoto = 0
  valid : s.map.Valid
  length : s.map.length = OidMap.slots
  mem : ∀ o ∈ s.map.occupied, o ∈ oids
  find : ∀ o, o ≠ 0 → (present o = true ↔ (s.map.find o).isSome)
  played : ∀ o, o ≠ 0 → ∀ dest, s.map.find o = some dest → dest ≠ 0

def playAll (playeroid : ObjId) : PlayOptions := { playeroid := playeroid }

/-- The record that a call writes, as the object of the recording: its size and what is behind
its base. -/
def recordOf (data : List Byte) : BitVec 32 × List Byte :=
  ((Mem.ofBytes data).read32 20, data.drop 24)

def PlayCall.update : PlayCall → Option (ObjId × BitVec 32 × List Byte)
  | .writedata src _ data => some (src, recordOf data)
  | .writeframe src _ header data => some (src, recordOf (header ++ data))
  | _ => none

variable {oids : List ObjId} {present : ObjId → Bool} {s s' : Player} {playeroid : ObjId}
  {ans : PlayAnswer} {c : Chunk} {o : ObjId} {info : ObjInfo}

theorem playit_playAll (playeroid : ObjId) (info : ObjInfo) :
    playit (playAll playeroid) info = true := rfl

theorem doDb_playAll (playeroid : ObjId) : (playAll playeroid).doDb = true := rfl

namespace Playing

theorem congr (h : Playing oids present s) (hphase : s'.phase = s.phase)
    (hend : s'.doEnd = s.doEnd) (hgoto : s'.doGoto = s.doGoto) (hmap : s'.map = s.map) :
    Playing oids present s' where
  reading := hphase.trans h.reading
  doEnd := hend.trans h.doEnd
  doGoto := hgoto.trans h.doGoto
  valid := hmap ▸ h.valid
  length := hmap ▸ h.length
  mem := hmap ▸ h.mem
  find := hmap ▸ h.find
  played := hmap ▸ h.played

theorem querydest_ne_zero (h : Playing oids present s) (ho : o ≠ 0) :
    s.map.querydest o ≠ 0 ↔ present o = true := by
  rw [h.find o ho, OidMap.querydest]
  cases hfind : s.map.find o with
  | none => simp
  | some dest => simp [h.played o ho dest hfind]

/-- The player does nothing with an RTDB chunk before the `switch`. -/
theorem playEntry_rtdb (h : Playing oids present s) (opts : PlayOptions) (ans : PlayAnswer)
    (c : Chunk) :
    ∃ s', playEntry opts ans (some (.entry (.rtdb c))) s = playSwitch opts ans c s' ∧
      Playing oids present s' ∧ s'.rawnextOid = s.rawnextOid ∧ s'.preBuf = s.preBuf := by
  obtain ⟨initPhase, initialTs, heq⟩ :=
    Player.endInit_eq { s with pos := s.pos + 1, seenRtdb := true } c
  refine ⟨{ s with pos := s.pos + 1, seenRtdb := true, initPhase, initialTs }, ?_,
    h.congr rfl rfl rfl rfl, rfl, rfl⟩
  have hend : ¬ (s.doEnd ≠ 0 ∧ s.doEnd.toInt < c.ts.toInt) := fun hne => hne.1 h.doEnd
  have hgoto : ¬ (s.doGoto ≠ 0 ∧ s.doGoto.toInt ≤ c.ts.toInt) := fun hne => hne.1 h.doGoto
  have hskips : ¬ Player.Skips { s with pos := s.pos + 1, seenRtdb := true, initPhase, initialTs }
    c := fun hne => hne.1 h.doGoto
  rw [playEntry, playChunk, heq, playTimed, if_neg hend, if_neg hskips, if_neg hgoto]

theorem update_true (h : Playing oids present s) (ho : o ≠ 0) (hfind : (s.map.find o).isSome) :
    Playing oids (Function.update present o true) s := by
  rwa [Function.update_eq_self_iff.mpr ((h.find o ho).mpr hfind).symm]

theorem add_isSome (h : Playing oids present s) (hroom : oids.length ≤ OidMap.slots)
    (hmem : o ∈ oids) (ho : o ≠ 0) (dest : ObjId) : (s.map.add o dest).isSome := by
  have hsub : (o :: (s.map.del o).occupied).Subperm oids := by
    refine List.Nodup.subperm (List.nodup_cons.mpr ⟨?_, (h.valid.del o).nodup⟩) ?_
    · rw [OidMap.mem_occupied, h.valid.find_del ho ho, if_pos rfl]
      exact fun hmem => absurd hmem.2 Bool.false_ne_true
    · exact List.cons_subset.mpr ⟨hmem, fun x hx =>
        h.mem x (OidMap.occupied_del_subset.subset hx)⟩
  rw [OidMap.add, OidMap.fill_isSome, OidMap.length_del, h.length]
  exact Nat.lt_of_lt_of_le (Nat.lt_of_succ_le hsub.length_le) hroom

theorem mapAdd (h : Playing oids present s) (hroom : oids.length ≤ OidMap.slots)
    (hmem : o ∈ oids) (ho : o ≠ 0) {dest : ObjId} (hdest : dest ≠ 0) :
    Playing oids (Function.update present o true) (s.mapAdd o dest) ∧
      (s.mapAdd o dest).rawnextOid = s.rawnextOid := by
  obtain ⟨map, hmap⟩ := Option.isSome_iff_exists.mp (h.add_isSome hroom hmem ho dest)
  have hfind (x : ObjId) (hx : x ≠ 0) := h.valid.find_add ho hx hmap
  have hs : s.mapAdd o dest = { s with map := map } := by rw [Player.mapAdd, hmap]
  rw [hs]
  refine ⟨?_, rfl⟩
  constructor
  · exact h.reading
  · exact h.doEnd
  · exact h.doGoto
  · exact h.valid.add ho hmap
  · exact (OidMap.length_add hmap).trans h.length
  · intro x hx
    obtain ⟨hx0, hsome⟩ := OidMap.mem_occupied.mp hx
    rw [hfind x hx0] at hsome
    split at hsome
    · rename_i heq
      exact heq ▸ hmem
    · exact h.mem x (OidMap.mem_occupied.mpr ⟨hx0, hsome⟩)
  · intro x hx
    rw [hfind x hx]
    by_cases heq : x = o
    · simp [heq]
    · rw [Function.update_of_ne heq, if_neg heq]
      exact h.find x hx
  · intro x hx dest' hdest'
    rw [hfind x hx] at hdest'
    split at hdest'
    · cases hdest'
      exact hdest
    · exact h.played x hx dest' hdest'

theorem mapDel (h : Playing oids present s) (ho : o ≠ 0) :
    Playing oids (Function.update present o false) { s with map := s.map.del o } := by
  have hfind (x : ObjId) (hx : x ≠ 0) := h.valid.find_del ho hx
  constructor
  · exact h.reading
  · exact h.doEnd
  · exact h.doGoto
  · exact h.valid.del o
  · exact (OidMap.length_del o s.map).trans h.length
  · exact fun x hx => h.mem x (OidMap.occupied_del_subset.subset hx)
  · intro x hx
    rw [hfind x hx]
    by_cases heq : x = o
    · simp [heq]
    · rw [Function.update_of_ne heq, if_neg heq]
      exact h.find x hx
  · intro x hx dest hdest
    rw [hfind x hx] at hdest
    split at hdest
    · cases hdest
    · exact h.played x hx dest hdest

/-- Metadata begin the playing of an object, and write nothing. -/
theorem playMeta (playeroid : ObjId) (h : Playing oids present s)
    (hroom : oids.length ≤ OidMap.slots) (hdest : 0 < ans.destoid) (hmem : info.oid ∈ oids)
    (ho : info.oid ≠ 0) :
    Playing oids (Function.update present info.oid true)
        (playMeta (playAll playeroid) ans.destoid info s).player ∧
      (playMeta (playAll playeroid) ans.destoid info s).calls.filterMap PlayCall.update = [] ∧
      (playMeta (playAll playeroid) ans.destoid info s).player.rawnextOid = s.rawnextOid := by
  rw [KogmoRtdb.playMeta]
  by_cases hcontains : s.map.contains info.oid = true
  · rw [if_pos hcontains]
    exact ⟨h.update_true ho hcontains, rfl, rfl⟩
  · have hpos : ¬ ans.destoid < 0 := Int.not_lt.mpr (Int.le_of_lt hdest)
    rw [if_neg hcontains, if_neg (by rw [playit_playAll]; decide),
      if_neg (by rw [doDb_playAll]; decide), if_neg hpos]
    obtain ⟨hplaying, hraw⟩ := h.mapAdd hroom hmem ho (Int.ne_of_gt hdest)
    exact ⟨hplaying, rfl, hraw⟩

theorem playDel (playeroid : ObjId) (h : Playing oids present s) (ho : info.oid ≠ 0) :
    Playing oids (Function.update present info.oid false)
        (playDel (playAll playeroid) info s).player ∧
      (playDel (playAll playeroid) info s).calls.filterMap PlayCall.update = [] ∧
      (playDel (playAll playeroid) info s).player.rawnextOid = s.rawnextOid := by
  have hdel := h.mapDel ho
  rw [KogmoRtdb.playDel]
  dsimp only
  split
  · exact ⟨hdel, rfl, rfl⟩
  · rw [if_neg (by rw [doDb_playAll]; decide)]
    -- it is taken out of the map twice
    have htwice := hdel.mapDel ho
    rw [Function.update_idem] at htwice
    exact ⟨htwice, rfl, rfl⟩

theorem playUpd (playeroid : ObjId) (h : Playing oids present s) (ho : c.oid ≠ 0)
    (now : Timestamp) :
    Playing oids present (playUpd (playAll playeroid) now c s).player ∧
      (playUpd (playAll playeroid) now c s).calls.filterMap PlayCall.update =
        if present c.oid then [(c.oid, recordOf (restamp now c.base))] else [] := by
  have hdest := h.querydest_ne_zero ho
  rw [KogmoRtdb.playUpd]
  by_cases hzero : s.map.querydest c.oid = 0
  · rw [if_pos hzero, if_neg fun hpresent => hdest.mpr hpresent hzero]
    exact ⟨h, rfl⟩
  · rw [if_neg hzero, if_pos (hdest.mp hzero)]
    dsimp only
    refine ⟨?_, rfl⟩
    split
    · exact h.congr rfl rfl rfl rfl
    · exact h

/-- The header of an object that is played is kept, and that of another one is not. -/
theorem playNext (playeroid : ObjId) (h : Playing oids present s) (ho : c.oid ≠ 0)
    (hlen : c.base.length ≤ preBufMax) :
    Playing oids present (playNext (playAll playeroid) c s).player ∧
      (playNext (playAll playeroid) c s).calls = [] ∧
      if present c.oid then
        (playNext (playAll playeroid) c s).player.rawnextOid = c.oid ∧
          (playNext (playAll playeroid) c s).player.preBuf = c.base
      else (playNext (playAll playeroid) c s).player.rawnextOid = s.rawnextOid := by
  have hdest := h.querydest_ne_zero ho
  rw [KogmoRtdb.playNext]
  by_cases hzero : s.map.querydest c.oid = 0
  · rw [if_pos hzero, if_neg fun hpresent => hdest.mpr hpresent hzero]
    exact ⟨h, rfl, rfl⟩
  · rw [if_neg hzero, if_neg (Nat.not_lt.mpr hlen), if_pos (hdest.mp hzero)]
    exact ⟨h.congr rfl rfl rfl rfl, rfl, rfl, rfl⟩

/-- A frame is written as the object whose header is kept, if that is played. -/
theorem playStream (playeroid : ObjId) (h : Playing oids present s) (data : List Byte) :
    Playing oids present (playStream (playAll playeroid) data s).player ∧
      (playStream (playAll playeroid) data s).calls.filterMap PlayCall.update =
        if s.rawnextOid ≠ 0 ∧ present s.rawnextOid then
          [(s.rawnextOid, recordOf (s.preBuf ++ data))] else [] := by
  obtain ⟨rawnextFrameGo, frameGo, heq⟩ := s.countFrame_eq
  rw [KogmoRtdb.playStream, heq]
  dsimp only
  by_cases hraw : s.rawnextOid = 0
  · rw [if_pos hraw, if_neg fun hne => hne.1 hraw]
    exact ⟨h.congr rfl rfl rfl rfl, rfl⟩
  · have hdest := h.querydest_ne_zero hraw
    rw [if_neg hraw]
    refine ⟨h.congr rfl rfl rfl rfl, ?_⟩
    dsimp only
    by_cases hpresent : present s.rawnextOid = true
    · rw [if_pos ⟨hdest.mpr hpresent, doDb_playAll playeroid⟩, if_pos ⟨hraw, hpresent⟩]
      rfl
    · rw [if_neg fun hne => hpresent (hdest.mp hne.1), if_neg fun hne => hpresent hne.2]
      rfl

end Playing

/-! ## The entries of a pass -/

variable {answers : Nat → PlayAnswer} {chunk : PlayChunk} {chunks : List PlayChunk}
  {d : Decision} {msg : TraceMsg} {objData : Mem}

def playUpdates (playeroid : ObjId) (answers : Nat → PlayAnswer) (chunks : List PlayChunk)
    (s : Player) : List (ObjId × BitVec 32 × List Byte) :=
  (playFile (playAll playeroid) answers chunks s).1.filterMap PlayCall.update

theorem playUpdates_cons
    (h : (playEntry (playAll playeroid) (answers s.pos) (some chunk) s).player.phase = .reading) :
    playUpdates playeroid answers (chunk :: chunks) s =
      (playEntry (playAll playeroid) (answers s.pos) (some chunk) s).calls.filterMap
          PlayCall.update ++
        playUpdates playeroid answers chunks
          (playEntry (playAll playeroid) (answers s.pos) (some chunk) s).player := by
  rw [playUpdates, playFile, if_pos h, List.filterMap_append]
  rfl

def FileEntry.decoded (rest : ObjInfo → Mem) (float : BitVec 32 → ℚ) (e : FileEntry) : PlayChunk :=
  decodeChunk float (e.raw rest).1 (e.raw rest).2

inductive FileEntry.IsAux (o : ObjId) : FileEntry → Prop where
  | error (ts : Timestamp) (o' : ObjId) : FitsInt o' → IsAux o (errorEntry ts o')
  | info (ts : Timestamp) (type : StreamType) (objInfo : ObjInfo) :
      type ≠ .updobj → type ≠ .updobjNext → type ≠ .error → objInfo.oid = o →
      IsAux o (.rtdb ⟨ts, o, type, .info objInfo⟩)

theorem read32_infoImage (rest : ObjInfo → Mem) (info : ObjInfo) :
    (infoImage rest info).read32 0 = BitVec.ofInt 32 info.oid := by
  have hsame (b : Nat) (hb : b < 4) :
      infoImage rest info b = (rest info).write32 0 (BitVec.ofInt 32 info.oid) b := by
    rw [infoImage]
    simp (disch := omega) only [Mem.write32_outside, Mem.write64_outside, Mem.copy_outside]
  exact (Mem.read32_congr fun b _ hb => hsame b (by omega)).trans (Mem.read32_write32 ..)

theorem oid_ofMem_infoImage (rest : ObjInfo → Mem) (float : BitVec 32 → ℚ)
    (hint : FitsInt info.oid) :
    (ObjInfo.ofMem float (Mem.ofBytes ((infoImage rest info).bytes 0 infoSize))).oid =
      info.oid := by
  obtain ⟨hlo, hhi⟩ := hint
  rw [ObjInfo.ofMem, Mem.read32_ofBytes_bytes (by decide), Nat.zero_add, read32_infoImage,
    BitVec.toInt_ofInt, Int.bmod_eq_of_le (by omega) (by omega)]

theorem Playing.switch_info (playeroid : ObjId) (h : Playing oids present s)
    (hroom : oids.length ≤ OidMap.slots) (hdest : 0 < ans.destoid) (hmem : o ∈ oids) (ho : o ≠ 0)
    {type : StreamType} (hupd : type ≠ .updobj) (hnext : type ≠ .updobjNext)
    (ts : Timestamp) (objInfo : ObjInfo)
    (hinfo : info.oid = o) :
    Playing oids (presentAfter present (.rtdb ⟨ts, o, type, .info objInfo⟩))
        (playSwitch (playAll playeroid) ans ⟨ts, o, type, .info info⟩ s).player ∧
      (playSwitch (playAll playeroid) ans ⟨ts, o, type, .info info⟩ s).calls.filterMap
        PlayCall.update = [] := by
  subst hinfo
  obtain ⟨hmeta, hmetaCalls, -⟩ := h.playMeta playeroid hroom hdest hmem ho
  obtain ⟨hdel, hdelCalls, -⟩ := h.playDel playeroid ho
  cases type with
  | addobj => exact ⟨hmeta, hmetaCalls⟩
  | rfrobj => exact ⟨hmeta, hmetaCalls⟩
  | chgobj => exact ⟨hmeta, hmetaCalls⟩
  | delobj => exact ⟨hdel, hdelCalls⟩
  | error => exact ⟨h, rfl⟩
  | updobj => exact absurd rfl hupd
  | updobjNext => exact absurd rfl hnext

theorem Playing.aux (h : Playing oids present s) (hroom : oids.length ≤ OidMap.slots)
    (hdest : ∀ k, 0 < (answers k).destoid) (hmem : o ∈ oids) (ho : o ≠ 0) (hint : FitsInt o)
    (haux : e.IsAux o) :
    ∃ s', playUpdates playeroid answers (e.decoded rest float :: chunks) s =
        playUpdates playeroid answers chunks s' ∧
      Playing oids (presentAfter present e) s' := by
  cases haux with
  | error ts o' ho' =>
      have hdecoded : (errorEntry ts o').decoded rest float =
          .entry (.rtdb ⟨ts, o', .error, .empty⟩) := decodeChunk_rtdb _ ho'
      obtain ⟨s₁, heq, hs₁, -⟩ := h.playEntry_rtdb (playAll playeroid) (answers s.pos)
        ⟨ts, o', .error, .empty⟩
      refine ⟨s₁, ?_, hs₁⟩
      rw [hdecoded, playUpdates_cons (by rw [heq]; exact hs₁.reading), heq]
      rfl
  | info ts type objInfo hupd hnext herror hinfo =>
      have hdata : chunkData float type ((ChunkData.info objInfo).bytes rest) =
        .info (ObjInfo.ofMem float (Mem.ofBytes ((infoImage rest objInfo).bytes 0 infoSize))) := by
        cases type <;> first | rfl | contradiction
      have hdecoded : (FileEntry.rtdb ⟨ts, o, type, .info objInfo⟩).decoded rest float = _ :=
        decodeChunk_rtdb _ hint
      rw [hdecoded]
      dsimp only
      rw [hdata]
      have hoid := oid_ofMem_infoImage rest float (hinfo ▸ hint)
      rw [hinfo] at hoid
      generalize ObjInfo.ofMem float _ = info at hoid
      obtain ⟨s₁, heq, hs₁, -⟩ := h.playEntry_rtdb (playAll playeroid) (answers s.pos)
        ⟨ts, o, type, .info info⟩
      obtain ⟨hplaying, hcalls⟩ := hs₁.switch_info playeroid hroom
        (hdest s.pos) hmem ho hupd hnext ts objInfo hoid
      rw [← heq] at hplaying hcalls
      refine ⟨_, ?_, hplaying⟩
      rw [playUpdates_cons hplaying.reading, hcalls, List.nil_append]

theorem Playing.auxs (h : Playing oids present s) (hroom : oids.length ≤ OidMap.slots)
    (hdest : ∀ k, 0 < (answers k).destoid) (hmem : o ∈ oids) (ho : o ≠ 0) (hint : FitsInt o)
    (haux : ∀ e ∈ entries, e.IsAux o) :
    ∃ s', playUpdates playeroid answers (entries.map (FileEntry.decoded rest float) ++ chunks) s =
        playUpdates playeroid answers chunks s' ∧
      Playing oids (entries.foldl presentAfter present) s' := by
  induction entries generalizing present s with
  | nil => exact ⟨s, rfl, h⟩
  | cons e entries ih =>
      obtain ⟨he, hentries⟩ := List.forall_mem_cons.mp haux
      obtain ⟨s₁, heq₁, hs₁⟩ : ∃ s', playUpdates playeroid answers
          (e.decoded rest float :: (entries.map (FileEntry.decoded rest float) ++ chunks)) s = _ ∧
          Playing oids _ s' := h.aux hroom hdest hmem ho hint he
      obtain ⟨s₂, heq₂, hs₂⟩ := ih hs₁ hentries
      exact ⟨s₂, heq₁.trans heq₂, hs₂⟩

/-! ### Updates -/

/-- The stamp is neither in the size nor behind the base. -/
theorem recordOf_restamp {now : Timestamp} {base : List Byte} (h : 24 ≤ base.length) :
    recordOf (restamp now base) = recordOf base := by
  have hfront (v : BitVec 64) : (base.take 12 ++ Mem.le64 v).length = 20 := by
    simp only [List.length_append, List.length_take, Mem.length_le64]
    omega
  have htake : (base.take 20).length = 20 := by
    rw [List.length_take]
    omega
  have hsize : (Mem.ofBytes base).read32 20 = (Mem.ofBytes (base.drop 20)).read32 0 := by
    have hright := Mem.read32_ofBytes_right (base.take 20) (base.drop 20) 0
    rwa [List.take_append_drop, htake] at hright
  rw [restamp]
  generalize Mem.read64 _ 12 + _ = v
  have hright := Mem.read32_ofBytes_right (base.take 12 ++ Mem.le64 v) (base.drop 20) 0
  rw [hfront v] at hright
  have hdrop : (base.take 12 ++ Mem.le64 v ++ base.drop 20).drop 24 = base.drop 24 := by
    rw [show 24 = (base.take 12 ++ Mem.le64 v).length + 4 by rw [hfront],
      List.drop_length_add_append, List.drop_drop, hfront]
  rw [recordOf, recordOf, hright, hsize, hdrop]

/-- The chunk of a plain update is written if its object is played. -/
theorem Playing.plain (h : Playing oids present s) (ho : o ≠ 0) (hint : FitsInt o) {size : Int}
    (hsize : 24 ≤ size) (ts : Timestamp) (objData : Mem) :
    ∃ s', playUpdates playeroid answers
        ((FileEntry.rtdb ⟨ts, o, .updobj, .object objData size⟩).decoded rest float :: chunks) s =
        (if present o then [(o, recordOf (objData.bytes 0 size.toNat))] else []) ++
          playUpdates playeroid answers chunks s' ∧
      Playing oids present s' := by
  let c : Chunk := ⟨ts, o, .updobj, chunkData float .updobj (objData.bytes 0 size.toNat)⟩
  have hdecoded : (FileEntry.rtdb ⟨ts, o, .updobj, .object objData size⟩).decoded rest float =
    .entry (.rtdb c) := decodeChunk_rtdb _ hint
  rw [hdecoded]
  have hbase : c.base = objData.bytes 0 size.toNat := Mem.bytes_ofBytes _
  obtain ⟨s₁, heq, hs₁, -⟩ := h.playEntry_rtdb (playAll playeroid) (answers s.pos) c
  have hupd := hs₁.playUpd (c := c) playeroid ho (answers s.pos).now
  rw [hbase, recordOf_restamp (by rw [Mem.length_bytes]; omega)] at hupd
  obtain ⟨hplaying, hcalls⟩ := hupd
  have hentry : playEntry (playAll playeroid) (answers s.pos) (some (.entry (.rtdb c))) s =
    KogmoRtdb.playUpd (playAll playeroid) (answers s.pos).now c s₁ := heq
  refine ⟨_, ?_, hplaying⟩
  rw [← hentry] at hplaying hcalls ⊢
  rw [← hcalls]
  exact playUpdates_cons hplaying.reading

/-- A header writes nothing, and is kept if its object is played. -/
theorem Playing.header (h : Playing oids present s) (ho : o ≠ 0) (hint : FitsInt o) {size : Int}
    (hsize : size ≤ preBufMax) (ts : Timestamp) (objData : Mem) :
    ∃ s', playUpdates playeroid answers
        ((FileEntry.rtdb ⟨ts, o, .updobjNext, .object objData size⟩).decoded rest float :: chunks)
        s = playUpdates playeroid answers chunks s' ∧
      Playing oids present s' ∧
      if present o then s'.rawnextOid = o ∧ s'.preBuf = objData.bytes 0 size.toNat
      else s'.rawnextOid = s.rawnextOid := by
  let c : Chunk :=
    ⟨ts, o, .updobjNext, chunkData float .updobjNext (objData.bytes 0 size.toNat)⟩
  have hdecoded : (FileEntry.rtdb ⟨ts, o, .updobjNext, .object objData size⟩).decoded rest float =
    .entry (.rtdb c) := decodeChunk_rtdb _ hint
  rw [hdecoded]
  have hbase : c.base = objData.bytes 0 size.toNat := Mem.bytes_ofBytes _
  obtain ⟨s₁, heq, hs₁, hraw, -⟩ := h.playEntry_rtdb (playAll playeroid) (answers s.pos) c
  have hnext := hs₁.playNext (c := c) playeroid ho (by rw [hbase, Mem.length_bytes]; omega)
  rw [hbase, hraw] at hnext
  obtain ⟨hplaying, hcalls, hkept⟩ := hnext
  have hentry : playEntry (playAll playeroid) (answers s.pos) (some (.entry (.rtdb c))) s =
    KogmoRtdb.playNext (playAll playeroid) c s₁ := heq
  refine ⟨_, ?_, hplaying, hkept⟩
  rw [← hentry] at hplaying hcalls ⊢
  rw [playUpdates_cons hplaying.reading, hcalls]
  rfl

/-- A frame is written as the object whose header is kept. -/
theorem Playing.frame (h : Playing oids present s) {nr : Nat} (hnr : nr < nstreams)
    (objData : Mem) (offset size : Int) :
    ∃ s', playUpdates playeroid answers
        ((FileEntry.stream nr objData offset size).decoded rest float :: chunks) s =
        (if s.rawnextOid ≠ 0 ∧ present s.rawnextOid then
          [(s.rawnextOid,
            recordOf (s.preBuf ++ objData.bytes offset.toNat size.toNat))] else []) ++
          playUpdates playeroid answers chunks s' ∧
      Playing oids present s' := by
  have hdecoded : (FileEntry.stream nr objData offset size).decoded rest float =
      .entry (.stream nr (Mem.ofBytes (objData.bytes offset.toNat size.toNat)) 0
        (objData.bytes offset.toNat size.toNat).length) := decodeChunk_stream hnr _
  rw [hdecoded]
  generalize hdata : objData.bytes offset.toNat size.toNat = data
  have hnext : Playing oids present { s with pos := s.pos + 1 } := h.congr rfl rfl rfl rfl
  obtain ⟨hplaying, hcalls⟩ := hnext.playStream playeroid data
  have hentry : playEntry (playAll playeroid) (answers s.pos)
      (some (.entry (.stream nr (Mem.ofBytes data) 0 data.length))) s =
        KogmoRtdb.playStream (playAll playeroid) data { s with pos := s.pos + 1 } := by
    have hbytes : (Mem.ofBytes data).bytes (0 : Int).toNat (data.length : Int).toNat = data :=
      Mem.bytes_ofBytes data
    simp only [playEntry, if_pos hnr, hbytes]
  refine ⟨_, ?_, hplaying⟩
  rw [← hentry] at hplaying hcalls ⊢
  rw [← hcalls]
  exact playUpdates_cons hplaying.reading

theorem Playing.junk (h : Playing oids present s) (objData : Mem) (offset size : Int) :
    ∃ s', playUpdates playeroid answers
        ((FileEntry.junk objData offset size).decoded rest float :: chunks) s =
          playUpdates playeroid answers chunks s' ∧
      Playing oids present s' := by
  have hdecoded : (FileEntry.junk objData offset size).decoded rest float = _ :=
    decodeChunk_junk _
  rw [hdecoded]
  exact ⟨_, playUpdates_cons h.reading, h.congr rfl rfl rfl rfl⟩

end KogmoRtdb
