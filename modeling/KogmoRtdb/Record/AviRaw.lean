import KogmoRtdb.Lib.ByteList
import KogmoRtdb.Record.Recorder

/-!
# The file format

What `kogmo_rtdb_avirawcodec.c` and `aviraw_fput_rtdb` write and read: chunks with four
characters, a length and that many bytes, and a zero where the length is odd. A chunk of the
RTDB has a second header in its data, `kogmo_rtdb_stream_chunk_t`, with the time stamp, the
object and the type.
-/

namespace KogmoRtdb

/-! ## Chunks -/

/-- `riffchunk_t` with its data. -/
structure RiffChunk where
  fcc : List Byte
  data : List Byte
  fcc_length : fcc.length = 4
  data_lt : data.length < 2 ^ 32

def padding (n : Nat) : List Byte := if n % 2 = 1 then [0] else []

/-- `aviraw_fput_chunk`: the header and the data of a chunk, `cb` being its length as the header
states it. -/
def riffBytes (fcc : List Byte) (cb : BitVec 32) (data : List Byte) : List Byte :=
  fcc ++ Mem.le32 cb ++ data ++ padding cb.toNat

/-- `aviraw_fget_chunkheader`: the four characters, the length, and what follows. -/
def fgetChunkheader (file : List Byte) : Option (List Byte × BitVec 32 × List Byte) :=
  if file.length < 8 then none
  else some (file.take 4, (Mem.ofBytes file).read32 4, file.drop 8)

/-- `aviraw_fget_chunkdata`, with a buffer that is large enough. An empty chunk is an error:
`fread` answers 0. -/
def fgetChunkdata (cb : BitVec 32) (file : List Byte) : Option (List Byte × List Byte) :=
  let n := cb.toNat + (padding cb.toNat).length
  if n = 0 ∨ file.length < n then none else some (file.take cb.toNat, file.drop n)

theorem fgetChunkheader_riffBytes {fcc : List Byte} (hfcc : fcc.length = 4) (cb : BitVec 32)
    (data rest : List Byte) :
    fgetChunkheader (riffBytes fcc cb data ++ rest) =
      some (fcc, cb, data ++ padding cb.toNat ++ rest) := by
  have hsplit : riffBytes fcc cb data ++ rest =
      fcc ++ (Mem.le32 cb ++ (data ++ padding cb.toNat ++ rest)) := by
    simp [riffBytes]
  rw [hsplit, fgetChunkheader, if_neg (by simp [hfcc]; omega)]
  refine congrArg some (Prod.ext ?_ (Prod.ext ?_ ?_))
  · exact List.take_left' hfcc
  · dsimp only
    rw [show 4 = fcc.length + 0 by omega, Mem.read32_ofBytes_right, Mem.read32_le32]
  · dsimp only
    rw [← List.append_assoc fcc]
    exact List.drop_left' (by simp [hfcc])

theorem fgetChunkdata_append {cb : BitVec 32} {data : List Byte} (hcb : cb.toNat = data.length)
    (hne : data ≠ []) (rest : List Byte) :
    fgetChunkdata cb (data ++ padding cb.toNat ++ rest) = some (data, rest) := by
  have hpos : 0 < data.length := List.length_pos_iff.mpr hne
  rw [fgetChunkdata, hcb, if_neg (by simp only [List.length_append]; omega)]
  refine congrArg some (Prod.ext ?_ ?_)
  · rw [List.append_assoc]
    exact List.take_left' rfl
  · exact List.drop_left' (by simp)

/-! ## What the recorder writes -/

/-- `KOGMO_RTDB_STREAM_TYPE_*`. -/
def StreamType.code : StreamType → BitVec 32
  | .addobj => 1
  | .delobj => 2
  | .updobj => 3
  | .updobjNext => 4
  | .rfrobj => 5
  | .chgobj => 6
  | .error => 7

/-- `"RTDB"`, `"JUNK"` and `"0Xdb"`. -/
def fccRtdb : List Byte := [0x52, 0x54, 0x44, 0x42]
def fccJunk : List Byte := [0x4a, 0x55, 0x4e, 0x4b]
def fccStream (stream : Nat) : List Byte := [0x30, BitVec.ofNat 8 (0x30 + stream), 0x64, 0x62]

/-- `sizeof(kogmo_rtdb_obj_info_t)`. -/
def infoSize : Nat := 112

/-- The bit field `flags` as a word. -/
def ObjFlags.word (flags : ObjFlags) : BitVec 32 :=
  [flags.readDeny, flags.writeAllow, flags.keepAlloc, flags.unique, flags.cycleWatch,
    flags.persistent, flags.parentDelete, flags.noNotifies, flags.immediatelyDelete,
    flags.withholdStale].zipIdx.foldl (fun w (b, i) => if b then w ||| 1 <<< i else w) 0

def nameBytes (name : ObjName) : List Byte := name.map fun c => BitVec.ofNat 8 c.toNat

/-- The bytes of an object's metadata. `rest` has those of the fields that the model does not
hold, or holds as rationals. -/
def infoImage (rest : ObjInfo → Mem) (info : ObjInfo) : Mem :=
  (rest info).write32 0 (BitVec.ofInt 32 info.oid)
    |>.copy 4 (Mem.ofBytes (nameBytes info.name)) 0 nameMaxlen
    |>.write64 36 info.createdTs
    |>.write32 44 (BitVec.ofInt 32 info.createdProc)
    |>.write64 60 info.deletedTs
    |>.write32 68 (BitVec.ofInt 32 info.deletedProc)
    |>.write32 72 (BitVec.ofInt 32 info.parentOid)
    |>.write32 76 (BitVec.ofInt 32 info.otype)
    |>.write32 80 (BitVec.ofInt 32 info.sizeMax)
    |>.write32 96 info.flags.word
    |>.write32 100 (BitVec.ofInt 32 info.historySize)
    |>.write32 104 (BitVec.ofInt 32 info.historySlot)
    |>.write32 108 (BitVec.ofInt 32 info.bufferIdx)

/-- `aviraw_fput_rtdb`: the second header and the data. -/
def rtdbData (ts : Timestamp) (oid : ObjId) (type : StreamType) (data : List Byte) : List Byte :=
  Mem.le64 ts ++ Mem.le32 (BitVec.ofInt 32 oid) ++ Mem.le32 type.code ++ data

def ChunkData.bytes (rest : ObjInfo → Mem) : ChunkData → List Byte
  | .empty => []
  | .info objInfo => (infoImage rest objInfo).bytes 0 infoSize
  | .object objData size => objData.bytes 0 size.toNat

/-- The bytes of an entry: `aviraw_fput_rtdb`, `aviraw_fput_stream` and `aviraw_fput_junk`. -/
def FileEntry.bytes (rest : ObjInfo → Mem) : FileEntry → List Byte
  | .rtdb chunk =>
      let data := rtdbData chunk.ts chunk.oid chunk.type (chunk.data.bytes rest)
      riffBytes fccRtdb (BitVec.ofNat 32 data.length) data
  | .stream nr objData offset size =>
      riffBytes (fccStream nr) (BitVec.ofInt 32 size) (objData.bytes offset.toNat size.toNat)
  | .junk objData offset size =>
      riffBytes fccJunk (BitVec.ofInt 32 size) (objData.bytes offset.toNat size.toNat)

def fileBytes (rest : ObjInfo → Mem) (entries : List FileEntry) : List Byte :=
  entries.flatMap (FileEntry.bytes rest)

end KogmoRtdb
