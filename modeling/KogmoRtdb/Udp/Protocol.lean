import KogmoRtdb.DataPath.HistSearch
import KogmoRtdb.Lib.ByteList
import KogmoRtdb.Record.AviRaw

/-!
# The protocol of the UDP monitor

Requests and replies of `udpsimple.h`. A reply is a sequence of bytes: a header for each object,
behind it the object's metadata and data as the request asks for them. Metadata are the bytes of a
`kogmo_rtdb_obj_info_t`, of which some fields are looked at.

Without `UDPSIMPLEBZIP2` and `USEJPEG`, and without the reduction of images.
-/

namespace KogmoRtdb.Udp

/-- `BUFSIZE`. -/
def bufsize : Nat := 65000

/-- `kogmo_rtdb_udpmon_protocol_version`. -/
def protocolVersion : BitVec 16 := 2

/-- `UDPSIMPLEFLAG_*`. -/
def flagInfo : BitVec 16 := 0x01
def flagData : BitVec 16 := 0x02
def flagList : BitVec 16 := 0x04
def flagWrite : BitVec 16 := 0x08

/-- `flags & flag`. -/
def Flag (flags flag : BitVec 16) : Prop := flags &&& flag ≠ 0

instance decidableFlag (flags flag : BitVec 16) : Decidable (Flag flags flag) :=
  inferInstanceAs (Decidable (_ ≠ _))

/-! ## Metadata -/

/-- The bytes of a `kogmo_rtdb_obj_info_t`. -/
structure WireInfo where
  bytes : List Byte
  length_eq : bytes.length = infoSize

namespace WireInfo

def oid (info : WireInfo) : BitVec 32 := (Mem.ofBytes info.bytes).read32 0

def sizeMax (info : WireInfo) : Int := ((Mem.ofBytes info.bytes).read32 80).toInt

def deletedTs (info : WireInfo) : Timestamp := (Mem.ofBytes info.bytes).read64 60

def ofMem (m : Mem) (a : Nat) : WireInfo := ⟨m.bytes a infoSize, Mem.length_bytes ..⟩

def setOid (info : WireInfo) (oid : BitVec 32) : WireInfo :=
  ofMem ((Mem.ofBytes info.bytes).write32 0 oid) 0

def setDeletedTs (info : WireInfo) (ts : Timestamp) : WireInfo :=
  ofMem ((Mem.ofBytes info.bytes).write64 60 ts) 0

theorem deletedTs_setDeletedTs (info : WireInfo) (ts : Timestamp) :
    (info.setDeletedTs ts).deletedTs = ts := by
  have hread : (info.setDeletedTs ts).deletedTs =
      ((Mem.ofBytes info.bytes).write64 60 ts).read64 60 :=
    Mem.read64_congr fun b h1 h2 => by
      unfold setDeletedTs ofMem
      rw [Mem.ofBytes_bytes (by simp only [infoSize]; omega), Nat.zero_add]
  rw [hread, Mem.read64_write64]

theorem ofMem_of_has {info : WireInfo} {m : Mem} {a : Nat} (h : m.Has a info.bytes) :
    ofMem m a = info := by
  obtain ⟨bytes, hlen⟩ := info
  have heq : m.bytes a infoSize = bytes := hlen ▸ h
  subst heq
  rfl

end WireInfo

/-! ## Replies -/

/-- `kogmo_rtdb_obj_udpsimplerply_t` behind its four characters. -/
structure Reply where
  version : BitVec 16
  reply : BitVec 16
  flags : BitVec 16
  oid : BitVec 32
  deriving DecidableEq

namespace Reply

/-- `sizeof(kogmo_rtdb_obj_udpsimplerply_t)`. -/
def size : Nat := 14

def bytes (r : Reply) : List Byte :=
  fccRtdb ++ (Mem.le16 r.version ++ (Mem.le16 r.reply ++ (Mem.le16 r.flags ++ Mem.le32 r.oid)))

def ofMem (m : Mem) (a : Nat) : Reply where
  version := m.read16 (a + 4)
  reply := m.read16 (a + 6)
  flags := m.read16 (a + 8)
  oid := m.read32 (a + 10)

@[simp] theorem length_bytes (r : Reply) : r.bytes.length = size := by
  simp [bytes, fccRtdb, size]

theorem fcc_of_has {r : Reply} {m : Mem} {a : Nat} (h : m.Has a r.bytes) :
    m.bytes a 4 = fccRtdb :=
  (Mem.has_append.mp h).1

theorem ofMem_of_has {r : Reply} {m : Mem} {a : Nat} (h : m.Has a r.bytes) : ofMem m a = r := by
  obtain ⟨-, h⟩ := Mem.has_append.mp h
  obtain ⟨hversion, h⟩ := Mem.has_append.mp h
  obtain ⟨hreply, h⟩ := Mem.has_append.mp h
  obtain ⟨hflags, hoid⟩ := Mem.has_append.mp h
  simp only [fccRtdb, List.length_cons, List.length_nil, Mem.length_le16, Nat.add_assoc] at *
  cases r
  simp only [ofMem, hversion.read16_le16, hreply.read16_le16, hflags.read16_le16,
    hoid.read32_le32]

end Reply

end KogmoRtdb.Udp
