import KogmoRtdb.Udp.Protocol
import Mathlib.Data.List.Sort

/-!
# The UDP server

One pass of the loop of `udpsimpleserver.c`: a request, the calls to the local database it takes,
and the reply. `LocalApi` are the answers of the database in the state the request meets; a
request makes at most one call that changes it.
-/

namespace KogmoRtdb

/-- How much of the record is copied into a buffer of `size` bytes. -/
def Commit.avail (c : Commit) (size : Int) : Int := if c.size ≤ size then c.size else size

/-- What `kogmo_rtdb_obj_readdata` leaves in a buffer of `size` bytes when it reads `c`. -/
def Commit.deliver (c : Commit) (size : Int) (buf : Mem) : Mem :=
  ((buf.copy 0 c.bytes 0 (c.avail size).toNat).write32 20
    (BitVec.ofInt 32 (c.avail size))).write64 0 c.stamp

theorem Commit.avail_of_le {c : Commit} {size : Int} (h : c.size ≤ size) :
    c.avail size = c.size := if_pos h

theorem Commit.avail_of_lt {c : Commit} {size : Int} (h : size < c.size) : c.avail size = size :=
  if_neg (Int.not_le.mpr h)

theorem Commit.avail_le (c : Commit) (size : Int) :
    c.avail size ≤ c.size ∧ c.avail size ≤ size := by
  unfold Commit.avail
  split <;> omega

theorem Commit.deliver_read32 (c : Commit) (size : Int) (buf : Mem) :
    (c.deliver size buf).read32 20 = BitVec.ofInt 32 (c.avail size) := by
  unfold Commit.deliver
  rw [Mem.read32_congr fun b h1 _ => Mem.write64_outside (by omega), Mem.read32_write32]

theorem Commit.size_lt (c : Commit) : (c.size : Int) < 2 ^ 31 := by
  rw [← c.size_eq]
  exact BitVec.toInt_lt

/-- What is delivered of a record does not depend on the buffer, -/
theorem Commit.deliver_inside (c : Commit) {size size' : Int} (h : c.avail size = c.avail size')
    (buf buf' : Mem) {b : Nat} (hb : b < c.avail size) :
    c.deliver size buf b = c.deliver size' buf' b := by
  have hcopy : buf.copy 0 c.bytes 0 (c.avail size).toNat b =
      buf'.copy 0 c.bytes 0 (c.avail size).toNat b := by
    rw [Mem.copy_inside (by omega) (by omega), Mem.copy_inside (by omega) (by omega)]
  unfold Commit.deliver
  rw [← h]
  simp only [Mem.write64, Mem.write32, Mem.copy] at hcopy ⊢
  rw [hcopy]

/-- and behind it the buffer is as before. -/
theorem Commit.deliver_outside (c : Commit) {size : Int} (h : c.size ≤ size) (buf : Mem)
    {b : Nat} (hb : c.size ≤ b) : c.deliver size buf b = buf b := by
  have hmin := c.size_min
  unfold Commit.deliver
  rw [Commit.avail_of_le h, Int.toNat_natCast, Mem.write64_outside (by omega),
    Mem.write32_outside (by omega), Mem.copy_outside (by omega)]

theorem Commit.deliver_size (c : Commit) {size : Int} (h0 : 0 ≤ size) (buf : Mem) :
    ((c.deliver size buf).read32 20).toInt = c.avail size := by
  have hlt := c.size_lt
  have hle := c.avail_le size
  have hpos : 0 ≤ c.avail size := by
    unfold Commit.avail
    split <;> omega
  rw [c.deliver_read32, BitVec.toInt_ofInt, Int.bmod_eq_of_le (by omega) (by omega)]

namespace Udp

/-- The database of the server as a request meets it: what its calls answer. `select` is the
record that `kogmo_rtdb_obj_readdata` finds. -/
structure LocalApi where
  /-- `kogmo_rtdb_obj_searchinfo`: its answer and the list -/
  searchinfo : (name : List Byte) → (otype parentOid procOid : BitVec 32) → Timestamp →
    (nth : BitVec 32) → BitVec 32 × (Nat → BitVec 32)
  readinfo : BitVec 32 → Timestamp → Except Err WireInfo
  select : BitVec 32 → Timestamp → Except Err Commit
  writedata : BitVec 32 → List Byte → BitVec 32
  insert : WireInfo → BitVec 32
  delete : WireInfo → BitVec 32
  /-- `metadata_p->size_max++; // make size even` -/
  sizeMax_even : ∀ {oid ts info}, readinfo oid ts = .ok info → info.sizeMax % 2 = 0
  /-- an object with data has room for a `kogmo_rtdb_subobj_base_t` -/
  sizeMax_min : ∀ {oid ts info c}, readinfo oid ts = .ok info → select oid ts = .ok c →
    24 ≤ info.sizeMax
  /-- `size < sizeof ( kogmo_rtdb_subobj_base_t )` -/
  writedata_short : ∀ {oid data}, data.length < 24 → (writedata oid data).toInt < 0
  delete_nonpos : ∀ {info}, (delete info).toInt ≤ 0

/-- `kogmo_rtdb_obj_readdata`: its answer and the buffer. -/
def LocalApi.readdata (api : LocalApi) (oid : BitVec 32) (ts : Timestamp) (size : Int)
    (buf : Mem) : Result × Mem :=
  match api.select oid ts with
  | .error e => (.error e, buf)
  | .ok c => (.ok c.size, c.deliver size buf)

/-- `kogmo_rtdb_obj_udpsimplereq_t` behind its four characters. `data` is what the server's receive
buffer has behind it, of which `dataLen` bytes came with the request. -/
structure Request where
  version : BitVec 16
  request : BitVec 16
  flags : BitVec 16
  oid : BitVec 32
  ts : Timestamp
  name : List Byte
  otype : BitVec 32
  parentOid : BitVec 32
  procOid : BitVec 32
  nth : BitVec 32
  data : Mem
  dataLen : Nat

/-- `sizeof(kogmo_rtdb_obj_udpsimplereq_t)`. -/
def Request.size : Nat := 70

structure Served where
  oid : BitVec 32
  info : WireInfo
  data : Option (List Byte)

/-- The header of a reply to `req`. -/
def Request.header (req : Request) (flags : BitVec 16) (oid : BitVec 32) : List Byte :=
  Reply.bytes ⟨protocolVersion, req.request, flags, oid⟩

def Served.bytes (req : Request) (o : Served) : List Byte :=
  req.header ((if Flag req.flags flagInfo then flagInfo else 0) |||
      (if o.data.isSome then flagData else 0)) o.oid ++
    (if Flag req.flags flagInfo then o.info.bytes else []) ++ o.data.getD []

/-- `if ( buflen & 1 ) buflen++`: the byte keeps what is in the buffer. -/
def padEven (stale : Mem) (buf : List Byte) : List Byte :=
  if buf.length % 2 = 1 then buf ++ [stale buf.length] else buf

/-- The data of an object: the server's buffer begins at the place for it. -/
def readObject (api : LocalApi) (req : Request) (oid : BitVec 32) (info : WireInfo) (stale : Mem) :
    Option (List Byte) :=
  if Flag req.flags flagData then
    match api.readdata oid req.ts info.sizeMax stale with
    | (.ok osize, buf) =>
        if 0 < osize then some (buf.bytes 0 (buf.read32 20).toInt.toNat) else none
    | (.error _, _) => none
  else none

/-- The loop over the list of a read request, from a buffer that is filled so far. -/
def serveObjects (api : LocalApi) (req : Request) (stale : Mem) :
    List (BitVec 32) → List Byte → List Byte × List Served
  | [], buf => (buf, [])
  | oid :: oids, buf =>
      let infoLen := if Flag req.flags flagInfo then infoSize else 0
      let buflen := buf.length + Reply.size
      if bufsize ≤ buflen then (buf, [])
      else if bufsize ≤ buflen + infoSize then (buf, [])
      else
        match api.readinfo oid req.ts with
        | .error _ => (buf, [])
        | .ok info =>
            if Flag req.flags flagData ∧
                (bufsize : Int) ≤ wrap32 ((buflen + infoLen : Nat) + info.sizeMax)
            then (buf, [])
            else
              let o : Served :=
                ⟨oid, info, readObject api req oid info fun k => stale (buflen + infoLen + k)⟩
              let (buf, os) := serveObjects api req stale oids
                (padEven stale (buf ++ o.bytes req))
              (buf, o :: os)

/-- The list part of a reply: a `kogmo_rtdb_objid_list_t` with zeros behind the list. -/
def listBytes (idlist : Nat → BitVec 32) (listoids : BitVec 32) : List Byte :=
  (List.range (idlistMax + 1)).flatMap fun i =>
    Mem.le32 (if listoids.toInt ≤ (i : Nat) ∧ i < idlistMax then 0 else idlist i)

/-- The answer to a write request: `recvidx` runs over the data behind the request. -/
def serveWrite (api : LocalApi) (req : Request) (idlist : Nat → BitVec 32) : Option (List Byte) :=
  if Flag req.flags flagInfo ∧ req.dataLen < infoSize then none
  else
    let info := WireInfo.ofMem req.data 0
    let recvidx := if Flag req.flags flagInfo then infoSize else 0
    let oid :=
      if Flag req.flags flagInfo then
        if info.deletedTs ≠ 0 then api.delete info else api.insert info
      else idlist 0
    if Flag req.flags flagData ∧ 0 < oid.toInt then
      let size := (req.data.read32 (recvidx + 20)).toInt
      if size ≠ (req.dataLen : Int) - recvidx then none
      else
        let err := api.writedata (idlist 0) (req.data.bytes recvidx size.toNat)
        some (req.header 0 (if err.toInt < 0 then err else oid))
    else some (req.header 0 oid)

def Request.objects (api : LocalApi) (req : Request) : (Nat → BitVec 32) × BitVec 32 :=
  if 0 < req.oid.toInt ∨ (Flag req.flags flagWrite ∧ Flag req.flags flagInfo) then
    (fun i => if i = 0 then req.oid else 0, 1)
  else
    let (listoids, idlist) := api.searchinfo req.name req.otype req.parentOid req.procOid req.ts
      req.nth
    (idlist, listoids)

/-- The list of a request in the order of `compare_oid`. -/
def sortedOids (idlist : Nat → BitVec 32) (listoids : BitVec 32) : List (BitVec 32) :=
  ((List.range listoids.toInt.toNat).map idlist).insertionSort fun a b => a.toInt ≤ b.toInt

/-- A pass of the loop: the reply and the objects in it, or no reply. -/
def serve (api : LocalApi) (stale : Mem) (req : Request) : Option (List Byte × List Served) :=
  if req.version ≠ protocolVersion then none
  else
    let (idlist, listoids) := req.objects api
    let list :=
      if Flag req.flags flagList ∧ ¬ Flag req.flags flagWrite then
        req.header flagList listoids ++ listBytes idlist listoids
      else []
    if listoids.toInt ≤ 0 then some (list ++ req.header 0 listoids, [])
    else if (Flag req.flags flagInfo ∨ Flag req.flags flagData) ∧ ¬ Flag req.flags flagWrite then
      some (serveObjects api req stale (sortedOids idlist listoids) list)
    else if Flag req.flags flagWrite then (serveWrite api req idlist).map fun buf => (buf, [])
    else some (list, [])

def smallInfo (oid : BitVec 32) : WireInfo :=
  .ofMem (Mem.write32 (Mem.write32 (fun _ => 0) 0 oid) 80 26) 0

theorem smallInfo_sizeMax (oid : BitVec 32) : (smallInfo oid).sizeMax = 26 := by
  unfold WireInfo.sizeMax smallInfo WireInfo.ofMem
  dsimp only
  rw [Mem.read32_ofBytes_bytes (by decide), Nat.zero_add, Mem.read32_write32]
  rfl

/-- Its record, with an odd number of bytes for the first object. -/
def smallRecord (oid : BitVec 32) : Commit :=
  if oid = 1 then ⟨0, 25, Mem.write32 (fun _ => 0) 20 25, by decide, by decide, by decide⟩
  else ⟨0, 26, Mem.write32 (fun _ => 0) 20 26, by decide, by decide, by decide⟩

def twoObjects : LocalApi where
  searchinfo _ _ _ _ _ _ := (2, fun i => if i = 0 then 1 else if i = 1 then 2 else 0)
  readinfo oid _ := .ok (smallInfo oid)
  select oid _ := .ok (smallRecord oid)
  writedata _ data := if data.length < 24 then -1 else 0
  insert _ := 3
  delete _ := 0
  sizeMax_even hinfo := by
    cases hinfo
    rw [smallInfo_sizeMax]
    rfl
  sizeMax_min hinfo _ := by
    cases hinfo
    rw [smallInfo_sizeMax]
    decide
  writedata_short h := by
    rw [if_pos h]
    decide
  delete_nonpos := Int.le_refl 0

end Udp

end KogmoRtdb
