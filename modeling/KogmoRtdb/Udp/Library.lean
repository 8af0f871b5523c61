import KogmoRtdb.Udp.Server

/-!
# The UDP client library

The calls of `libkogmo_rtdb_udpmon.c`: each sends a request and interprets the reply to it. A reply
whose object identifier is not the one of the request is taken for the reply to another request.

`agrees_iff` says when such a call comes to the same as the call in the database of the server. It
does not for a `kogmo_rtdb_obj_delete` that succeeds there, whose result 0 is no identifier, nor for
data of an odd size or longer than the object's `size_max`, nor for an object without readable data,
whose reply has a header only.
-/

namespace KogmoRtdb.Udp

/-- `udpmon_fake_oid`. -/
def fakeOid : BitVec 32 := 0x7ffffff

/-! ## Requests -/

/-- What a request meets: its number, the database of the server, what the buffers of the server
hold, and the packets that arrive before the reply. -/
structure Link where
  serial : BitVec 16
  api : LocalApi
  sendbuf : Mem
  recvbuf : Mem
  early : List (List Byte)
  /-- they are replies to other requests -/
  early_other : ∀ p ∈ early, (Reply.ofMem (Mem.ofBytes p) 0).reply ≠ serial

/-- The receive loop of `udpmon_request`: the packet that is taken, or none before the timeout. -/
def awaitReply (req : Request) : List (List Byte) → Option (List Byte)
  | [] => none
  | p :: packets =>
      let rply := Reply.ofMem (Mem.ofBytes p) 0
      if p.length < Reply.size then awaitReply req packets
      else if (Mem.ofBytes p).bytes 0 4 ≠ fccRtdb then awaitReply req packets
      else if rply.version ≠ protocolVersion then awaitReply req packets
      else if rply.reply ≠ req.request then awaitReply req packets
      else if req.oid ≠ 0 ∧ rply.oid ≠ req.oid then awaitReply req packets
      else some p

/-- `udpmon_request`: the header and the length of the reply, and the caller's buffer of `size`
bytes. `none` is -1. -/
def udpmonRequest (link : Link) (req : Request) (buf : Mem) (size : Nat) :
    Option (Reply × Nat × Mem) :=
  let sent := (serve link.api link.sendbuf req).toList.map Prod.fst
  (awaitReply req (link.early ++ sent)).map fun p =>
    let datalen := p.length - Reply.size
    (Reply.ofMem (Mem.ofBytes p) 0, datalen,
      buf.copy 0 (Mem.ofBytes p) Reply.size (if datalen < size then datalen else size))

namespace Link

/-- A request with `n` bytes of data behind it. -/
def request (link : Link) (flags : BitVec 16) (oid : BitVec 32) (data : Mem) (n : Nat) :
    Request where
  version := protocolVersion
  request := link.serial
  flags := flags
  oid := oid
  ts := 0
  name := []
  otype := 0
  parentOid := 0
  procOid := 0
  nth := 0
  data := link.recvbuf.copy 0 data 0 n
  dataLen := n

/-! ## The calls -/

def readRequest (link : Link) (oid : BitVec 32) (ts : Timestamp) : Request :=
  { link.request flagData oid link.recvbuf 0 with ts := ts }

/-- `kogmo_rtdb_obj_readdata`. -/
def readdata (link : Link) (oid : BitVec 32) (ts : Timestamp) (buf : Mem) (size : Nat) :
    Int × Mem :=
  match udpmonRequest link (link.readRequest oid ts) buf size with
  | none => (-1, buf)
  | some (_, ret, buf) => (ret, if 0 < ret then buf.write32 20 (BitVec.ofInt 32 ret) else buf)

/-- `kogmo_rtdb_obj_writedata`. -/
def writedata (link : Link) (oid : BitVec 32) (data : Mem) : Int :=
  if oid = fakeOid then 0
  else
    let size := (data.read32 20).toInt.toNat
    match udpmonRequest link (link.request (flagWrite ||| flagData) oid data size) data size with
    | none => -1
    | some _ => 0

/-- `kogmo_rtdb_obj_insert`. -/
def insert (link : Link) (info : WireInfo) : Int × WireInfo :=
  let data := Mem.ofBytes info.bytes
  match udpmonRequest link (link.request (flagWrite ||| flagInfo) 0 data infoSize) data infoSize
  with
  | none => (-1, info)
  | some (rply, _, _) => (rply.oid.toInt, info.setOid rply.oid)

/-- `kogmo_rtdb_obj_delete`; `now` is the answer of `kogmo_rtdb_timestamp_now`. -/
def delete (link : Link) (info : WireInfo) (now : Timestamp) : Int × WireInfo :=
  let oid := info.oid
  let info := info.setDeletedTs now
  let data := Mem.ofBytes info.bytes
  match udpmonRequest link (link.request (flagWrite ||| flagInfo) oid data infoSize) data
    infoSize with
  | none => (-1, info)
  | some _ => (0, info.setOid 0)

end Link

/-! ## Agreement with the server -/

inductive RemoteCall
  | readdata (oid : BitVec 32) (ts : Timestamp) (buf : Mem) (size : Nat)
  | writedata (oid : BitVec 32) (data : Mem)
  | insert (info : WireInfo)
  | delete (info : WireInfo) (now : Timestamp)

/-- The call is for an object, its request fits into the buffer, and so do the data that are put
into the reply. -/
def RemoteCall.Sent (link : Link) : RemoteCall → Prop
  | readdata oid ts _ _ =>
      0 < oid.toInt ∧ ∀ info c, link.api.readinfo oid ts = .ok info →
        link.api.select oid ts = .ok c → wrap32 (Reply.size + info.sizeMax) < bufsize →
          Reply.size + c.avail info.sizeMax ≤ bufsize
  | writedata oid data =>
      0 < oid.toInt ∧ 0 ≤ (data.read32 20).toInt ∧
        Request.size + (data.read32 20).toInt ≤ bufsize
  | insert _ => True
  | delete info _ => 0 < info.oid.toInt

/-- The call comes to the same as the one in the database of the server. -/
def Agrees (link : Link) : RemoteCall → Prop
  | .readdata oid ts buf size =>
      match link.api.readdata oid ts size buf with
      | (.error _, _) => (link.readdata oid ts buf size).1 < 0
      | (.ok n, buf') => link.readdata oid ts buf size = (n, buf')
  | .writedata oid data =>
      0 ≤ link.writedata oid data ↔
        0 ≤ (link.api.writedata oid (data.bytes 0 (data.read32 20).toInt.toNat)).toInt
  | .insert info => 0 ≤ (link.insert info).1 ↔ 0 ≤ (link.api.insert info).toInt
  | .delete info now =>
      0 ≤ (link.delete info now).1 ↔ 0 ≤ (link.api.delete (info.setDeletedTs now)).toInt

def Carried (link : Link) : RemoteCall → Prop
  | .readdata oid ts _ size =>
      match link.api.readinfo oid ts, link.api.select oid ts with
      | .error _, .error _ => True
      | .error _, .ok _ => False
      | .ok info, .error _ => (bufsize : Int) ≤ wrap32 (Reply.size + info.sizeMax)
      | .ok info, .ok c =>
          wrap32 (Reply.size + info.sizeMax) < (bufsize : Int) ∧ c.size ≤ info.sizeMax ∧
            c.size % 2 = 0 ∧ c.size ≤ size
  | .writedata oid data =>
      oid = fakeOid →
        0 ≤ (link.api.writedata oid (data.bytes 0 (data.read32 20).toInt.toNat)).toInt
  | .insert info =>
      info.deletedTs ≠ 0 →
        (0 ≤ (link.api.delete info).toInt ↔ 0 ≤ (link.api.insert info).toInt)
  | .delete info now =>
      if now ≠ 0 then (link.api.delete (info.setDeletedTs now)).toInt < 0
      else link.api.insert (info.setDeletedTs now) = info.oid ↔
        0 ≤ (link.api.delete (info.setDeletedTs now)).toInt

variable {link : Link} {req : Request} {buf : Mem} {size : Nat}

/-! ## The reply that is taken -/

theorem awaitReply_append {early packets : List (List Byte)}
    (h : ∀ p ∈ early, (Reply.ofMem (Mem.ofBytes p) 0).reply ≠ req.request) :
    awaitReply req (early ++ packets) = awaitReply req packets := by
  induction early with
  | nil => rfl
  | cons p early ih =>
      have hskip := ih fun q hq => h q (List.mem_cons_of_mem _ hq)
      rw [List.cons_append, awaitReply]
      simp only [if_pos (h p List.mem_cons_self), hskip, ite_self]

/-- Without a reply, or with one that is shorter than a header, a request ends with the timeout. -/
theorem udpmonRequest_silent (hserial : req.request = link.serial)
    (hserve : ∀ r ∈ serve link.api link.sendbuf req, r.1.length < Reply.size) :
    udpmonRequest link req buf size = none := by
  unfold udpmonRequest
  dsimp only
  rw [awaitReply_append fun p hp => hserial ▸ link.early_other p hp]
  cases hr : serve link.api link.sendbuf req with
  | none => rfl
  | some r =>
      have hshort : r.1.length < Reply.size := hserve r (by rw [hr]; rfl)
      simp only [Option.toList_some, List.map_cons, List.map_nil, awaitReply, if_pos hshort,
        Option.map_none]

/-- A reply of the server is taken unless its object identifier is another one. -/
theorem udpmonRequest_header {flags : BitVec 16} {oid : BitVec 32} {tail : List Byte}
    {os : List Served} (buf : Mem) (size : Nat) (hserial : req.request = link.serial)
    (hserve : serve link.api link.sendbuf req = some (req.header flags oid ++ tail, os)) :
    udpmonRequest link req buf size =
      if req.oid ≠ 0 ∧ oid ≠ req.oid then none
      else some (⟨protocolVersion, req.request, flags, oid⟩, tail.length,
        buf.copy 0 (Mem.ofBytes tail) 0 (if tail.length < size then tail.length else size)) := by
  have hhas : (Mem.ofBytes (req.header flags oid ++ tail)).Has 0 (req.header flags oid) :=
    (Mem.has_append.mp (Mem.bytes_ofBytes _)).1
  have hrply := Reply.ofMem_of_has hhas
  have hlen : (req.header flags oid ++ tail).length = Reply.size + tail.length := by
    rw [List.length_append, Request.header, Reply.length_bytes]
  have hcopy (n : Nat) :
      buf.copy 0 (Mem.ofBytes (req.header flags oid ++ tail)) Reply.size n =
        buf.copy 0 (Mem.ofBytes tail) 0 n := by
    funext b
    have hright := Mem.ofBytes_append_right (req.header flags oid) tail b
    rw [Request.header, Reply.length_bytes] at hright
    simp only [Mem.copy, Nat.sub_zero, Nat.zero_add, Request.header, hright]
  unfold udpmonRequest
  dsimp only
  rw [awaitReply_append fun p hp => hserial ▸ link.early_other p hp, hserve]
  simp only [Option.toList_some, List.map_cons, List.map_nil, awaitReply]
  rw [if_neg (by omega), if_neg (fun h => h (Reply.fcc_of_has hhas)), hrply,
    if_neg (fun h => h rfl), if_neg (fun h => h rfl)]
  dsimp only
  by_cases hother : req.oid ≠ 0 ∧ oid ≠ req.oid
  · rw [if_pos hother, if_pos hother]
    rfl
  · rw [if_neg hother, if_neg hother, Option.map_some, hrply, hlen, Nat.add_sub_cancel_left,
      hcopy]

/-! ## Reading -/

variable {oid : BitVec 32} {ts : Timestamp} {info : WireInfo}

theorem serve_readRequest (link : Link) (ts : Timestamp) (hpos : 0 < oid.toInt) :
    serve link.api link.sendbuf (link.readRequest oid ts) =
      some (serveObjects link.api (link.readRequest oid ts) link.sendbuf [oid] []) := by
  have hobjects :
      (link.readRequest oid ts).objects link.api = (fun i => if i = 0 then oid else 0, 1) :=
    if_pos (Or.inl hpos)
  have hflags : (link.readRequest oid ts).flags = flagData := rfl
  unfold serve
  rw [if_neg (fun h => h rfl), hobjects, hflags]
  rfl

/-- The reply to a read request: its data are followed by the byte of the padding. -/
theorem padEven_bytes (hinfo : ¬ Flag req.flags flagInfo) (stale : Mem) (o : Served) :
    ∃ pad : List Byte, pad.length = (o.data.getD []).length % 2 ∧
      padEven stale (o.bytes req) =
        req.header (if o.data.isSome then flagData else 0) o.oid ++ (o.data.getD [] ++ pad) := by
  have hbytes : o.bytes req =
      req.header (if o.data.isSome then flagData else 0) o.oid ++ o.data.getD [] := by
    unfold Served.bytes
    rw [if_neg hinfo, if_neg hinfo, List.append_nil]
    exact congrArg (fun f => req.header f o.oid ++ o.data.getD []) BitVec.zero_or
  have hlen : (o.bytes req).length % 2 = (o.data.getD []).length % 2 := by
    rw [hbytes, List.length_append, Request.header, Reply.length_bytes, Reply.size]
    omega
  unfold padEven
  rw [hlen, hbytes]
  by_cases hodd : (o.data.getD []).length % 2 = 1
  · exact ⟨[stale _], hodd.symm, by rw [if_pos hodd, List.append_assoc]⟩
  · refine ⟨[], ?_, by rw [if_neg hodd, List.append_nil]⟩
    rw [List.length_nil]
    omega

/-- The object is served unless its metadata cannot be read or its data might not fit. -/
theorem serve_object (hpos : 0 < oid.toInt) (hread : link.api.readinfo oid ts = .ok info)
    (hroom : wrap32 (Reply.size + info.sizeMax) < (bufsize : Int)) :
    ∃ data stale pad os,
      data = readObject link.api (link.readRequest oid ts) oid info stale ∧
      pad.length = (data.getD []).length % 2 ∧
      serve link.api link.sendbuf (link.readRequest oid ts) =
        some ((link.readRequest oid ts).header (if data.isSome then flagData else 0) oid ++
          (data.getD [] ++ pad), os) := by
  have hinfo : ¬ Flag (link.readRequest oid ts).flags flagInfo := by
    change ¬ Flag flagData flagInfo
    decide
  have hread : link.api.readinfo oid (link.readRequest oid ts).ts = .ok info := hread
  rw [serve_readRequest link ts hpos, serveObjects, if_neg hinfo]
  dsimp only
  rw [if_neg (by decide), if_neg (by decide), hread]
  dsimp only
  rw [if_neg fun h => absurd h.2 (Int.not_le.mpr (by
    rw [List.length_nil, Nat.zero_add, Nat.add_zero]
    exact hroom))]
  obtain ⟨pad, hlen, hpad⟩ := padEven_bytes hinfo link.sendbuf ⟨oid, info,
    readObject link.api (link.readRequest oid ts) oid info fun k => link.sendbuf (Reply.size + k)⟩
  exact ⟨_, _, pad, _, rfl, hlen, congrArg some (congrArg (Prod.mk · _) hpad)⟩

theorem serve_refused (hpos : 0 < oid.toInt)
    (h : ∀ info, link.api.readinfo oid ts = .ok info →
      (bufsize : Int) ≤ wrap32 (Reply.size + info.sizeMax)) :
    serve link.api link.sendbuf (link.readRequest oid ts) = some ([], []) := by
  have hinfo : ¬ Flag (link.readRequest oid ts).flags flagInfo := by
    change ¬ Flag flagData flagInfo
    decide
  have hdata : Flag (link.readRequest oid ts).flags flagData := by
    change Flag flagData flagData
    decide
  rw [serve_readRequest link ts hpos, serveObjects, if_neg hinfo]
  dsimp only
  rw [if_neg (by decide), if_neg (by decide)]
  cases hread : link.api.readinfo oid (link.readRequest oid ts).ts with
  | error e => rfl
  | ok info =>
      have hroom := h info hread
      dsimp only
      rw [if_pos ⟨hdata, by rw [List.length_nil, Nat.zero_add, Nat.add_zero]; exact hroom⟩]

/-- No data are delivered where the server does not serve the object. -/
theorem readdata_refused (hpos : 0 < oid.toInt)
    (h : ∀ info, link.api.readinfo oid ts = .ok info →
      (bufsize : Int) ≤ wrap32 (Reply.size + info.sizeMax)) :
    link.readdata oid ts buf size = (-1, buf) := by
  have hsilent : udpmonRequest link (link.readRequest oid ts) buf size = none := by
    refine udpmonRequest_silent rfl fun r hr => ?_
    rw [serve_refused hpos h] at hr
    cases hr
    decide
  unfold Link.readdata
  rw [hsilent]

/-- A header without data looks like a record of no bytes. -/
theorem readdata_unread {e : Err} (hpos : 0 < oid.toInt)
    (hread : link.api.readinfo oid ts = .ok info)
    (hroom : wrap32 (Reply.size + info.sizeMax) < (bufsize : Int))
    (hselect : link.api.select oid ts = .error e) :
    (link.readdata oid ts buf size).1 = 0 := by
  have hdata : Flag (link.readRequest oid ts).flags flagData := by
    change Flag flagData flagData
    decide
  have hselect : link.api.select oid (link.readRequest oid ts).ts = .error e := hselect
  obtain ⟨data, stale, pad, os, rfl, hlen, hserve⟩ := serve_object hpos hread hroom
  have hnone : readObject link.api (link.readRequest oid ts) oid info stale = none := by
    unfold readObject LocalApi.readdata
    rw [if_pos hdata, hselect]
  rw [hnone] at hlen hserve
  cases List.length_eq_zero_iff.mp hlen
  have hreply := udpmonRequest_header buf size rfl hserve
  rw [if_neg (fun h => h.2 rfl)] at hreply
  unfold Link.readdata
  rw [hreply]
  rfl

/-- The data of the reply are as much of the record as `size_max` says, followed by the byte of
the padding. -/
theorem readdata_served {c : Commit} {n : Nat} (buf : Mem) (size : Nat) (hpos : 0 < oid.toInt)
    (hread : link.api.readinfo oid ts = .ok info)
    (hroom : wrap32 (Reply.size + info.sizeMax) < (bufsize : Int))
    (hselect : link.api.select oid ts = .ok c) (hn : c.avail info.sizeMax = n) :
    ∃ tail : List Byte, tail.length = n + n % 2 ∧
      (∀ b < n, Mem.ofBytes tail b = c.deliver info.sizeMax (fun _ => 0) b) ∧
      link.readdata oid ts buf size =
        ((tail.length : Int), (buf.copy 0 (Mem.ofBytes tail) 0
          (if tail.length < size then tail.length else size)).write32 20
            (BitVec.ofInt 32 tail.length)) := by
  have hdata : Flag (link.readRequest oid ts).flags flagData := by
    change Flag flagData flagData
    decide
  have hmax := link.api.sizeMax_min hread hselect
  have hmin := c.size_min
  have hn24 : 24 ≤ n := by
    unfold Commit.avail at hn
    split at hn <;> omega
  have hselect : link.api.select oid (link.readRequest oid ts).ts = .ok c := hselect
  obtain ⟨data, stale, pad, os, rfl, hlen, hserve⟩ := serve_object hpos hread hroom
  have hsome : readObject link.api (link.readRequest oid ts) oid info stale =
      some ((c.deliver info.sizeMax stale).bytes 0 n) := by
    unfold readObject LocalApi.readdata
    rw [if_pos hdata, hselect]
    dsimp only
    rw [if_pos (by omega), c.deliver_size (by omega), hn, Int.toNat_natCast]
  rw [hsome] at hlen hserve
  rw [Option.getD_some, Mem.length_bytes] at hlen
  rw [Option.getD_some] at hserve
  refine ⟨(c.deliver info.sizeMax stale).bytes 0 n ++ pad, ?_, fun b hb => ?_, ?_⟩
  · rw [List.length_append, Mem.length_bytes, hlen]
  · rw [Mem.ofBytes_append_left (by rw [Mem.length_bytes]; exact hb), Mem.ofBytes_bytes hb,
      Nat.zero_add]
    exact c.deliver_inside rfl _ _ (by omega)
  · have hreply := udpmonRequest_header buf size rfl hserve
    rw [if_neg (fun h => h.2 rfl)] at hreply
    unfold Link.readdata
    rw [hreply]
    dsimp only
    rw [if_pos (by rw [List.length_append, Mem.length_bytes]; omega)]

/-- A record that is put into the reply whole, of even size, and that fits into the caller's
buffer, is delivered as it is. -/
theorem readdata_served_iff {c : Commit} (hpos : 0 < oid.toInt)
    (hread : link.api.readinfo oid ts = .ok info)
    (hroom : wrap32 (Reply.size + info.sizeMax) < (bufsize : Int))
    (hselect : link.api.select oid ts = .ok c) :
    link.readdata oid ts buf size = ((c.size : Int), c.deliver size buf) ↔
      c.size ≤ info.sizeMax ∧ c.size % 2 = 0 ∧ c.size ≤ size := by
  have hmax := link.api.sizeMax_min hread hselect
  have heven := link.api.sizeMax_even hread
  have hlt := c.size_lt
  by_cases hwhole : (c.size : Int) ≤ info.sizeMax
  swap
  · -- the answer is `size_max`, which is even
    obtain ⟨n, hn⟩ := Int.eq_ofNat_of_zero_le (show 0 ≤ info.sizeMax by omega)
    obtain ⟨tail, hlen, -, heq⟩ := readdata_served buf size hpos hread hroom hselect
      ((Commit.avail_of_lt (by omega)).trans hn)
    refine iff_of_false (fun h => ?_) fun h => hwhole h.1
    rw [heq] at h
    have hret : (tail.length : Int) = c.size := (Prod.mk.inj h).1
    omega
  obtain ⟨tail, hlen, htail, heq⟩ := readdata_served buf size hpos hread hroom hselect
    (Commit.avail_of_le hwhole)
  rw [heq, and_iff_right hwhole]
  constructor
  · intro h
    obtain ⟨hret, hbuf⟩ := Prod.mk.inj h
    have heven : c.size % 2 = 0 := by omega
    -- the size that is in the buffer
    have hword := congrArg (fun m => (m.read32 20).toInt) hbuf
    rw [Mem.read32_write32, c.deliver_read32, BitVec.toInt_ofInt,
      Int.bmod_eq_of_le (by omega) (by omega)] at hword
    refine ⟨heven, ?_⟩
    by_contra hgt
    rw [Commit.avail_of_lt (by omega), BitVec.toInt_ofInt,
      Int.bmod_eq_of_le (by omega) (by omega)] at hword
    omega
  · rintro ⟨heven, hle⟩
    rw [heven, Nat.add_zero] at hlen
    rw [hlen]
    refine Prod.ext rfl (funext fun b => ?_)
    have hn : (if c.size < size then c.size else size) = c.size := by split <;> omega
    have hle' : (c.size : Int) ≤ size := Int.ofNat_le.mpr hle
    simp only [hn]
    by_cases hfield : 20 ≤ b ∧ b < 24
    · -- the size, which both write
      unfold Commit.deliver
      rw [Commit.avail_of_le hle', Mem.write64_outside (by omega), Mem.write32, Mem.write32,
        Mem.copy_inside hfield.1 hfield.2, Mem.copy_inside hfield.1 hfield.2]
    rw [Mem.write32_outside (by omega)]
    by_cases hb : b < c.size
    · rw [Mem.copy_inside (Nat.zero_le b) (by omega), Nat.sub_zero, Nat.zero_add, htail b hb]
      exact c.deliver_inside ((Commit.avail_of_le hwhole).trans (Commit.avail_of_le hle').symm) _ _
        (by rw [Commit.avail_of_le hwhole]; omega)
    · rw [Mem.copy_outside (by omega), c.deliver_outside hle' buf (by omega)]

theorem readdata_agrees_iff (hpos : 0 < oid.toInt) :
    Agrees link (.readdata oid ts buf size) ↔ Carried link (.readdata oid ts buf size) := by
  unfold Agrees Carried LocalApi.readdata
  dsimp only
  cases hread : link.api.readinfo oid ts with
  | error e =>
      rw [readdata_refused hpos fun info h => by rw [hread] at h; cases h]
      cases link.api.select oid ts with
      | error e' => exact iff_of_true (Int.negSucc_lt_zero 0) trivial
      | ok c =>
          have hmin := c.size_min
          exact iff_of_false (fun h => absurd (congrArg Prod.fst h) (by dsimp only; omega)) id
  | ok info =>
      by_cases hroom : (bufsize : Int) ≤ wrap32 (Reply.size + info.sizeMax)
      · rw [readdata_refused hpos fun info' h => by rw [hread] at h; cases h; exact hroom]
        cases link.api.select oid ts with
        | error e' => exact iff_of_true (Int.negSucc_lt_zero 0) hroom
        | ok c =>
            have hmin := c.size_min
            exact iff_of_false (fun h => absurd (congrArg Prod.fst h) (by dsimp only; omega))
              fun h => absurd hroom (Int.not_le.mpr h.1)
      · have hroom := Int.not_le.mp hroom
        cases hselect : link.api.select oid ts with
        | error e =>
            dsimp only
            rw [readdata_unread hpos hread hroom hselect]
            exact iff_of_false (Int.lt_irrefl 0) (Int.not_le.mpr hroom)
        | ok c =>
            dsimp only
            rw [readdata_served_iff hpos hread hroom hselect]
            exact (and_iff_right hroom).symm

/-! ## Writing -/

theorem serve_writeRequest (link : Link) {flags : BitVec 16} (data : Mem) (n : Nat)
    (hwrite : Flag flags flagWrite) (h : 0 < oid.toInt ∨ Flag flags flagInfo) :
    serve link.api link.sendbuf (link.request flags oid data n) =
      (serveWrite link.api (link.request flags oid data n)
        fun i => if i = 0 then oid else 0).map fun buf => (buf, []) := by
  have hobjects : (link.request flags oid data n).objects link.api =
      (fun i => if i = 0 then oid else 0, 1) :=
    if_pos (h.imp_right fun hinfo => ⟨hwrite, hinfo⟩)
  have hwrite : Flag (link.request flags oid data n).flags flagWrite := hwrite
  unfold serve
  rw [if_neg (fun h => h rfl), hobjects]
  dsimp only
  have hone : ¬ (1 : BitVec 32).toInt ≤ 0 := by decide
  rw [if_neg hone, if_neg (fun h => h.2 hwrite), if_pos hwrite]

/-- The end of a write request, by the answer of the server. -/
theorem udpmonRequest_write {flags : BitVec 16} {data : Mem} {n : Nat} (buf : Mem) (size : Nat)
    (hwrite : Flag flags flagWrite) (h : 0 < oid.toInt ∨ Flag flags flagInfo)
    (answer : Option (BitVec 32))
    (hserve : serveWrite link.api (link.request flags oid data n)
        (fun i => if i = 0 then oid else 0) =
      answer.map ((link.request flags oid data n).header 0)) :
    ∃ buf', udpmonRequest link (link.request flags oid data n) buf size =
      match answer with
      | none => none
      | some rply =>
          if oid ≠ 0 ∧ rply ≠ oid then none
          else some (⟨protocolVersion, link.serial, 0, rply⟩, 0, buf') := by
  have hreply := serve_writeRequest link data n hwrite h
  rw [hserve] at hreply
  cases answer with
  | none =>
      refine ⟨buf, udpmonRequest_silent rfl fun r hr => ?_⟩
      rw [hreply] at hr
      cases hr
  | some rply =>
      have hreply : serve link.api link.sendbuf (link.request flags oid data n) =
        some ((link.request flags oid data n).header 0 rply ++ [], []) := by
          rw [hreply, List.append_nil]
          rfl
      exact ⟨_, udpmonRequest_header buf size rfl hreply⟩

/-- The record of a write request reaches the database of the server unless its size is not the
number of bytes sent. -/
theorem serveWrite_data (link : Link) (data : Mem) (n : Nat) (hpos : 0 < oid.toInt) :
    serveWrite link.api (link.request (flagWrite ||| flagData) oid data n)
        (fun i => if i = 0 then oid else 0) =
      (if ((link.recvbuf.copy 0 data 0 n).read32 20).toInt ≠ n then none
      else some (if (link.api.writedata oid (data.bytes 0 n)).toInt < 0
        then link.api.writedata oid (data.bytes 0 n) else oid)).map
          ((link.request (flagWrite ||| flagData) oid data n).header 0) := by
  have hinfo : ¬ Flag (flagWrite ||| flagData) flagInfo := by decide
  have hdata : Flag (flagWrite ||| flagData) flagData := by decide
  have hbytes : (link.recvbuf.copy 0 data 0 n).bytes 0 n = data.bytes 0 n :=
    Mem.bytes_congr fun k hk => by
      rw [Mem.copy_inside (by omega) (by omega), Nat.zero_add, Nat.sub_zero]
  have hlen : (n : Int) - (0 : Nat) = n := by omega
  unfold serveWrite Link.request
  dsimp only
  rw [if_neg (fun h => hinfo h.1), if_neg hinfo, if_pos rfl, if_neg hinfo, if_pos ⟨hdata, hpos⟩,
    hlen, Nat.zero_add]
  by_cases hsize : ((link.recvbuf.copy 0 data 0 n).read32 20).toInt = n
  · simp only [hsize, Ne, not_true_eq_false, ↓reduceIte, Int.toNat_natCast, hbytes,
      Option.map_some]
  · simp only [hsize, Ne, not_false_eq_true, ↓reduceIte, Option.map_none]

theorem writedata_agrees_iff {data : Mem} (hpos : 0 < oid.toInt)
    (hsize : 0 ≤ (data.read32 20).toInt) :
    Agrees link (.writedata oid data) ↔ Carried link (.writedata oid data) := by
  unfold Agrees Carried Link.writedata
  dsimp only
  generalize hn : (data.read32 20).toInt.toNat = n
  by_cases hfake : oid = fakeOid
  · rw [if_pos hfake]
    exact ⟨fun h _ => h.mp (Int.le_refl 0), fun h => iff_of_true (Int.le_refl 0) (h hfake)⟩
  rw [if_neg hfake]
  refine iff_of_true ?_ fun h => absurd h hfake
  have hwrite : Flag (flagWrite ||| flagData) flagWrite := by decide
  obtain ⟨buf', heq⟩ := udpmonRequest_write data n hwrite (Or.inl hpos) _
    (serveWrite_data link data n hpos)
  rw [heq]
  by_cases hsent : ((link.recvbuf.copy 0 data 0 n).read32 20).toInt = n
  · rw [if_neg (not_not_intro hsent)]
    dsimp only
    by_cases herr : (link.api.writedata oid (data.bytes 0 n)).toInt < 0
    · have hother : oid ≠ 0 ∧ link.api.writedata oid (data.bytes 0 n) ≠ oid := by
        refine ⟨?_, ?_⟩
        · rintro rfl
          exact absurd hpos (by decide)
        · intro h
          rw [h] at herr
          omega
      rw [if_pos herr, if_pos hother]
      exact iff_of_false (by decide) (by omega)
    · rw [if_neg herr, if_neg fun h => h.2 rfl]
      exact iff_of_true (Int.le_refl 0) (by omega)
  · -- the data are shorter than a header
    rw [if_pos hsent]
    have hshort : (link.api.writedata oid (data.bytes 0 n)).toInt < 0 := by
      refine link.api.writedata_short ?_
      rw [Mem.length_bytes]
      by_contra hn24
      refine hsent ?_
      rw [Mem.read32_copy_inside (by omega) (by omega)]
      simp only [Nat.zero_add, Nat.sub_zero]
      omega
    exact iff_of_false (show ¬ (0 : Int) ≤ -1 by decide) (by omega)

/-- The metadata of a write request: an insertion or a deletion by `deleted_ts`. -/
theorem serveWrite_info (link : Link) (oid : BitVec 32) (info : WireInfo)
    (idlist : Nat → BitVec 32) :
    serveWrite link.api
        (link.request (flagWrite ||| flagInfo) oid (Mem.ofBytes info.bytes) infoSize) idlist =
      (some (if info.deletedTs ≠ 0 then link.api.delete info else link.api.insert info)).map
        ((link.request (flagWrite ||| flagInfo) oid (Mem.ofBytes info.bytes) infoSize).header
          0) := by
  have hinfo : Flag (flagWrite ||| flagInfo) flagInfo := by decide
  have hdata : ¬ Flag (flagWrite ||| flagInfo) flagData := by decide
  have hhas := Mem.has_copy link.recvbuf 0 info.bytes
  rw [info.length_eq] at hhas
  unfold serveWrite Link.request
  dsimp only
  rw [if_neg (fun h => absurd h.2 (Nat.lt_irrefl _)), WireInfo.ofMem_of_has hhas, if_pos hinfo,
    if_neg fun h => hdata h.1]
  rfl

theorem insert_agrees_iff : Agrees link (.insert info) ↔ Carried link (.insert info) := by
  have hwrite : Flag (flagWrite ||| flagInfo) flagWrite := by decide
  have hinfo : Flag (flagWrite ||| flagInfo) flagInfo := by decide
  obtain ⟨buf', heq⟩ := udpmonRequest_write (Mem.ofBytes info.bytes) infoSize hwrite
    (Or.inr hinfo) _ (serveWrite_info link 0 info _)
  unfold Agrees Carried Link.insert
  dsimp only
  rw [heq]
  dsimp only
  rw [if_neg fun h => h.1 rfl]
  dsimp only
  by_cases hts : info.deletedTs ≠ 0
  · rw [if_pos hts]
    exact ⟨fun h _ => h, fun h => h hts⟩
  · rw [if_neg hts]
    exact iff_of_true Iff.rfl fun h => absurd h hts

theorem delete_agrees_iff {now : Timestamp} (hpos : 0 < info.oid.toInt) :
    Agrees link (.delete info now) ↔ Carried link (.delete info now) := by
  have hwrite : Flag (flagWrite ||| flagInfo) flagWrite := by decide
  have hne : info.oid ≠ 0 := by
    intro h
    rw [h] at hpos
    exact absurd hpos (by decide)
  obtain ⟨buf', heq⟩ := udpmonRequest_write (Mem.ofBytes (info.setDeletedTs now).bytes) infoSize
    hwrite (Or.inl hpos) _ (serveWrite_info link info.oid (info.setDeletedTs now) _)
  unfold Agrees Carried Link.delete
  dsimp only
  rw [heq]
  dsimp only
  rw [info.deletedTs_setDeletedTs]
  generalize hinfo' : info.setDeletedTs now = info' at *
  by_cases hnow : now = 0
  · rw [if_neg (not_not_intro hnow), if_neg (not_not_intro hnow)]
    by_cases heq : link.api.insert info' = info.oid
    · rw [if_neg fun h => h.2 heq]
      exact ⟨fun h => ⟨fun _ => h.mp (Int.le_refl 0), fun _ => heq⟩,
        fun h => ⟨fun _ => h.mp heq, fun _ => Int.le_refl 0⟩⟩
    · rw [if_pos ⟨hne, heq⟩]
      exact iff_congr (iff_of_false (show ¬ (0 : Int) ≤ -1 by decide) heq) Iff.rfl
  · have hother : link.api.delete info' ≠ info.oid := by
      intro h
      have hnonpos : (link.api.delete info').toInt ≤ 0 := link.api.delete_nonpos
      rw [h] at hnonpos
      omega
    rw [if_pos hnow, if_pos ⟨hne, hother⟩, if_pos hnow]
    exact ⟨fun h => by
      by_contra hlt
      exact absurd (h.mpr (by omega)) (show ¬ (0 : Int) ≤ -1 by decide),
      fun h => iff_of_false (show ¬ (0 : Int) ≤ -1 by decide) (by omega)⟩

def quietLink : Link where
  serial := 1
  api := twoObjects
  sendbuf _ := 0
  recvbuf _ := 0
  early := []
  early_other := by simp

end KogmoRtdb.Udp
