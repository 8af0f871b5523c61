import KogmoRtdb.Lib.Extent
import KogmoRtdb.Udp.Server

/-!
# The buffers of the UDP server

What a pass of the loop of `udpsimpleserver.c` accesses: the array `idlist` and the two buffers of
`BUFSIZE` bytes. A search that fails answers a negative number, and the list part of a reply takes
it for the length of the list. The reduction of an image believes its `widthstep` and `height`, and
works on groups of four lines. `passSafe_iff` says which requests and which objects go wrong.

Debug output is off, and `jpeg_compress_a2_image` gets the memory that it asks for.
-/

namespace KogmoRtdb.Udp

/-! ## Accesses -/

/-- An index into `idlist`, or a range of one of the buffers. -/
inductive Access where
  | idlist (i : Int)
  | recvBuf (e : Extent)
  | buf (e : Extent)

def Access.Ok (cap : Int) : Access → Prop
  | idlist i => 0 ≤ i ∧ i ≤ idlistMax
  | recvBuf e => e.Inside cap
  | buf e => e.Inside cap

/-- With `UDPSIMPLEBZIP2` and `USEJPEG`, or without. -/
structure Build where
  bzip2 : Bool
  jpeg : Bool

/-- `BUFSIZE`. -/
def Build.bufsize (build : Build) : Int := if build.bzip2 then 650000 else 65000

/-- The calls of the database as far as they fill the buffers. -/
structure ServerApi extends LocalApi where
  /-- the list has room for so many -/
  count_le : ∀ {name otype parentOid procOid ts nth},
    (searchinfo name otype parentOid procOid ts nth).1.toInt ≤ idlistMax
  /-- `kogmo_rtdb_obj_readdata` copies a record before it finds that it is too old -/
  late : BitVec 32 → Timestamp → Option Commit
  late_min : ∀ {oid ts info c}, readinfo oid ts = .ok info → late oid ts = some c →
    24 ≤ info.sizeMax

/-- The record that `kogmo_rtdb_obj_readdata` copies. -/
def ServerApi.copied (api : ServerApi) (oid : BitVec 32) (ts : Timestamp) : Option Commit :=
  match api.select oid ts with
  | .ok c => some c
  | .error _ => api.late oid ts

/-! ## Images -/

/-- `KOGMO_RTDB_OBJTYPE_A2_IMAGE`. -/
def otypeA2Image : BitVec 32 := 0xA20030

def WireInfo.otype (info : WireInfo) : BitVec 32 := (Mem.ofBytes info.bytes).read32 76

/-- `A2_IMAGE_COLORMODEL_RGBJPEG`. -/
def colormodelRgbjpeg : Int := 16

/-- `sizeof(kogmo_rtdb_obj_a2_image_t)`. -/
def a2ImageSize : Int := 48

structure A2Image where
  width : Int
  height : Int
  channels : Int
  colormodell : Int
  widthstep : Int

def A2Image.ofMem (m : Mem) : A2Image where
  width := (m.read32 24).toInt
  height := (m.read32 28).toInt
  channels := (m.read32 36).toInt
  colormodell := (m.read32 40).toInt
  widthstep := (m.read32 44).toInt

/-- The values of `line` in `reduce_a2_image`. -/
def reduceLines (height : Int) : List Int :=
  (List.range ((height - height.tdiv 2 + 3) / 4).toNat).map fun (k : Nat) => height.tdiv 2 + 4 * k

/-- The values of `px`. -/
def reducePx (widthstep : Int) : List Int :=
  (List.range ((widthstep + 3) / 4).toNat).map fun (k : Nat) => 4 * k

def lineIdx (widthstep line : Int) : Int := wrap32 (widthstep * line)

/-- `reduce_a2_image`, with the pixels at `data`. -/
def reduceA2Image (data widthstep height : Int) : List Extent :=
  let size := wrap32 (widthstep * height)
  ⟨data, size.tdiv 2⟩ ::
    ((reduceLines height).flatMap fun line =>
      ((reducePx widthstep).flatMap fun px =>
        [0, 1, 2].map fun k => ⟨data + wrap32 (wrap32 (lineIdx widthstep line + px) + k), 1⟩) ++
        [0, 1, 2, 3].map fun k => ⟨data + lineIdx widthstep (line + k), widthstep⟩) ++
    [⟨data + (wrap32 (size * 7)).tdiv 8, size.tdiv 8⟩]

/-- An image that the JPEG library compresses: its `JPEG_MAX_DIMENSION` and `MAX_COMPONENTS`. -/
structure A2Image.Accepted (image : A2Image) : Prop where
  width : 0 < image.width ∧ image.width ≤ 65500
  height : 0 < image.height ∧ image.height ≤ 65500
  channels : 0 < image.channels ∧ image.channels ≤ 10

/-- The JPEG library: the size of the compressed image, or after how many lines it ends the program
with an error. An image at another place has something else behind it. -/
structure JpegLib where
  outcome : (off : Int) → A2Image → Mem → Except Nat Nat
  accepted : ∀ {off image pixels n}, outcome off image pixels = .ok n → image.Accepted
  ended : ∀ {off image pixels k}, outcome off image pixels = .error k → 0 < k →
    image.Accepted ∧ k ≤ image.height

/-- The lines that `write_JPEG_memory` reads. The number of a line is unsigned. -/
def jpegLines (data : Int) (image : A2Image) (lines : Nat) : List Extent :=
  let rowStride := wrap32 (image.width * image.channels)
  (List.range lines).map fun (line : Nat) =>
    ⟨data + (line * rowStride) % 2 ^ 32, image.width * image.channels⟩

/-! ## The loop over the objects -/

/-- `UDPSIMPLEFLAG_JPEGIMAGE`. -/
def flagJpegimage : BitVec 16 := 0x80

/-- What is done with an object's data in the buffer. -/
inductive Treatment where
  | plain
  | reduce
  | jpeg (outcome : Except Nat Nat)

/-- The compressed image with its header, if that is not larger than the image of `size` bytes. -/
def jpegUsed (size : Int) (n : Nat) : Option Int :=
  if size < n + a2ImageSize then none else some (n + a2ImageSize)

section Loop

variable (build : Build) (lib : JpegLib) (api : ServerApi) (req : Request)

def treatment (off : Int) (info : WireInfo) (c : Commit) : Treatment :=
  let image := A2Image.ofMem c.bytes
  if 20000 < c.avail info.sizeMax ∧ info.otype = otypeA2Image ∧
      image.colormodell ≠ colormodelRgbjpeg then
    if build.jpeg ∧ Flag req.flags flagJpegimage then .jpeg (lib.outcome off image c.bytes)
    else .reduce
  else .plain

/-- The accesses to the data of an object at `off`, once they are read. -/
def dataAccesses (off : Int) (info : WireInfo) (c : Commit) : List Access :=
  let image := A2Image.ofMem c.bytes
  let data := off + a2ImageSize
  .buf ⟨off + 20, 4⟩ ::
    ((if 20000 < c.avail info.sizeMax ∧ info.otype = otypeA2Image then [.buf ⟨off + 40, 4⟩]
        else []) ++
      match treatment build lib req off info c with
      | .plain => []
      | .reduce => (reduceA2Image data image.widthstep image.height).map .buf
      | .jpeg (.error lines) => (jpegLines data image lines).map .buf
      | .jpeg (.ok n) =>
          (jpegLines data image image.height.toNat).map .buf ++
            match jpegUsed (c.avail info.sizeMax) n with
            | none => []
            | some used => [.buf ⟨data, used⟩, .buf ⟨off + 20, 4⟩])

/-- How much of the buffer they take, unless the program has ended. -/
def dataLen (off : Int) (info : WireInfo) (c : Commit) : Option Int :=
  match treatment build lib req off info c with
  | .plain => some (c.avail info.sizeMax)
  | .reduce => some (c.avail info.sizeMax)
  | .jpeg (.error _) => none
  | .jpeg (.ok n) => some ((jpegUsed (c.avail info.sizeMax) n).getD 0)

inductive LoopStep where
  | next (buflen : Int)
  | leave
  | exit

/-- `sizeof(kogmo_rtdb_obj_udpsimplerply_t)` and `sizeof(kogmo_rtdb_obj_info_t)`. -/
def rplySize : Int := 14
def objInfoSize : Int := 112

/-- The place of an object's data behind its header, and its metadata if these are asked for. -/
def dataPlace (buflen : Int) : Int :=
  buflen + rplySize + if Flag req.flags flagInfo then objInfoSize else 0

/-- `if ( buflen & 1 ) buflen++`. -/
def evenLen (buflen : Int) : Int := buflen + buflen % 2

/-- The body's effect on `buflen`. -/
def loopStep (oid : BitVec 32) (buflen : Int) : LoopStep :=
  if build.bufsize ≤ buflen + rplySize then .leave
  else if build.bufsize ≤ buflen + rplySize + objInfoSize then .leave
  else
    match api.readinfo oid req.ts with
    | .error _ => .leave
    | .ok info =>
        let off := dataPlace req buflen
        if ¬ Flag req.flags flagData then .next (evenLen off)
        else if build.bufsize ≤ wrap32 (off + info.sizeMax) then .leave
        else
          match api.select oid req.ts with
          | .error _ => .next (evenLen off)
          | .ok c =>
              match dataLen build lib req off info c with
              | none => .exit
              | some len => .next (evenLen (off + len))

/-- The copy of a record to `off`, with the two fields that are set behind it. -/
def copyAccesses (off : Int) (info : WireInfo) (c : Commit) : List Access :=
  [.buf ⟨off, c.avail info.sizeMax⟩, .buf ⟨off + 20, 4⟩, .buf ⟨off, 8⟩]

/-- The body's accesses, for the `i`-th object. -/
def loopAccesses (i : Nat) (oid : BitVec 32) (buflen : Int) : List Access :=
  if build.bufsize ≤ buflen + rplySize then []
  else
    [.buf ⟨buflen, rplySize⟩, .idlist i] ++
      if build.bufsize ≤ buflen + rplySize + objInfoSize then []
      else
        (if Flag req.flags flagInfo then [.buf ⟨buflen + rplySize, objInfoSize⟩] else []) ++
          match api.readinfo oid req.ts with
          | .error _ => []
          | .ok info =>
              let off := dataPlace req buflen
              if ¬ Flag req.flags flagData then []
              else if build.bufsize ≤ wrap32 (off + info.sizeMax) then []
              else
                (api.copied oid req.ts).toList.flatMap (copyAccesses off info) ++
                  match api.select oid req.ts with
                  | .error _ => []
                  | .ok c => dataAccesses build lib req off info c

/-- The loop: its accesses, and `last_buflen` unless the program has ended. -/
def serveLoop : List (BitVec 32) → Nat → Int → List Access × Option Int
  | [], _, buflen => ([], some buflen)
  | oid :: oids, i, buflen =>
      let accesses := loopAccesses build lib api req i oid buflen
      match loopStep build lib api req oid buflen with
      | .next next =>
          let (rest, last) := serveLoop oids (i + 1) next
          (accesses ++ rest, last)
      | .leave => (accesses, some buflen)
      | .exit => (accesses, none)

end Loop

/-! ## A pass -/

/-- `recv_buf` after `recvfrom`. -/
structure Packet (cap : Int) where
  bytes : Mem
  recvlen : Nat
  recvlen_le : recvlen ≤ cap

/-- `req_p`, with the name up to its end. -/
def Request.ofBuf (m : Mem) (recvlen : Nat) : Request where
  version := m.read16 4
  request := m.read16 6
  flags := m.read16 8
  oid := m.read32 10
  ts := m.read64 14
  name := (m.bytes 22 31).takeWhile (· ≠ 0)
  otype := m.read32 54
  parentOid := m.read32 58
  procOid := m.read32 62
  nth := m.read32 66
  data := fun k => m (Request.size + k)
  dataLen := recvlen - Request.size

/-- `idlist` is filled directly, or by `kogmo_rtdb_obj_searchinfo` with a zero at the end. -/
def fillAccesses (req : Request) (listoids : Int) : List Access :=
  if 0 < req.oid.toInt ∨ (Flag req.flags flagWrite ∧ Flag req.flags flagInfo) then
    [.idlist 0, .idlist 1]
  else (List.range (listoids.toNat + 1)).map fun (i : Nat) => .idlist i

/-- `sizeof(idlist)`. -/
def idlistSize : Int := 4 * (idlistMax + 1)

/-- The list part of a reply. The test for its size does not fail. -/
def listAccesses (listoids : Int) : List Access :=
  [.buf ⟨0, rplySize⟩] ++
    ((List.range (idlistMax - listoids).toNat).map fun (k : Nat) => .idlist (listoids + k)) ++
    ((List.range (idlistMax + 1)).map fun (i : Nat) => .idlist i) ++
    [.buf ⟨rplySize, idlistSize⟩]

/-- `oid` in a write request. -/
def writeOid (api : ServerApi) (req : Request) (idlist : Nat → BitVec 32) : BitVec 32 :=
  let info := WireInfo.ofMem req.data 0
  if Flag req.flags flagInfo then
    if info.deletedTs ≠ 0 then api.delete info else api.insert info
  else idlist 0

/-- A write request: `recvidx` runs over the data behind the request. -/
def writeAccesses (api : ServerApi) (req : Request) (idlist : Nat → BitVec 32) : List Access :=
  if Flag req.flags flagInfo ∧ req.dataLen < infoSize then []
  else
    let recvidx : Nat := Request.size + if Flag req.flags flagInfo then infoSize else 0
    let size := (req.data.read32 (recvidx - Request.size + 20)).toInt
    (if Flag req.flags flagInfo then [.recvBuf ⟨Request.size, infoSize⟩] else [.idlist 0]) ++
      if Flag req.flags flagData ∧ 0 < (writeOid api req idlist).toInt then
        .recvBuf ⟨recvidx + 20, 4⟩ ::
          if size ≠ (Request.size + req.dataLen : Nat) - recvidx then []
          else [.idlist 0, .recvBuf ⟨recvidx, size⟩, .buf ⟨0, rplySize⟩, .buf ⟨0, rplySize⟩]
      else [.buf ⟨0, rplySize⟩, .buf ⟨0, rplySize⟩]

def Listed (req : Request) : Prop := Flag req.flags flagList ∧ ¬ Flag req.flags flagWrite

instance (req : Request) : Decidable (Listed req) := inferInstanceAs (Decidable (_ ∧ _))

def Reads (req : Request) : Prop :=
  (Flag req.flags flagInfo ∨ Flag req.flags flagData) ∧ ¬ Flag req.flags flagWrite

instance (req : Request) : Decidable (Reads req) := inferInstanceAs (Decidable (_ ∧ _))

/-- The part of the buffer that is taken by the list. -/
def listLen (req : Request) : Int := if Listed req then rplySize + idlistSize else 0

def requestAccesses (build : Build) (lib : JpegLib) (api : ServerApi) (req : Request) :
    List Access :=
  let (idlist, listoids) := req.objects api.toLocalApi
  fillAccesses req listoids.toInt ++
    (if Listed req then listAccesses listoids.toInt else []) ++
    if listoids.toInt ≤ 0 then
      [.buf ⟨listLen req, rplySize⟩, .buf ⟨0, listLen req + rplySize⟩]
    else if Reads req then
      let (accesses, last) :=
        serveLoop build lib api req (sortedOids idlist listoids) 0 (listLen req)
      ((List.range listoids.toInt.toNat).map fun (i : Nat) => .idlist i) ++ accesses ++
        last.toList.map fun buflen => .buf ⟨0, buflen⟩
    else if Flag req.flags flagWrite then writeAccesses api req idlist
    else [.buf ⟨0, listLen req⟩]

def Packet.Handled {cap : Int} (packet : Packet cap) : Prop :=
  Request.size ≤ packet.recvlen ∧ packet.bytes.bytes 0 4 = fccRtdb ∧
    packet.bytes.read16 4 = protocolVersion

instance {cap : Int} (packet : Packet cap) : Decidable packet.Handled :=
  inferInstanceAs (Decidable (_ ∧ _))

def passAccesses (build : Build) (lib : JpegLib) (api : ServerApi)
    (packet : Packet build.bufsize) : List Access :=
  .recvBuf ⟨0, packet.recvlen⟩ ::
    if packet.recvlen < Request.size then []
    else
      .recvBuf ⟨0, Request.size⟩ ::
        if packet.Handled then
          requestAccesses build lib api (Request.ofBuf packet.bytes packet.recvlen)
        else []

def PassSafe (build : Build) (lib : JpegLib) (api : ServerApi)
    (packet : Packet build.bufsize) : Prop :=
  ∀ a ∈ passAccesses build lib api packet, a.Ok build.bufsize

/-! ## What stays inside -/

/-- The last value of `line`. -/
def lastLine (height : Int) : Int := height.tdiv 2 + 4 * ((height - height.tdiv 2 - 1) / 4)

/-- The lines of an image end in the buffer, with those that fill up the last group of four. An
image without lines has at least no negative size. -/
def ReduceFits (cap data widthstep height : Int) : Prop :=
  if 0 < height then 0 ≤ widthstep ∧ data + widthstep * (lastLine height + 4) ≤ cap
  else
    let size := wrap32 (widthstep * height)
    data + ((size * 7).tdiv 8 + size.tdiv 8) ≤ cap ∧ -1 ≤ size

def LinesFit (cap data : Int) (image : A2Image) (lines : Int) : Prop :=
  data + lines * (image.width * image.channels) ≤ cap

section Fits

variable (build : Build) (lib : JpegLib) (api : ServerApi) (req : Request)

/-- An image fits at `off`. The compressed one is put where the pixels were, with the length of its
header added once more. -/
def TreatmentFits (off : Int) (info : WireInfo) (c : Commit) : Prop :=
  let image := A2Image.ofMem c.bytes
  let data := off + a2ImageSize
  match treatment build lib req off info c with
  | .plain => True
  | .reduce => ReduceFits build.bufsize data image.widthstep image.height
  | .jpeg (.error lines) => LinesFit build.bufsize data image lines
  | .jpeg (.ok n) =>
      LinesFit build.bufsize data image image.height ∧
        ∀ used, jpegUsed (c.avail info.sizeMax) n = some used → data + used ≤ build.bufsize

/-- An object that is read fits at the place for it: the sum with its maximal size is an `int`, or
what is copied of the record is small, and if it is an image that is made smaller then its lines
fit. -/
def ObjectFits (oid : BitVec 32) (buflen : Int) : Prop :=
  let off := dataPlace req buflen
  ∀ info, api.readinfo oid req.ts = .ok info → Flag req.flags flagData →
    wrap32 (off + info.sizeMax) < build.bufsize →
      (∀ c, api.copied oid req.ts = some c →
        off + info.sizeMax < 2 ^ 31 ∨ off + c.avail info.sizeMax ≤ build.bufsize) ∧
      ∀ c, api.select oid req.ts = .ok c → TreatmentFits build lib req off info c

/-- Each object fits that the loop puts into the buffer. -/
def ObjectsFit : List (BitVec 32) → Int → Prop
  | [], _ => True
  | oid :: oids, buflen =>
      (buflen + rplySize + objInfoSize < build.bufsize → ObjectFits build lib api req oid buflen) ∧
        ∀ next, loopStep build lib api req oid buflen = .next next → ObjectsFit oids next

/-- A list is not asked for with a search that fails, and the objects to be read fit. -/
structure RequestFits : Prop where
  list : Listed req → 0 ≤ (req.objects api.toLocalApi).2.toInt
  objects : 0 < (req.objects api.toLocalApi).2.toInt → Reads req →
    ObjectsFit build lib api req
      (sortedOids (req.objects api.toLocalApi).1 (req.objects api.toLocalApi).2) (listLen req)

end Fits

/-! ## Images -/

variable {build : Build} {lib : JpegLib} {api : ServerApi} {req : Request} {cap data : Int}
  {info : WireInfo} {c : Commit} {oid : BitVec 32} {buflen off : Int}

theorem mem_reduceLines {height line : Int} (hpos : 0 < height) (h : line ∈ reduceLines height) :
    0 ≤ line ∧ line ≤ lastLine height := by
  obtain ⟨k, hk, rfl⟩ := List.mem_map.mp h
  rw [List.mem_range] at hk
  rw [Int.tdiv_eq_ediv_of_nonneg (Int.le_of_lt hpos)] at hk ⊢
  unfold lastLine
  rw [Int.tdiv_eq_ediv_of_nonneg (Int.le_of_lt hpos)]
  omega

theorem reduceLines_nil {height : Int} (h : ¬ 0 < height) : reduceLines height = [] := by
  have htdiv : height.tdiv 2 = -((-height) / 2) := by
    rw [← Int.neg_neg height, Int.neg_tdiv, Int.tdiv_eq_ediv_of_nonneg (by omega), Int.neg_neg]
  unfold reduceLines
  rw [htdiv, show ((height - -(-height / 2) + 3) / 4).toNat = 0 by omega]
  rfl

theorem mem_reducePx {widthstep px : Int} (h : px ∈ reducePx widthstep) :
    0 ≤ px ∧ px < widthstep := by
  obtain ⟨k, hk, rfl⟩ := List.mem_map.mp h
  rw [List.mem_range] at hk
  omega

/-- A line of an image that ends in the buffer is where the integers have it. -/
theorem lineIdx_eq {widthstep line last : Int} (hcap : cap ≤ 650000) (hdata : 0 ≤ data)
    (hws : 0 ≤ widthstep) (hline : 0 ≤ line) (hle : line ≤ last)
    (hend : data + widthstep * last ≤ cap) :
    lineIdx widthstep line = widthstep * line ∧ 0 ≤ widthstep * line ∧
      widthstep * line ≤ widthstep * last := by
  have hstart : 0 ≤ widthstep * line := Int.mul_nonneg hws hline
  have hmul : widthstep * line ≤ widthstep * last := Int.mul_le_mul_of_nonneg_left hle hws
  exact ⟨wrap32_of_bounds (by omega) (by omega), hstart, hmul⟩

/-- The accesses to one group of lines are inside if the group is. -/
theorem reduce_group {widthstep line last : Int} (hcap : cap ≤ 650000) (hdata : 0 ≤ data)
    (hws : 0 ≤ widthstep) (hline : 0 ≤ line) (hlast : line ≤ last)
    (hend : data + widthstep * (last + 4) ≤ cap) :
    ∀ e ∈ ((reducePx widthstep).flatMap fun px => [0, 1, 2].map fun k =>
        (⟨data + wrap32 (wrap32 (lineIdx widthstep line + px) + k), 1⟩ : Extent)) ++
      [0, 1, 2, 3].map fun k => (⟨data + lineIdx widthstep (line + k), widthstep⟩ : Extent),
      e.Inside cap := by
  have hidx {k : Int} (h0 : 0 ≤ k) (h4 : k ≤ 4) :
      lineIdx widthstep (line + k) = widthstep * line + widthstep * k ∧
        0 ≤ widthstep * line ∧ widthstep * line + widthstep * k ≤ widthstep * (last + 4) := by
    obtain ⟨heq, -, hle⟩ := lineIdx_eq hcap hdata hws (show 0 ≤ line + k by omega)
      (show line + k ≤ last + 4 by omega) hend
    rw [Int.mul_add] at heq hle
    exact ⟨heq, Int.mul_nonneg hws hline, hle⟩
  obtain ⟨hfirst, h0, -⟩ := hidx (Int.le_refl 0) (by decide)
  obtain ⟨-, -, hgroup⟩ := hidx (show (0 : Int) ≤ 4 by decide) (Int.le_refl 4)
  rw [Int.add_zero, Int.mul_zero, Int.add_zero] at hfirst
  intro e he
  rcases List.mem_append.mp he with he | he
  · obtain ⟨px, hpx, he⟩ := List.mem_flatMap.mp he
    obtain ⟨k, hk, rfl⟩ := List.mem_map.mp he
    have hpx := mem_reducePx hpx
    have hk : 0 ≤ k ∧ k ≤ 2 := by
      simp only [List.mem_cons, List.not_mem_nil, or_false] at hk
      omega
    have hpixel : wrap32 (widthstep * line + px) = widthstep * line + px :=
      wrap32_of_bounds (by omega) (by omega)
    rw [hfirst, hpixel, wrap32_of_bounds (by omega) (by omega), Extent.inside_iff]
    omega
  · obtain ⟨k, hk, rfl⟩ := List.mem_map.mp he
    simp only [List.mem_cons, List.not_mem_nil, or_false] at hk
    obtain ⟨heq, -, -⟩ := hidx (show 0 ≤ k by omega) (by omega)
    have hle : widthstep * k ≤ widthstep * 3 := Int.mul_le_mul_of_nonneg_left (by omega) hws
    have hk0 : 0 ≤ widthstep * k := Int.mul_nonneg hws (by omega)
    rw [heq, Extent.inside_iff]
    omega

theorem lineIdx_succ (widthstep line : Int) :
    lineIdx widthstep (line + 1) = wrap32 (lineIdx widthstep line + widthstep) := by
  unfold lineIdx wrap32
  rw [Int.bmod_add_bmod, Int.mul_add, Int.mul_one]

/-- Lines that are all in the buffer follow one another there: no product wraps between them. -/
theorem lineIdx_of_inside {widthstep first : Int} {n : Nat} (hcap : cap ≤ 650000)
    (hdata : 0 ≤ data) (hdata' : data ≤ cap)
    (h : ∀ k ≤ n, (⟨data + lineIdx widthstep (first + (k : Int)), widthstep⟩ : Extent).Inside cap) :
    ∀ k ≤ n, lineIdx widthstep (first + (k : Int)) = lineIdx widthstep first + widthstep * k := by
  intro k hk
  induction k with
  | zero => simp
  | succ k ih =>
      have hinside := Extent.inside_iff.mp (h k (by omega))
      have ih := ih (by omega)
      have hsplit : widthstep * ((k + 1 : Nat) : Int) = widthstep * k + widthstep := by
        rw [Int.natCast_succ, Int.mul_add, Int.mul_one]
      rw [Int.natCast_succ, ← Int.add_assoc, lineIdx_succ,
        wrap32_of_bounds (by omega) (by omega), ih, ← Int.natCast_succ, hsplit]
      omega

/-- If all lines are in the buffer then the last group ends there, by the integers. -/
theorem fits_of_lines {widthstep height : Int} (hcap : cap ≤ 650000) (hdata : 0 ≤ data)
    (hdata' : data ≤ cap) (hpos : 0 < height)
    (h : ∀ line ∈ reduceLines height, ∀ k ∈ [0, 1, 2, 3],
      (⟨data + lineIdx widthstep (line + k), widthstep⟩ : Extent).Inside cap) :
    0 ≤ widthstep ∧ data + widthstep * (lastLine height + 4) ≤ cap := by
  have hhalf : height.tdiv 2 = height / 2 := Int.tdiv_eq_ediv_of_nonneg (Int.le_of_lt hpos)
  obtain ⟨q, hq⟩ := Int.eq_ofNat_of_zero_le (show 0 ≤ (height - height / 2 - 1) / 4 by omega)
  have hlast : lastLine height = height / 2 + 4 * q := by
    unfold lastLine
    rw [hhalf, hq]
  -- the lines from the middle of the image on
  have hlines : ∀ k ≤ 4 * q + 3,
      (⟨data + lineIdx widthstep (height / 2 + (k : Int)), widthstep⟩ : Extent).Inside cap := by
    intro k hk
    have hmem : height / 2 + 4 * (k / 4 : Nat) ∈ reduceLines height := by
      refine List.mem_map.mpr ⟨k / 4, ?_, by rw [hhalf]⟩
      rw [List.mem_range, hhalf]
      omega
    have hline := h _ hmem (k % 4 : Nat) (by
      simp only [List.mem_cons, List.not_mem_nil, or_false]
      omega)
    rwa [show height / 2 + 4 * ((k / 4 : Nat) : Int) + ((k % 4 : Nat) : Int) =
      height / 2 + (k : Int) by omega] at hline
  have hend := lineIdx_of_inside hcap hdata hdata' hlines (4 * q + 3) (Nat.le_refl _)
  have hinside := Extent.inside_iff.mp (hlines (4 * q + 3) (Nat.le_refl _))
  have hfirst := Extent.inside_iff.mp (hlines 0 (Nat.zero_le _))
  have hws : 0 ≤ widthstep := hinside.2.1
  rw [hend] at hinside
  rw [Int.natCast_zero, Int.add_zero] at hfirst
  -- as many lines again are in front of them
  have hcount : widthstep * ((4 * q + 3 : Nat) : Int) + widthstep =
      widthstep * (4 * q + 4) := by
    rw [← Int.mul_one widthstep, Int.mul_assoc, ← Int.mul_add, Int.one_mul]
    congr 1
    omega
  have hhead : widthstep * (height / 2) ≤ widthstep * (4 * q + 4) :=
    Int.mul_le_mul_of_nonneg_left (by omega) hws
  have hhead0 : 0 ≤ widthstep * (height / 2) := Int.mul_nonneg hws (by omega)
  have hidx : lineIdx widthstep (height / 2) = widthstep * (height / 2) :=
    wrap32_of_bounds (by omega) (by omega)
  have hmul : widthstep * (lastLine height + 4) =
      widthstep * (height / 2) + widthstep * (4 * q + 4) := by
    rw [hlast, ← Int.mul_add]
    congr 1
    omega
  exact ⟨hws, by omega⟩

theorem reduceA2Image_inside_iff (widthstep height : Int) (hcap : cap ≤ 650000)
    (hdata : 0 ≤ data) (hdata' : data ≤ cap) :
    (∀ e ∈ reduceA2Image data widthstep height, e.Inside cap) ↔
      ReduceFits cap data widthstep height := by
  unfold reduceA2Image ReduceFits
  dsimp only
  rw [List.forall_mem_append, List.forall_mem_cons, List.forall_mem_singleton]
  by_cases hpos : 0 < height
  · rw [if_pos hpos]
    constructor
    · rintro ⟨⟨-, hlines⟩, -⟩
      refine fits_of_lines hcap hdata hdata' hpos fun line hline k hk => ?_
      exact hlines _ (List.mem_flatMap.mpr ⟨line, hline,
        List.mem_append_right _ (List.mem_map.mpr ⟨k, hk, rfl⟩)⟩)
    · rintro ⟨hws, hend⟩
      have hheight : height ≤ lastLine height + 4 := by
        unfold lastLine
        omega
      obtain ⟨hsize, h0, hmul⟩ := lineIdx_eq hcap hdata hws (Int.le_of_lt hpos) hheight hend
      have hsize : wrap32 (widthstep * height) = widthstep * height := hsize
      rw [hsize, wrap32_of_bounds (by omega) (by omega), Int.tdiv_eq_ediv_of_nonneg h0,
        Int.tdiv_eq_ediv_of_nonneg h0, Int.tdiv_eq_ediv_of_nonneg (by omega)]
      refine ⟨⟨?_, ?_⟩, ?_⟩
      · rw [Extent.inside_iff]
        omega
      · intro e he
        obtain ⟨line, hline, he⟩ := List.mem_flatMap.mp he
        obtain ⟨h0, hle⟩ := mem_reduceLines hpos hline
        exact reduce_group hcap hdata hws h0 hle hend e he
      · rw [Extent.inside_iff]
        omega
  · rw [if_neg hpos, reduceLines_nil hpos]
    generalize wrap32 (widthstep * height) = size
    simp only [List.flatMap_nil, List.not_mem_nil, false_implies, implies_true, and_true,
      Extent.inside_iff]
    have htdiv (n d : Int) (hn : n < 0) : n.tdiv d = -((-n) / d) := by
      rw [← Int.neg_neg n, Int.neg_tdiv, Int.tdiv_eq_ediv_of_nonneg (by omega), Int.neg_neg]
    by_cases hsmall : -8 ≤ size ∧ size ≤ 2 * cap + 1
    · rw [wrap32_of_bounds (by omega) (by omega)]
      by_cases hsize : 0 ≤ size
      · rw [Int.tdiv_eq_ediv_of_nonneg hsize, Int.tdiv_eq_ediv_of_nonneg hsize,
          Int.tdiv_eq_ediv_of_nonneg (by omega)]
        omega
      · rw [htdiv size 2 (by omega), htdiv size 8 (by omega), htdiv (size * 7) 8 (by omega)]
        omega
    · -- half of it does not fit, nor does all of it
      by_cases hsize : 0 ≤ size
      · rw [Int.tdiv_eq_ediv_of_nonneg hsize, Int.tdiv_eq_ediv_of_nonneg hsize,
          Int.tdiv_eq_ediv_of_nonneg (show 0 ≤ size * 7 by omega)]
        omega
      · rw [htdiv size 2 (by omega)]
        omega

theorem jpegLines_inside_iff {image : A2Image} {lines : Nat} (hcap : cap ≤ 650000)
    (hdata : 0 ≤ data) (hdata' : data ≤ cap) (haccepted : 0 < lines → image.Accepted) :
    (∀ e ∈ jpegLines data image lines, e.Inside cap) ↔ LinesFit cap data image lines := by
  unfold jpegLines LinesFit
  cases lines with
  | zero => simpa using hdata'
  | succ n =>
      obtain ⟨⟨hw0, hw⟩, -, ⟨hc0, hc⟩⟩ := haccepted (Nat.succ_pos n)
      have hline : 0 < image.width * image.channels := Int.mul_pos hw0 hc0
      have hle : image.width * image.channels ≤ 65500 * 10 := by
        calc image.width * image.channels
            ≤ 65500 * image.channels := Int.mul_le_mul_of_nonneg_right hw (Int.le_of_lt hc0)
          _ ≤ 65500 * 10 := Int.mul_le_mul_of_nonneg_left hc (by decide)
      dsimp only
      rw [wrap32_of_bounds (by omega) (by omega)]
      generalize image.width * image.channels = stride at *
      constructor
      · intro h
        -- as long as the lines are in the buffer, their places do not wrap
        have hrun : ∀ k ≤ n + 1, data + (k : Int) * stride ≤ cap := by
          intro k hk
          induction k with
          | zero => simpa using hdata'
          | succ k ih =>
              have ih := ih (by omega)
              have hstart : 0 ≤ (k : Int) * stride := Int.mul_nonneg (by omega) (by omega)
              have hinside := Extent.inside_iff.mp (h ⟨data + (k * stride) % 2 ^ 32, stride⟩
                (List.mem_map.mpr ⟨k, List.mem_range.mpr hk, rfl⟩))
              rw [Int.emod_eq_of_lt hstart (by omega)] at hinside
              rw [Int.natCast_succ, Int.add_mul, Int.one_mul]
              omega
        exact hrun (n + 1) (Nat.le_refl _)
      · intro h e he
        obtain ⟨k, hk, rfl⟩ := List.mem_map.mp he
        rw [List.mem_range] at hk
        have hstart : 0 ≤ (k : Int) * stride := Int.mul_nonneg (by omega) (by omega)
        have hend : ((k : Int) + 1) * stride ≤ ((n + 1 : Nat) : Int) * stride :=
          Int.mul_le_mul_of_nonneg_right (by omega) (by omega)
        rw [Int.add_mul, Int.one_mul] at hend
        rw [Int.emod_eq_of_lt hstart (by omega), Extent.inside_iff]
        omega

theorem jpegUsed_le {size used : Int} {n : Nat} (h : jpegUsed size n = some used) :
    a2ImageSize ≤ used ∧ used ≤ size := by
  unfold jpegUsed a2ImageSize at *
  split at h
  · cases h
  · cases h
    omega

/-! ## The loop -/

theorem bufsize_bounds (build : Build) : 65000 ≤ build.bufsize ∧ build.bufsize ≤ 650000 := by
  unfold Build.bufsize
  split <;> decide

/-- What is compressed is an image of more than 20000 bytes, and the library decides on it. -/
theorem treatment_jpeg {outcome : Except Nat Nat}
    (h : treatment build lib req off info c = .jpeg outcome) :
    20000 < c.avail info.sizeMax ∧ lib.outcome off (A2Image.ofMem c.bytes) c.bytes = outcome := by
  unfold treatment at h
  dsimp only at h
  by_cases himage : 20000 < c.avail info.sizeMax ∧ info.otype = otypeA2Image ∧
      (A2Image.ofMem c.bytes).colormodell ≠ colormodelRgbjpeg
  · rw [if_pos himage] at h
    by_cases hjpeg : build.jpeg = true ∧ Flag req.flags flagJpegimage
    · rw [if_pos hjpeg] at h
      exact ⟨himage.1, Treatment.jpeg.inj h⟩
    · rw [if_neg hjpeg] at h
      cases h
  · rw [if_neg himage] at h
    cases h

theorem treatment_reduce (h : treatment build lib req off info c = .reduce) :
    20000 < c.avail info.sizeMax := by
  unfold treatment at h
  dsimp only at h
  split at h
  · rename_i himage
    exact himage.1
  · cases h

/-- The place is in the buffer, and so is what was copied of the record. -/
theorem dataAccesses_ok_iff (hoff : 0 ≤ off) (hmin : 24 ≤ c.avail info.sizeMax)
    (hend : off + c.avail info.sizeMax ≤ build.bufsize) :
    (∀ a ∈ dataAccesses build lib req off info c, a.Ok build.bufsize) ↔
      TreatmentFits build lib req off info c := by
  have hcap := (bufsize_bounds build).2
  have hdata : 0 ≤ off + a2ImageSize := by
    unfold a2ImageSize
    omega
  have hdata' (hlarge : 20000 < c.avail info.sizeMax) : off + a2ImageSize ≤ build.bufsize := by
    unfold a2ImageSize
    omega
  have hsize : (Access.buf ⟨off + 20, 4⟩).Ok build.bufsize :=
    Extent.inside_iff.mpr (by omega)
  have hmap (l : List Extent) : (∀ a ∈ l.map Access.buf, a.Ok build.bufsize) ↔
      ∀ e ∈ l, e.Inside build.bufsize := List.forall_mem_map
  have hlook : ∀ a ∈ (if 20000 < c.avail info.sizeMax ∧ info.otype = otypeA2Image then
      [Access.buf ⟨off + 40, 4⟩] else []), a.Ok build.bufsize := by
    split
    · rw [List.forall_mem_singleton]
      exact Extent.inside_iff.mpr (by omega)
    · exact fun a ha => absurd ha List.not_mem_nil
  unfold dataAccesses TreatmentFits
  rw [List.forall_mem_cons, and_iff_right hsize, List.forall_mem_append, and_iff_right hlook]
  cases htreat : treatment build lib req off info c with
  | plain => simp
  | reduce =>
      dsimp only
      rw [hmap, reduceA2Image_inside_iff _ _ hcap hdata (hdata' (treatment_reduce htreat))]
  | jpeg outcome =>
      obtain ⟨hlarge, houtcome⟩ := treatment_jpeg htreat
      cases outcome with
      | error lines =>
          dsimp only
          rw [hmap, jpegLines_inside_iff hcap hdata (hdata' hlarge) fun hpos =>
            (lib.ended houtcome hpos).1]
      | ok n =>
          have haccepted := lib.accepted houtcome
          have hheight : ((A2Image.ofMem c.bytes).height.toNat : Int) =
              (A2Image.ofMem c.bytes).height :=
            Int.toNat_of_nonneg (Int.le_of_lt haccepted.height.1)
          dsimp only
          rw [List.forall_mem_append, hmap,
            jpegLines_inside_iff hcap hdata (hdata' hlarge) fun _ => haccepted, hheight]
          refine and_congr_right fun _ => ?_
          cases hused : jpegUsed (c.avail info.sizeMax) n with
          | none => simp
          | some used =>
              have hle := jpegUsed_le hused
              unfold a2ImageSize at *
              simp only [List.forall_mem_cons, List.not_mem_nil, false_implies, implies_true,
                and_true, Access.Ok, Extent.inside_iff, Option.some.injEq, forall_eq']
              omega

theorem dataLen_le {len : Int} (hmin : 24 ≤ c.avail info.sizeMax)
    (h : dataLen build lib req off info c = some len) :
    0 ≤ len ∧ len ≤ c.avail info.sizeMax := by
  unfold dataLen at h
  split at h
  · cases h
    omega
  · cases h
    omega
  · cases h
  · rename_i n _
    cases h
    cases hused : jpegUsed (c.avail info.sizeMax) n with
    | none =>
        rw [Option.getD_none]
        omega
    | some used =>
        have hle := jpegUsed_le hused
        unfold a2ImageSize at hle
        rw [Option.getD_some]
        omega

theorem dataPlace_bounds (req : Request) (buflen : Int) :
    buflen + rplySize ≤ dataPlace req buflen ∧
      dataPlace req buflen ≤ buflen + rplySize + objInfoSize := by
  unfold dataPlace rplySize objInfoSize
  split <;> omega

theorem copied_min {c : Commit} (hinfo : api.readinfo oid req.ts = .ok info)
    (hc : api.copied oid req.ts = some c) : 24 ≤ c.avail info.sizeMax := by
  have hmin := c.size_min
  have hmax : 24 ≤ info.sizeMax := by
    unfold ServerApi.copied at hc
    split at hc
    · rename_i hselect
      exact api.sizeMax_min hinfo hselect
    · exact api.late_min hinfo hc
  unfold Commit.avail
  split <;> omega

theorem copied_inside (hoff : 0 ≤ off) (hinfo : api.readinfo oid req.ts = .ok info)
    (hcheck : wrap32 (off + info.sizeMax) < build.bufsize)
    (hc : api.copied oid req.ts = some c) :
    off + c.avail info.sizeMax ≤ build.bufsize ↔
      off + info.sizeMax < 2 ^ 31 ∨ off + c.avail info.sizeMax ≤ build.bufsize := by
  have hle := c.avail_le info.sizeMax
  have hmin := copied_min hinfo hc
  constructor
  · exact Or.inr
  · rintro (hlt | hend)
    · rw [wrap32_of_bounds (by omega) hlt] at hcheck
      omega
    · exact hend

theorem copyAccesses_ok_iff (hoff : 0 ≤ off) (hmin : 24 ≤ c.avail info.sizeMax) :
    (∀ a ∈ copyAccesses off info c, a.Ok build.bufsize) ↔
      off + c.avail info.sizeMax ≤ build.bufsize := by
  unfold copyAccesses
  simp only [List.forall_mem_cons, List.not_mem_nil, false_implies, implies_true, and_true,
    Access.Ok, Extent.inside_iff]
  omega

theorem evenLen_le (build : Build) {n : Int} (h : n ≤ build.bufsize) :
    evenLen n ≤ build.bufsize := by
  have heven : build.bufsize % 2 = 0 := by
    unfold Build.bufsize
    split <;> rfl
  unfold evenLen
  omega

theorem nil_ok : (∀ a ∈ ([] : List Access), a.Ok cap) ↔ True :=
  iff_true_intro fun _ ha => absurd ha List.not_mem_nil

/-- Reading an object's data, once the place for them is found. -/
theorem readAccesses_ok_iff (hoff : 0 ≤ off) (hinfo : api.readinfo oid req.ts = .ok info)
    (hcheck : wrap32 (off + info.sizeMax) < build.bufsize) :
    (∀ a ∈ (api.copied oid req.ts).toList.flatMap (copyAccesses off info) ++
        (match api.select oid req.ts with
        | .error _ => []
        | .ok c => dataAccesses build lib req off info c), a.Ok build.bufsize) ↔
      (∀ c, api.copied oid req.ts = some c →
        off + info.sizeMax < 2 ^ 31 ∨ off + c.avail info.sizeMax ≤ build.bufsize) ∧
      ∀ c, api.select oid req.ts = .ok c → TreatmentFits build lib req off info c := by
  have hcopied : (∀ a ∈ (api.copied oid req.ts).toList.flatMap (copyAccesses off info),
      a.Ok build.bufsize) ↔ ∀ c, api.copied oid req.ts = some c →
        off + info.sizeMax < 2 ^ 31 ∨ off + c.avail info.sizeMax ≤ build.bufsize := by
    cases hc : api.copied oid req.ts with
    | none =>
        rw [Option.toList_none, List.flatMap_nil, nil_ok]
        exact iff_of_true trivial fun c h => by cases h
    | some c =>
        rw [Option.toList_some, List.flatMap_singleton,
          copyAccesses_ok_iff hoff (copied_min hinfo hc)]
        refine (copied_inside hoff hinfo hcheck hc).trans ⟨fun h d hd => ?_, fun h => h c rfl⟩
        cases hd
        exact h
  rw [List.forall_mem_append, hcopied]
  refine and_congr_right fun hfits => ?_
  cases hselect : api.select oid req.ts with
  | error e =>
      rw [nil_ok]
      exact iff_of_true trivial fun c h => by cases h
  | ok c =>
      have hc : api.copied oid req.ts = some c := by
        unfold ServerApi.copied
        rw [hselect]
      have hend := (copied_inside hoff hinfo hcheck hc).mpr (hfits c hc)
      refine (dataAccesses_ok_iff hoff (copied_min hinfo hc) hend).trans
        ⟨fun h d hd => ?_, fun h => h c rfl⟩
      cases hd
      exact h

/-- The body stays inside if and only if the object that it puts into the buffer fits. -/
theorem loopAccesses_ok_iff {i : Nat} (hi : i ≤ idlistMax) (hbuflen : 0 ≤ buflen) :
    (∀ a ∈ loopAccesses build lib api req i oid buflen, a.Ok build.bufsize) ↔
      (buflen + rplySize + objInfoSize < build.bufsize →
        ObjectFits build lib api req oid buflen) := by
  obtain ⟨hplace, hplace'⟩ := dataPlace_bounds req buflen
  unfold loopAccesses ObjectFits
  by_cases hheader : build.bufsize ≤ buflen + rplySize
  · rw [if_pos hheader, nil_ok]
    refine iff_of_true trivial fun h => ?_
    unfold objInfoSize at h
    omega
  rw [if_neg hheader, List.forall_mem_append]
  have hok : ∀ a ∈ [Access.buf ⟨buflen, rplySize⟩, .idlist i], a.Ok build.bufsize := by
    intro a ha
    simp only [List.mem_cons, List.not_mem_nil, or_false] at ha
    rcases ha with rfl | rfl
    · unfold rplySize at *
      exact Extent.inside_iff.mpr (by omega)
    · exact ⟨by omega, by omega⟩
  rw [and_iff_right hok]
  by_cases hroom : build.bufsize ≤ buflen + rplySize + objInfoSize
  · rw [if_pos hroom, nil_ok]
    exact iff_of_true trivial fun h => absurd h (Int.not_lt.mpr hroom)
  rw [if_neg hroom, forall_prop_of_true (Int.not_le.mp hroom), List.forall_mem_append]
  have hinfoOk : ∀ a ∈ (if Flag req.flags flagInfo then
      [Access.buf ⟨buflen + rplySize, objInfoSize⟩] else []), a.Ok build.bufsize := by
    split
    · rw [List.forall_mem_singleton]
      unfold rplySize objInfoSize at *
      exact Extent.inside_iff.mpr (by omega)
    · exact fun a ha => absurd ha List.not_mem_nil
  rw [and_iff_right hinfoOk]
  cases hinfo : api.readinfo oid req.ts with
  | error e =>
      rw [nil_ok]
      exact iff_of_true trivial fun info h => by cases h
  | ok info =>
      have hinj : (∀ info', Except.ok info = (Except.ok info' : Except Err WireInfo) →
          Flag req.flags flagData →
          wrap32 (dataPlace req buflen + info'.sizeMax) < build.bufsize →
          (∀ c, api.copied oid req.ts = some c →
            dataPlace req buflen + info'.sizeMax < 2 ^ 31 ∨
              dataPlace req buflen + c.avail info'.sizeMax ≤ build.bufsize) ∧
          ∀ c, api.select oid req.ts = .ok c →
            TreatmentFits build lib req (dataPlace req buflen) info' c) ↔ _ :=
        ⟨fun h => h info rfl, fun h info' heq => by cases heq; exact h⟩
      rw [hinj]
      dsimp only
      by_cases hdata : Flag req.flags flagData
      swap
      · rw [if_pos hdata, nil_ok]
        exact iff_of_true trivial fun h => absurd h hdata
      rw [if_neg (not_not.mpr hdata), forall_prop_of_true hdata]
      by_cases hcheck : build.bufsize ≤ wrap32 (dataPlace req buflen + info.sizeMax)
      · rw [if_pos hcheck, nil_ok]
        exact iff_of_true trivial fun h => absurd h (Int.not_lt.mpr hcheck)
      have hcheck' := Int.not_le.mp hcheck
      rw [if_neg hcheck, forall_prop_of_true hcheck']
      unfold rplySize at hplace
      exact readAccesses_ok_iff (by omega) hinfo hcheck'

theorem loopStep_next {next : Int} (hbuflen : 0 ≤ buflen)
    (hfits : buflen + rplySize + objInfoSize < build.bufsize →
      ObjectFits build lib api req oid buflen)
    (h : loopStep build lib api req oid buflen = .next next) : 0 ≤ next ∧ next ≤ build.bufsize := by
  obtain ⟨hplace, hplace'⟩ := dataPlace_bounds req buflen
  have heven (n : Int) (h0 : 0 ≤ n) (hle : n ≤ build.bufsize) :
      0 ≤ evenLen n ∧ evenLen n ≤ build.bufsize := by
    refine ⟨?_, evenLen_le build hle⟩
    unfold evenLen
    omega
  unfold loopStep at h
  split at h
  · cases h
  split at h
  · cases h
  rename_i hroom
  have hfits := hfits (Int.not_le.mp hroom)
  have hoff : 0 ≤ dataPlace req buflen := by
    unfold rplySize at hplace
    omega
  split at h
  · cases h
  rename_i info hinfo
  dsimp only at h
  by_cases hdata : Flag req.flags flagData
  swap
  · rw [if_pos hdata] at h
    cases h
    exact heven _ hoff (by omega)
  rw [if_neg (not_not.mpr hdata)] at h
  by_cases hcheck : build.bufsize ≤ wrap32 (dataPlace req buflen + info.sizeMax)
  · rw [if_pos hcheck] at h
    cases h
  rw [if_neg hcheck] at h
  have hcheck := Int.not_le.mp hcheck
  have hfits := hfits info hinfo hdata hcheck
  cases hselect : api.select oid req.ts with
  | error e =>
      rw [hselect] at h
      cases h
      exact heven _ hoff (by omega)
  | ok c =>
      have hc : api.copied oid req.ts = some c := by
        unfold ServerApi.copied
        rw [hselect]
      have hend := (copied_inside hoff hinfo hcheck hc).mpr (hfits.1 c hc)
      rw [hselect] at h
      dsimp only at h
      cases hlen : dataLen build lib req (dataPlace req buflen) info c with
      | none =>
          rw [hlen] at h
          cases h
      | some len =>
          have hle := dataLen_le (copied_min hinfo hc) hlen
          rw [hlen] at h
          cases h
          exact heven _ (by omega) (by omega)

/-- The loop stays inside if and only if all objects fit, -/
theorem serveLoop_ok_iff : ∀ (oids : List (BitVec 32)) (i : Nat) (buflen : Int),
    i + oids.length ≤ idlistMax → 0 ≤ buflen →
    ((∀ a ∈ (serveLoop build lib api req oids i buflen).1, a.Ok build.bufsize) ↔
      ObjectsFit build lib api req oids buflen)
  | [], _, _, _, _ => nil_ok
  | oid :: oids, i, buflen, hi, hbuflen => by
      rw [List.length_cons] at hi
      have hbody : (∀ a ∈ loopAccesses build lib api req i oid buflen, a.Ok build.bufsize) ↔ _ :=
        loopAccesses_ok_iff (by omega) hbuflen
      unfold serveLoop ObjectsFit
      cases hstep : loopStep build lib api req oid buflen with
      | next next =>
          dsimp only
          rw [List.forall_mem_append, hbody]
          refine and_congr_right fun hfits => ?_
          obtain ⟨h0, -⟩ := loopStep_next hbuflen hfits hstep
          refine (serveLoop_ok_iff oids (i + 1) next (by omega) h0).trans ⟨fun h n hn => ?_, ?_⟩
          · cases hn
            exact h
          · exact fun h => h next rfl
      | leave => exact hbody.trans (iff_self_and.mpr fun _ n hn => by cases hn)
      | exit => exact hbody.trans (iff_self_and.mpr fun _ n hn => by cases hn)

/-- and what it leaves in the buffer then is inside. -/
theorem serveLoop_last : ∀ (oids : List (BitVec 32)) (i : Nat) (buflen last : Int),
    0 ≤ buflen → buflen ≤ build.bufsize → ObjectsFit build lib api req oids buflen →
    (serveLoop build lib api req oids i buflen).2 = some last →
    0 ≤ last ∧ last ≤ build.bufsize
  | [], _, _, _, h0, hle, _, h => by
      cases h
      exact ⟨h0, hle⟩
  | oid :: oids, i, buflen, last, h0, hle, hfits, h => by
      unfold serveLoop at h
      cases hstep : loopStep build lib api req oid buflen with
      | next next =>
          rw [hstep] at h
          obtain ⟨h0', hle'⟩ := loopStep_next h0 hfits.1 hstep
          exact serveLoop_last oids (i + 1) next last h0' hle' (hfits.2 next hstep) h
      | leave =>
          rw [hstep] at h
          cases h
          exact ⟨h0, hle⟩
      | exit =>
          rw [hstep] at h
          cases h

/-! ## A pass -/

theorem one_le_idlistMax : 1 ≤ (idlistMax : Int) := by
  unfold idlistMax
  decide

theorem idlistSize_eq : idlistSize = 4004 := by
  unfold idlistSize idlistMax
  rfl

theorem idlist_range_ok {n : Nat} (hn : n ≤ idlistMax + 1) :
    ∀ a ∈ (List.range n).map fun (i : Nat) => Access.idlist i, a.Ok cap := by
  intro a ha
  obtain ⟨i, hi, rfl⟩ := List.mem_map.mp ha
  rw [List.mem_range] at hi
  exact ⟨by omega, by omega⟩

theorem fillAccesses_ok {listoids : Int} (hle : listoids ≤ idlistMax) :
    ∀ a ∈ fillAccesses req listoids, a.Ok cap := by
  unfold fillAccesses
  split
  · have hpos := one_le_idlistMax
    intro a ha
    simp only [List.mem_cons, List.not_mem_nil, or_false] at ha
    rcases ha with rfl | rfl
    · exact ⟨by omega, by omega⟩
    · exact ⟨by omega, hpos⟩
  · exact idlist_range_ok (by omega)

/-- The list part needs a length that is not negative. -/
theorem listAccesses_ok_iff {listoids : Int} (hle : listoids ≤ idlistMax) :
    (∀ a ∈ listAccesses listoids, a.Ok build.bufsize) ↔ 0 ≤ listoids := by
  have hcap := (bufsize_bounds build).1
  have hsize : idlistSize = 4004 := idlistSize_eq
  have hheader : (Access.buf ⟨0, rplySize⟩).Ok build.bufsize := by
    refine Extent.inside_zero.mpr ?_
    unfold rplySize
    omega
  have hlist : (Access.buf ⟨rplySize, idlistSize⟩).Ok build.bufsize := by
    refine Extent.inside_iff.mpr ?_
    rw [hsize]
    unfold rplySize
    omega
  have hzeros : (∀ a ∈ (List.range (idlistMax - listoids).toNat).map
      fun (k : Nat) => Access.idlist (listoids + k), a.Ok build.bufsize) ↔ 0 ≤ listoids := by
    constructor
    · intro h
      by_contra hneg
      have hfirst := h (.idlist (listoids + (0 : Nat)))
        (List.mem_map.mpr ⟨0, by rw [List.mem_range]; omega, rfl⟩)
      have hge := hfirst.1
      omega
    · intro h0 a ha
      obtain ⟨k, hk, rfl⟩ := List.mem_map.mp ha
      rw [List.mem_range] at hk
      exact ⟨by omega, by omega⟩
  unfold listAccesses
  simp only [List.forall_mem_append, List.forall_mem_singleton, hheader, hzeros, hlist, true_and,
    and_true]
  exact and_iff_left (idlist_range_ok (Nat.le_refl _))

/-- A write request stays inside: the length that it states has to be the one that came. -/
theorem writeAccesses_ok {idlist : Nat → BitVec 32}
    (hlen : (Request.size + req.dataLen : Nat) ≤ build.bufsize) :
    ∀ a ∈ writeAccesses api req idlist, a.Ok build.bufsize := by
  have hcap := (bufsize_bounds build).1
  have hrequest : Request.size = 70 := rfl
  have hinfoSize : infoSize = 112 := rfl
  have hzero : (Access.idlist 0).Ok build.bufsize := ⟨by omega, by omega⟩
  have hreply : (Access.buf ⟨0, rplySize⟩).Ok build.bufsize := by
    refine Extent.inside_zero.mpr ?_
    unfold rplySize
    omega
  have hreplies : ∀ a ∈ [Access.buf ⟨0, rplySize⟩, .buf ⟨0, rplySize⟩], a.Ok build.bufsize := by
    simp only [List.forall_mem_cons, hreply, true_and]
    exact fun a ha => absurd ha List.not_mem_nil
  unfold writeAccesses
  split
  · exact fun a ha => absurd ha List.not_mem_nil
  rename_i hroom
  dsimp only
  rw [List.forall_mem_append]
  constructor
  · split
    · rw [List.forall_mem_singleton]
      exact Extent.inside_iff.mpr (by omega)
    · exact List.forall_mem_singleton.mpr hzero
  · have hrecvidx : (Request.size + (if Flag req.flags flagInfo then infoSize else 0) : Nat) ≤
        Request.size + req.dataLen := by
      split
      · rename_i hinfo
        have hle : ¬ req.dataLen < infoSize := fun h => hroom ⟨hinfo, h⟩
        omega
      · omega
    have hsmall :
        (Request.size + (if Flag req.flags flagInfo then infoSize else 0) : Nat) ≤ 182 := by
      split <;> omega
    generalize Request.size + (if Flag req.flags flagInfo then infoSize else 0) = recvidx at *
    split
    · rw [List.forall_mem_cons]
      refine ⟨Extent.inside_iff.mpr (by omega), ?_⟩
      split
      · exact fun a ha => absurd ha List.not_mem_nil
      · rename_i hsize
        rw [List.forall_mem_cons, List.forall_mem_cons]
        exact ⟨hzero, Extent.inside_iff.mpr (by omega), hreplies⟩
    · exact hreplies

theorem objects_count_le (api : ServerApi) (req : Request) :
    (req.objects api.toLocalApi).2.toInt ≤ idlistMax := by
  unfold Request.objects
  split
  · exact one_le_idlistMax
  · exact api.count_le

theorem requestAccesses_ok_iff (build : Build) (lib : JpegLib) (api : ServerApi) (req : Request)
    (hlen : (Request.size + req.dataLen : Nat) ≤ build.bufsize) :
    (∀ a ∈ requestAccesses build lib api req, a.Ok build.bufsize) ↔
      RequestFits build lib api req := by
  have hcap := (bufsize_bounds build).1
  have hcount := objects_count_le api req
  have hlistLen : 0 ≤ listLen req ∧ listLen req ≤ 4018 := by
    have hsize : idlistSize = 4004 := idlistSize_eq
    unfold listLen rplySize
    rw [hsize]
    split <;> omega
  have hlist :
      (∀ a ∈ (if Listed req then listAccesses (req.objects api.toLocalApi).2.toInt else []),
      a.Ok build.bufsize) ↔ (Listed req → 0 ≤ (req.objects api.toLocalApi).2.toInt) := by
    split
    · rename_i hlisted
      rw [listAccesses_ok_iff hcount, forall_prop_of_true hlisted]
    · rename_i hlisted
      rw [nil_ok]
      exact iff_of_true trivial fun h => absurd h hlisted
  have hsplit : RequestFits build lib api req ↔
      (Listed req → 0 ≤ (req.objects api.toLocalApi).2.toInt) ∧
      (0 < (req.objects api.toLocalApi).2.toInt → Reads req → ObjectsFit build lib api req
        (sortedOids (req.objects api.toLocalApi).1 (req.objects api.toLocalApi).2)
        (listLen req)) := ⟨fun h => ⟨h.1, h.2⟩, fun h => ⟨h.1, h.2⟩⟩
  rw [hsplit]
  unfold requestAccesses
  dsimp only
  rw [List.forall_mem_append, List.forall_mem_append, hlist,
    and_iff_right (fillAccesses_ok hcount)]
  refine and_congr_right fun _ => ?_
  by_cases hnone : (req.objects api.toLocalApi).2.toInt ≤ 0
  · rw [if_pos hnone]
    refine iff_of_true (fun a ha => ?_) fun h => absurd h (Int.not_lt.mpr hnone)
    simp only [List.mem_cons, List.not_mem_nil, or_false] at ha
    unfold rplySize at ha
    rcases ha with rfl | rfl <;> exact Extent.inside_iff.mpr (by omega)
  rw [if_neg hnone, forall_prop_of_true (Int.not_le.mp hnone)]
  by_cases hreads : Reads req
  · have hoids : (sortedOids (req.objects api.toLocalApi).1
        (req.objects api.toLocalApi).2).length ≤ idlistMax := by
      unfold sortedOids
      rw [List.length_insertionSort, List.length_map, List.length_range]
      omega
    have hloop :
        (∀ a ∈ (serveLoop build lib api req _ 0 (listLen req)).1, a.Ok build.bufsize) ↔ _ :=
      serveLoop_ok_iff _ 0 (listLen req) (by rwa [Nat.zero_add]) hlistLen.1
    rw [if_pos hreads, forall_prop_of_true hreads, List.forall_mem_append, List.forall_mem_append,
      hloop, and_iff_right (idlist_range_ok (by omega))]
    refine and_iff_left_iff_imp.mpr fun hfits a ha => ?_
    obtain ⟨last, hlast, rfl⟩ := List.mem_map.mp ha
    obtain ⟨h0, hle⟩ := serveLoop_last _ 0 (listLen req) last hlistLen.1 (by omega) hfits
      (Option.mem_toList.mp hlast)
    exact Extent.inside_zero.mpr ⟨h0, hle⟩
  · rw [if_neg hreads]
    refine iff_of_true ?_ fun h => absurd h hreads
    split
    · exact writeAccesses_ok hlen
    · rw [List.forall_mem_singleton]
      exact Extent.inside_iff.mpr (by omega)

def nothingFound : ServerApi where
  toLocalApi := { twoObjects with searchinfo := fun _ _ _ _ _ _ => (-2, fun _ => 0) }
  count_le := Int.le_trans (show (-2 : BitVec 32).toInt ≤ 1 by decide) one_le_idlistMax
  late _ _ := none
  late_min _ h := by cases h

def noJpeg : JpegLib where
  outcome _ _ _ := .error 0
  accepted h := by cases h
  ended h hpos := by
    cases h
    exact absurd hpos (Nat.lt_irrefl 0)

def listRequest : Packet (Build.bufsize ⟨false, false⟩) where
  bytes := Mem.ofBytes (fccRtdb ++ [2, 0, 0, 0, 4, 0])
  recvlen := Request.size
  recvlen_le := by decide

end KogmoRtdb.Udp
