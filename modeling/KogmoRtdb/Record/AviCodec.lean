import KogmoRtdb.Record.AviRaw

/-!
# Writing and reading chunks

The functions of `kogmo_rtdb_avirawcodec.c` that write a chunk, each with its own computation of
the length and of the zero behind data of an odd length, and those that read or skip one, on a
file with its position. `getAll_putAll_iff` says which chunks are got back as they were put:
the length is 32 bits wide, and so is its sum with the padding, but the answer of
`aviraw_fget_chunkdata` is an `int`.
-/

namespace KogmoRtdb

/-! ## Files -/

structure FilePtr where
  bytes : List Byte
  pos : Nat

/-- `fread` of one element: how many were read, what was read, and the file then. -/
def FilePtr.fread (fp : FilePtr) (size : Nat) : Int × List Byte × FilePtr :=
  let data := (fp.bytes.drop fp.pos).take size
  (if size ≠ 0 ∧ data.length = size then 1 else 0, data,
    { fp with pos := fp.pos + data.length })

/-- `fseek` from the current position. It may go behind the end. -/
def FilePtr.fseek (fp : FilePtr) (offset : Nat) : FilePtr := { fp with pos := fp.pos + offset }

/-- `fwrite` of one element at the end of a file. An empty one is none. -/
def fwrite (out data : List Byte) : Int × List Byte := (if data = [] then 0 else 1, out ++ data)

/-! ## Putting chunks -/

/-- A header, the data and the zero: how three of the functions go on. -/
def fputPadded (header data out : List Byte) : Int × List Byte :=
  let (_, out) := fwrite out header
  let (ret, out) := fwrite out data
  if ret ≠ 1 then (-1, out)
  else if data.length % 2 = 1 then (0, (fwrite out [0]).2) else (0, out)

def avirawFputStream (stream : Int) (data out : List Byte) : Int × List Byte :=
  if stream < 0 ∨ 10 < stream then (-1, out)
  else fputPadded (fccStream stream.toNat ++ Mem.le32 (BitVec.ofNat 32 data.length)) data out

def avirawFputJunk (data out : List Byte) : Int × List Byte :=
  fputPadded (fccJunk ++ Mem.le32 (BitVec.ofNat 32 data.length)) data out

def avirawFputChunk (fcc : List Byte) (cb : BitVec 32) (data out : List Byte) : Int × List Byte :=
  fputPadded (fcc ++ Mem.le32 cb) (data.take cb.toNat) out

/-- The header of the RTDB counts as data, in `cb`, and data may be absent. -/
def avirawFputRtdb (ts : Timestamp) (oid : ObjId) (datatype : BitVec 32) (data out : List Byte) :
    Int × List Byte :=
  let cb := BitVec.ofNat 32 (data.length + 24 - 8)
  let (_, out) := fwrite out
    (fccRtdb ++ Mem.le32 cb ++ Mem.le64 ts ++ Mem.le32 (BitVec.ofInt 32 oid) ++ Mem.le32 datatype)
  let out := if data ≠ [] then (fwrite out data).2 else out
  if data.length % 2 = 1 then (0, (fwrite out [0]).2) else (0, out)

inductive AviPut where
  | stream (stream : Int) (data : List Byte)
  | junk (data : List Byte)
  | chunk (fcc data : List Byte)
  | rtdb (ts : Timestamp) (oid : ObjId) (datatype : BitVec 32) (data : List Byte)

namespace AviPut

/-- The sizes are `int`, and `uint32_t` in a chunk's header; a chunk has data, unless it is one
of the RTDB. -/
def Valid : AviPut → Prop
  | stream nr data => 0 ≤ nr ∧ nr ≤ 10 ∧ data ≠ [] ∧ data.length < 2 ^ 31
  | junk data => data ≠ [] ∧ data.length < 2 ^ 31
  | chunk fcc data => fcc.length = 4 ∧ data ≠ [] ∧ data.length < 2 ^ 32
  | rtdb _ _ _ data => data.length < 2 ^ 31

def fcc : AviPut → List Byte
  | stream nr _ => fccStream nr.toNat
  | junk _ => fccJunk
  | chunk fcc _ => fcc
  | rtdb .. => fccRtdb

def payload : AviPut → List Byte
  | stream _ data => data
  | junk data => data
  | chunk _ data => data
  | rtdb ts oid datatype data =>
      Mem.le64 ts ++ Mem.le32 (BitVec.ofInt 32 oid) ++ Mem.le32 datatype ++ data

def cb (put : AviPut) : BitVec 32 := BitVec.ofNat 32 put.payload.length

def run : AviPut → List Byte → Int × List Byte
  | stream nr data, out => avirawFputStream nr data out
  | junk data, out => avirawFputJunk data out
  | chunk fcc data, out => avirawFputChunk fcc (BitVec.ofNat 32 data.length) data out
  | rtdb ts oid datatype data, out => avirawFputRtdb ts oid datatype data out

end AviPut

def putAll (puts : List AviPut) : List Byte := puts.foldl (fun out put => (put.run out).2) []

/-! ## Getting chunks -/

/-- `cb+pad`, as `uint32_t`. -/
def padCb (cb : BitVec 32) : BitVec 32 := cb + (if cb &&& 1 ≠ 0 then 1 else 0)

def avirawFgetChunkheader (fp : FilePtr) : Int × List Byte × BitVec 32 × FilePtr :=
  let (ret, datachunk, fp) := fp.fread 8
  (if ret ≠ 1 then -1 else 0, datachunk.take 4, (Mem.ofBytes datachunk).read32 4, fp)

/-- The answer is the length, as an `int`. -/
def avirawFgetChunkdata (cb maxsize : BitVec 32) (fp : FilePtr) : Int × List Byte × FilePtr :=
  if maxsize < cb then (-1, [], fp)
  else
    let (ret, data, fp) := fp.fread (padCb cb).toNat
    if ret ≠ 1 then (-1, data, fp) else (cb.toInt, data.take cb.toNat, fp)

def avirawFskipChunkdata (cb : BitVec 32) (fp : FilePtr) : Int × FilePtr :=
  (0, fp.fseek (padCb cb).toNat)

/-- What follows a chunk's header: its data are read into a buffer, or skipped. -/
inductive HowGot where
  | data (maxsize : BitVec 32)
  | skip
  deriving DecidableEq

/-- A chunk that was read, with its data if these were. -/
structure GotChunk where
  fcc : List Byte
  cb : BitVec 32
  data : Option (List Byte)
  deriving DecidableEq

def getChunk (how : HowGot) (fp : FilePtr) : Option (GotChunk × FilePtr) :=
  let (ret, fcc, cb, fp) := avirawFgetChunkheader fp
  if ret < 0 then none
  else
    match how with
    | .data maxsize =>
        let (size, data, fp) := avirawFgetChunkdata cb maxsize fp
        if size < 0 then none else some (⟨fcc, cb, some data⟩, fp)
    | .skip =>
        let (ret, fp) := avirawFskipChunkdata cb fp
        if ret < 0 then none else some (⟨fcc, cb, none⟩, fp)

def getAll : List HowGot → FilePtr → Option (List GotChunk × FilePtr)
  | [], fp => some ([], fp)
  | how :: hows, fp => do
      let (got, fp) ← getChunk how fp
      let (gots, fp) ← getAll hows fp
      some (got :: gots, fp)

/-! ## The round trip -/

def AviPut.got (put : AviPut) : HowGot → GotChunk
  | .data _ => ⟨put.fcc, put.cb, some put.payload⟩
  | .skip => ⟨put.fcc, put.cb, none⟩

def HowGot.Holds (cb : BitVec 32) : HowGot → Prop
  | .data maxsize => cb ≤ maxsize
  | .skip => True

/-- `aviraw_fput_chunk` of what was read. -/
def putGot (out : List Byte) (got : GotChunk) : List Byte :=
  (avirawFputChunk got.fcc got.cb (got.data.getD []) out).2

/-- The chunks that were put are got, up to the end of the file; and if the data of all of them
were read, putting them again gives the same bytes. -/
def RoundTrips (puts : List (AviPut × HowGot)) : Prop :=
  let bytes := putAll (puts.map Prod.fst)
  getAll (puts.map Prod.snd) ⟨bytes, 0⟩ =
      some (puts.map fun p => p.1.got p.2, ⟨bytes, bytes.length⟩) ∧
    ∀ gots fp, getAll (puts.map Prod.snd) ⟨bytes, 0⟩ = some (gots, fp) →
      (∀ got ∈ gots, got.data ≠ none) → gots.foldl putGot [] = bytes

/-- A chunk that is read has less than 2 GB, and one that is skipped not one byte less than 4. -/
def HowGot.Fits (cb : BitVec 32) : HowGot → Prop
  | .data _ => cb.toNat < 2 ^ 31
  | .skip => cb.toNat + 1 < 2 ^ 32

/-! ### Putting -/

/-- The three functions with the same end write a framed chunk. -/
theorem fputPadded_eq (fcc : List Byte) {data : List Byte} (hne : data ≠ [])
    (hlt : data.length < 2 ^ 32) (out : List Byte) :
    fputPadded (fcc ++ Mem.le32 (BitVec.ofNat 32 data.length)) data out =
      (0, out ++ riffBytes fcc (BitVec.ofNat 32 data.length) data) := by
  have hcb : (BitVec.ofNat 32 data.length).toNat = data.length := Nat.mod_eq_of_lt hlt
  simp only [fputPadded, fwrite, if_neg hne, ne_eq, not_true_eq_false, if_false, riffBytes, hcb,
    padding]
  split <;> simp only [List.append_assoc, List.append_nil]

namespace AviPut

variable {put : AviPut}

theorem fcc_length (h : put.Valid) : put.fcc.length = 4 := by
  cases put with
  | stream nr data => rfl
  | junk data => rfl
  | chunk fcc data => exact h.1
  | rtdb ts oid datatype data => rfl

theorem payload_lt (h : put.Valid) : put.payload.length < 2 ^ 32 := by
  cases put with
  | stream nr data => exact Nat.lt_trans h.2.2.2 (by decide)
  | junk data => exact Nat.lt_trans h.2 (by decide)
  | chunk fcc data => exact h.2.2
  | rtdb ts oid datatype data =>
      have hlt : data.length < 2 ^ 31 := h
      simp only [payload, List.length_append, Mem.length_le64, Mem.length_le32]
      omega

theorem payload_ne_nil (h : put.Valid) : put.payload ≠ [] := by
  cases put with
  | stream nr data => exact h.2.2.1
  | junk data => exact h.1
  | chunk fcc data => exact h.2.1
  | rtdb ts oid datatype data =>
      refine List.ne_nil_of_length_pos ?_
      simp only [payload, List.length_append, Mem.length_le64]
      omega

theorem toNat_cb (h : put.Valid) : put.cb.toNat = put.payload.length :=
  Nat.mod_eq_of_lt (payload_lt h)

theorem run_eq (h : put.Valid) (out : List Byte) :
    put.run out = (0, out ++ riffBytes put.fcc put.cb put.payload) := by
  have hlt := payload_lt h
  have hcb := toNat_cb h
  cases put with
  | stream nr data =>
      have hnr : ¬ (nr < 0 ∨ 10 < nr) :=
        not_or.mpr ⟨Int.not_lt.mpr h.1, Int.not_lt.mpr h.2.1⟩
      rw [run, avirawFputStream, if_neg hnr]
      exact fputPadded_eq _ h.2.2.1 hlt out
  | junk data => exact fputPadded_eq _ h.1 hlt out
  | chunk fcc data =>
      have htake : data.take (BitVec.ofNat 32 data.length).toNat = data :=
        List.take_of_length_le (Nat.le_of_eq hcb.symm)
      rw [run, avirawFputChunk, htake]
      exact fputPadded_eq _ h.2.1 hlt out
  | rtdb ts oid datatype data =>
      -- the header has 16 bytes in `cb`, which leaves the parity
      have hpayload : (rtdb ts oid datatype data).payload.length = data.length + 24 - 8 := by
        simp only [payload, List.length_append, Mem.length_le64, Mem.length_le32]
        omega
      have hpad : padding (BitVec.ofNat 32 (data.length + 24 - 8)).toNat =
          if data.length % 2 = 1 then [0] else [] := by
        rw [← hpayload, show (BitVec.ofNat 32 _).toNat = _ from hcb, hpayload, padding]
        congr 2
        omega
      have hdata (front : List Byte) :
          (if data ≠ [] then front ++ data else front) = front ++ data := by
        split
        · rfl
        · rename_i hnil
          rw [not_not.mp hnil, List.append_nil]
      simp only [run, avirawFputRtdb, fwrite, hdata, riffBytes, cb, hpayload, hpad]
      simp only [payload, fcc]
      split <;> simp only [List.append_assoc, List.append_nil]

end AviPut

def putBytes (puts : List AviPut) : List Byte :=
  puts.flatMap fun put => riffBytes put.fcc put.cb put.payload

theorem putAll_eq {puts : List AviPut} (h : ∀ put ∈ puts, put.Valid) :
    putAll puts = putBytes puts := by
  have hfold : ∀ (puts : List AviPut) (out : List Byte), (∀ put ∈ puts, put.Valid) →
      puts.foldl (fun out put => (put.run out).2) out = out ++ putBytes puts := by
    intro puts
    induction puts with
    | nil => exact fun out _ => (List.append_nil out).symm
    | cons put puts ih =>
        intro out h
        rw [List.foldl_cons, AviPut.run_eq (h put List.mem_cons_self),
          ih _ fun q hq => h q (List.mem_cons_of_mem _ hq)]
        exact List.append_assoc ..
  exact hfold puts [] h

/-! ### Getting -/

theorem length_padding (n : Nat) : (padding n).length = n % 2 := by
  unfold padding
  split
  · rename_i h
    exact h.symm
  · rename_i h
    exact (Nat.mod_two_ne_one.mp h).symm

theorem toNat_padCb (cb : BitVec 32) :
    (padCb cb).toNat = (cb.toNat + (padding cb.toNat).length) % 2 ^ 32 := by
  have hodd : cb &&& 1 ≠ 0 ↔ cb.toNat % 2 = 1 := by
    rw [ne_eq, ← BitVec.toNat_inj, BitVec.toNat_and, show (1 : BitVec 32).toNat = 1 from rfl,
      Nat.and_one_is_mod, show (0 : BitVec 32).toNat = 0 from rfl]
    omega
  simp only [padCb, hodd, BitVec.toNat_add, length_padding]
  split
  · rename_i h
    rw [h]
    rfl
  · rename_i h
    rw [Nat.mod_two_ne_one.mp h]
    rfl

theorem padCb_le (cb : BitVec 32) : (padCb cb).toNat ≤ cb.toNat + (padding cb.toNat).length :=
  toNat_padCb cb ▸ Nat.mod_le _ _

theorem padCb_eq_iff (cb : BitVec 32) :
    (padCb cb).toNat = cb.toNat + (padding cb.toNat).length ↔ cb.toNat + 1 < 2 ^ 32 := by
  have hlt := cb.isLt
  rw [toNat_padCb, length_padding]
  omega

theorem fread_append (front : List Byte) {data : List Byte} (hne : data ≠ [])
    (rest : List Byte) :
    FilePtr.fread ⟨front ++ (data ++ rest), front.length⟩ data.length =
      (1, data, ⟨front ++ (data ++ rest), (front ++ data).length⟩) := by
  have htake : ((front ++ (data ++ rest)).drop front.length).take data.length = data := by
    rw [List.drop_left' rfl, List.take_left' rfl]
  have hlen : data.length ≠ 0 := fun h => hne (List.length_eq_zero_iff.mp h)
  simp only [FilePtr.fread, htake, hlen, ne_eq, not_false_eq_true, and_self, if_true,
    List.length_append]

theorem avirawFgetChunkheader_append (front : List Byte) {fcc : List Byte}
    (hfcc : fcc.length = 4) (cb : BitVec 32) (rest : List Byte) :
    avirawFgetChunkheader ⟨front ++ (fcc ++ Mem.le32 cb ++ rest), front.length⟩ =
      (0, fcc, cb, ⟨front ++ (fcc ++ Mem.le32 cb ++ rest),
        (front ++ (fcc ++ Mem.le32 cb)).length⟩) := by
  have hlen : (fcc ++ Mem.le32 cb).length = 8 := by simp [hfcc]
  have hread := fread_append front
    (List.ne_nil_of_length_pos (Nat.lt_of_lt_of_eq (by decide) hlen.symm)) rest
  have hcb : (Mem.ofBytes (fcc ++ Mem.le32 cb)).read32 4 = cb := by
    have hright := Mem.read32_ofBytes_right fcc (Mem.le32 cb ++ []) 0
    rwa [hfcc, Mem.read32_le32, List.append_nil] at hright
  rw [hlen] at hread
  simp only [avirawFgetChunkheader, hread, List.take_left' hfcc, hcb, ne_eq, not_true_eq_false,
    if_false]

/-- A chunk is got where one was put, and the position is behind it then. -/
theorem getChunk_append {put : AviPut} {how : HowGot} (hput : put.Valid)
    (hholds : how.Holds put.cb) (hfits : how.Fits put.cb) (front rest : List Byte) :
    getChunk how ⟨front ++ (riffBytes put.fcc put.cb put.payload ++ rest), front.length⟩ =
      some (put.got how, ⟨front ++ (riffBytes put.fcc put.cb put.payload ++ rest),
        (front ++ riffBytes put.fcc put.cb put.payload).length⟩) := by
  have hcb := AviPut.toNat_cb hput
  have hpad : (padCb put.cb).toNat = (put.payload ++ padding put.cb.toNat).length := by
    have hfits' : put.cb.toNat + 1 < 2 ^ 32 := by
      cases how with
      | data maxsize => exact Nat.lt_of_le_of_lt (Nat.succ_le_of_lt hfits) (by decide)
      | skip => exact hfits
    rw [(padCb_eq_iff put.cb).mpr hfits', List.length_append, hcb]
  have hsplit : riffBytes put.fcc put.cb put.payload ++ rest =
      put.fcc ++ Mem.le32 put.cb ++ (put.payload ++ padding put.cb.toNat ++ rest) := by
    simp only [riffBytes, List.append_assoc]
  have hheader := avirawFgetChunkheader_append front (AviPut.fcc_length hput) put.cb
    (put.payload ++ padding put.cb.toNat ++ rest)
  rw [← hsplit] at hheader
  have hend : front ++ (put.fcc ++ Mem.le32 put.cb) ++ (put.payload ++ padding put.cb.toNat) =
      front ++ riffBytes put.fcc put.cb put.payload := by
    simp only [riffBytes, List.append_assoc]
  simp only [getChunk, hheader]
  rw [if_neg (by decide)]
  cases how with
  | data maxsize =>
      have hne : put.payload ++ padding put.cb.toNat ≠ [] :=
        List.append_ne_nil_of_left_ne_nil (AviPut.payload_ne_nil hput) _
      have hread := fread_append (front ++ (put.fcc ++ Mem.le32 put.cb)) hne rest
      have hmax : ¬ maxsize < put.cb := BitVec.not_lt.mpr hholds
      have htake : (put.payload ++ padding put.cb.toNat).take put.cb.toNat = put.payload :=
        List.take_left' hcb.symm
      have hint : put.cb.toInt = put.cb.toNat := BitVec.toInt_eq_toNat_of_lt (by
        have hlt : put.cb.toNat < 2 ^ 31 := hfits
        omega)
      rw [List.append_assoc front, ← hsplit, ← hpad, hend] at hread
      simp only [avirawFgetChunkdata, if_neg hmax, hread, ne_eq, not_true_eq_false, if_false, htake,
        hint]
      exact if_neg (Int.not_lt.mpr (Int.natCast_nonneg _))
  | skip =>
      simp only [avirawFskipChunkdata, FilePtr.fseek, hpad, ← List.length_append, hend]
      exact if_neg (by decide)

@[simp] theorem AviPut.got_cb (put : AviPut) (how : HowGot) : (put.got how).cb = put.cb := by
  cases how <;> rfl

theorem length_riffBytes {put : AviPut} (h : put.Valid) :
    (riffBytes put.fcc put.cb put.payload).length =
      8 + (put.cb.toNat + (padding put.cb.toNat).length) := by
  simp only [riffBytes, List.length_append, AviPut.fcc_length h, Mem.length_le32,
    AviPut.toNat_cb h]
  omega

/-- What a list of calls and the ways to get its chunks have to meet. -/
structure AviPut.Ready (p : AviPut × HowGot) : Prop where
  valid : p.1.Valid
  holds : p.2.Holds p.1.cb

theorem getAll_append : ∀ (puts : List (AviPut × HowGot)) (front : List Byte),
    (∀ p ∈ puts, AviPut.Ready p) → (∀ p ∈ puts, p.2.Fits p.1.cb) →
    getAll (puts.map Prod.snd) ⟨front ++ putBytes (puts.map Prod.fst), front.length⟩ =
      some (puts.map fun p => p.1.got p.2, ⟨front ++ putBytes (puts.map Prod.fst),
        (front ++ putBytes (puts.map Prod.fst)).length⟩)
  | [], front, _, _ => by simp [getAll, putBytes]
  | p :: puts, front, hready, hfits => by
      have hchunk := getChunk_append (hready p List.mem_cons_self).valid
        (hready p List.mem_cons_self).holds (hfits p List.mem_cons_self) front
        (putBytes (puts.map Prod.fst))
      have hrest := getAll_append puts (front ++ riffBytes p.1.fcc p.1.cb p.1.payload)
        (fun q hq => hready q (List.mem_cons_of_mem _ hq))
        (fun q hq => hfits q (List.mem_cons_of_mem _ hq))
      rw [List.append_assoc] at hrest
      simp only [List.map_cons, putBytes, List.flatMap_cons] at hchunk hrest ⊢
      rw [getAll, hchunk]
      simp only [Option.bind_eq_bind, Option.bind_some, hrest]

theorem fread_eq {fp fp' : FilePtr} {size : Nat} {data : List Byte}
    (h : fp.fread size = (1, data, fp')) : fp'.pos = fp.pos + size := by
  simp only [FilePtr.fread, Prod.mk.injEq] at h
  obtain ⟨hret, -, rfl⟩ := h
  split at hret
  · rename_i hall
    rw [hall.2]
  · cases hret

theorem avirawFgetChunkheader_pos {fp fp' : FilePtr} {ret : Int} {fcc : List Byte}
    {cb : BitVec 32} (h : avirawFgetChunkheader fp = (ret, fcc, cb, fp')) (hret : ¬ ret < 0) :
    fp'.pos = fp.pos + 8 := by
  rcases hread : fp.fread 8 with ⟨n, datachunk, fp₁⟩
  simp only [avirawFgetChunkheader, hread, Prod.mk.injEq] at h
  obtain ⟨rfl, -, -, rfl⟩ := h
  split at hret
  · exact absurd (by decide) hret
  · rename_i hn
    exact fread_eq (not_not.mp hn ▸ hread)

theorem avirawFgetChunkdata_pos {fp fp' : FilePtr} {size : Int} {data : List Byte}
    {cb maxsize : BitVec 32} (h : avirawFgetChunkdata cb maxsize fp = (size, data, fp'))
    (hsize : ¬ size < 0) :
    fp'.pos = fp.pos + (padCb cb).toNat ∧ cb.toNat < 2 ^ 31 := by
  rw [avirawFgetChunkdata] at h
  split at h
  · cases h
    exact absurd (by decide) hsize
  rcases hread : fp.fread (padCb cb).toNat with ⟨n, data₁, fp₁⟩
  simp only [hread] at h
  split at h
  · cases h
    exact absurd (by decide) hsize
  · rename_i hn
    cases h
    refine ⟨fread_eq (not_not.mp hn ▸ hread), ?_⟩
    rw [BitVec.toInt_eq_toNat_cond] at hsize
    have hlt := cb.isLt
    split at hsize <;> omega

/-- However a chunk is got, the position goes on by what its length says, with the sum of 32
bits; the data of one that is read are less than 2 GB. -/
theorem getChunk_some {how : HowGot} {fp fp' : FilePtr} {got : GotChunk}
    (h : getChunk how fp = some (got, fp')) :
    fp'.pos = fp.pos + (8 + (padCb got.cb).toNat) ∧
      ∀ maxsize, how = .data maxsize → got.cb.toNat < 2 ^ 31 := by
  rcases hheader : avirawFgetChunkheader fp with ⟨ret, fcc, cb, fp₁⟩
  simp only [getChunk, hheader] at h
  split at h
  · cases h
  rename_i hret
  have hpos := avirawFgetChunkheader_pos hheader hret
  cases how with
  | data maxsize =>
      rcases hdata : avirawFgetChunkdata cb maxsize fp₁ with ⟨size, data, fp₂⟩
      simp only [hdata] at h
      split at h
      · cases h
      · rename_i hsize
        cases h
        obtain ⟨hend, hlt⟩ := avirawFgetChunkdata_pos hdata hsize
        exact ⟨by rw [hend, hpos, Nat.add_assoc], fun _ _ => hlt⟩
  | skip =>
      simp only [avirawFskipChunkdata] at h
      cases h
      exact ⟨by rw [FilePtr.fseek, hpos, Nat.add_assoc], fun m hm => by cases hm⟩

def gotLength : List (AviPut × HowGot) → Nat
  | [] => 0
  | p :: puts => 8 + (padCb p.1.cb).toNat + gotLength puts

theorem getAll_some (puts : List (AviPut × HowGot)) (fp fp' : FilePtr)
    (h : getAll (puts.map Prod.snd) fp = some (puts.map fun p => p.1.got p.2, fp')) :
    fp'.pos = fp.pos + gotLength puts ∧
      ∀ p ∈ puts, ∀ maxsize, p.2 = .data maxsize → p.1.cb.toNat < 2 ^ 31 := by
  induction puts generalizing fp with
  | nil =>
      cases h
      exact ⟨rfl, fun p hp => absurd hp List.not_mem_nil⟩
  | cons p puts ih =>
      simp only [List.map_cons, getAll, Option.bind_eq_bind, Option.bind_eq_some_iff] at h
      obtain ⟨⟨got, fp₁⟩, hchunk, ⟨gots, fp₂⟩, hrest, heq⟩ := h
      simp only [Option.some.injEq, Prod.mk.injEq, List.cons.injEq] at heq
      obtain ⟨⟨rfl, rfl⟩, rfl⟩ := heq
      obtain ⟨hpos, hlt⟩ := getChunk_some hchunk
      obtain ⟨hpos', hlt'⟩ := ih fp₁ hrest
      rw [AviPut.got_cb] at hpos hlt
      refine ⟨?_, List.forall_mem_cons.mpr ⟨hlt, hlt'⟩⟩
      rw [hpos', hpos, gotLength, Nat.add_assoc]

theorem length_putBytes_cons (p : AviPut × HowGot) (puts : List (AviPut × HowGot))
    (h : AviPut.Ready p) :
    (putBytes ((p :: puts).map Prod.fst)).length =
      8 + (p.1.cb.toNat + (padding p.1.cb.toNat).length) +
        (putBytes (puts.map Prod.fst)).length := by
  rw [← length_riffBytes h.valid]
  exact List.length_append

theorem gotLength_le (puts : List (AviPut × HowGot)) (hready : ∀ p ∈ puts, AviPut.Ready p) :
    gotLength puts ≤ (putBytes (puts.map Prod.fst)).length := by
  induction puts with
  | nil => exact Nat.zero_le _
  | cons p puts ih =>
      have hrest := ih fun q hq => hready q (List.mem_cons_of_mem _ hq)
      have hle := padCb_le p.1.cb
      rw [length_putBytes_cons p puts (hready p List.mem_cons_self), gotLength]
      omega

/-- Where the lengths add up, none of the sums has overflowed. -/
theorem lt_of_gotLength (puts : List (AviPut × HowGot)) (hready : ∀ p ∈ puts, AviPut.Ready p)
    (h : (putBytes (puts.map Prod.fst)).length ≤ gotLength puts) :
    ∀ p ∈ puts, p.1.cb.toNat + 1 < 2 ^ 32 := by
  induction puts with
  | nil => exact fun p hp => absurd hp List.not_mem_nil
  | cons p puts ih =>
      have hready' : ∀ q ∈ puts, AviPut.Ready q := fun q hq => hready q (List.mem_cons_of_mem _ hq)
      have hrest := gotLength_le puts hready'
      have hle := padCb_le p.1.cb
      rw [length_putBytes_cons p puts (hready p List.mem_cons_self), gotLength] at h
      refine List.forall_mem_cons.mpr ⟨(padCb_eq_iff p.1.cb).mp (by omega), ?_⟩
      exact ih hready' (by omega)

theorem putGot_eq {put : AviPut} {maxsize : BitVec 32} (h : put.Valid) (out : List Byte) :
    putGot out (put.got (.data maxsize)) = out ++ riffBytes put.fcc put.cb put.payload := by
  have hlt := AviPut.payload_lt h
  have htake : put.payload.take put.cb.toNat = put.payload :=
    List.take_of_length_le (Nat.le_of_eq (AviPut.toNat_cb h).symm)
  have hput := fputPadded_eq put.fcc (AviPut.payload_ne_nil h) hlt out
  unfold AviPut.cb at htake
  simp only [putGot, AviPut.got, avirawFputChunk, Option.getD_some, AviPut.cb, htake, hput]

theorem foldl_putGot : ∀ (puts : List (AviPut × HowGot)) (out : List Byte),
    (∀ p ∈ puts, AviPut.Ready p) → (∀ p ∈ puts, (p.1.got p.2).data ≠ none) →
    (puts.map fun p => p.1.got p.2).foldl putGot out = out ++ putBytes (puts.map Prod.fst)
  | [], out, _, _ => (List.append_nil out).symm
  | (put, .skip) :: puts, out, _, hdata => absurd rfl (hdata (put, .skip) List.mem_cons_self)
  | (put, .data maxsize) :: puts, out, hready, hdata => by
      rw [List.map_cons, List.foldl_cons, putGot_eq (hready _ List.mem_cons_self).valid,
        foldl_putGot puts _ (fun q hq => hready q (List.mem_cons_of_mem _ hq))
          (fun q hq => hdata q (List.mem_cons_of_mem _ hq)), List.append_assoc]
      rfl

theorem putAll_of_ready {puts : List (AviPut × HowGot)} (hready : ∀ p ∈ puts, AviPut.Ready p) :
    putAll (puts.map Prod.fst) = putBytes (puts.map Prod.fst) := by
  refine putAll_eq fun put hput => ?_
  obtain ⟨p, hp, rfl⟩ := List.mem_map.mp hput
  exact (hready p hp).valid

theorem fits_of_roundTrips {puts : List (AviPut × HowGot)} (hready : ∀ p ∈ puts, AviPut.Ready p)
    (h : RoundTrips puts) : ∀ p ∈ puts, p.2.Fits p.1.cb := by
  obtain ⟨hgot, -⟩ := h
  rw [putAll_of_ready hready] at hgot
  obtain ⟨hpos, hdata⟩ := getAll_some puts _ _ hgot
  rintro ⟨put, how⟩ hp
  cases how with
  | data maxsize => exact hdata _ hp maxsize rfl
  | skip =>
      dsimp only at hpos
      exact lt_of_gotLength puts hready (by omega) _ hp

/-- Chunks are got back as they were put, by reading or skipping each, if and only if those that
are read have less than 2 GB of data and those that are skipped not the largest length. -/
theorem getAll_putAll_iff (puts : List (AviPut × HowGot)) (hready : ∀ p ∈ puts, AviPut.Ready p) :
    RoundTrips puts ↔ ∀ p ∈ puts, p.2.Fits p.1.cb := by
  refine ⟨fits_of_roundTrips hready, fun hfits => ?_⟩
  unfold RoundTrips
  rw [putAll_of_ready hready]
  have hgot := getAll_append puts [] hready hfits
  refine ⟨hgot, fun gots fp hrun hdata => ?_⟩
  cases hgot.symm.trans hrun
  refine foldl_putGot puts [] hready fun p hp => hdata _ ?_
  exact List.mem_map.mpr ⟨p, hp, rfl⟩

/-- A chunk of an odd length, read, and an empty one of the RTDB, skipped. -/
def mixedPuts : List (AviPut × HowGot) :=
  [(.stream 0 [1], .data 8), (.rtdb 0 0 0 [], .skip)]

theorem getAll_putAll_iff_mixed :
    RoundTrips mixedPuts ↔ ∀ p ∈ mixedPuts, p.2.Fits p.1.cb :=
  getAll_putAll_iff mixedPuts (by
    intro p hp
    rcases List.mem_cons.mp hp with rfl | hp
    · exact ⟨⟨by decide, by decide, by decide, by decide⟩,
        show AviPut.cb (.stream 0 [1]) ≤ (8 : BitVec 32) by decide⟩
    · rcases List.mem_singleton.mp hp with rfl
      exact ⟨show ([] : List Byte).length < 2 ^ 31 by decide, trivial⟩)

theorem ready_chunk (data : List Byte) (how : HowGot) (hpos : 0 < data.length)
    (hlt : data.length < 2 ^ 32) (hholds : how.Holds (AviPut.chunk fccJunk data).cb) :
    ∀ p ∈ [(AviPut.chunk fccJunk data, how)], AviPut.Ready p := by
  intro p hp
  rcases List.mem_singleton.mp hp with rfl
  exact ⟨⟨rfl, List.ne_nil_of_length_pos hpos, hlt⟩, hholds⟩

theorem exists_length (n : Nat) : ∃ data : List Byte, data.length = n :=
  ⟨List.replicate n 0, List.length_replicate⟩

/-- A chunk with 2 GB of data cannot be read, and one with the largest length not be skipped. -/
theorem exists_not_roundTrips :
    (∃ puts : List (AviPut × HowGot), (∀ p ∈ puts, AviPut.Ready p) ∧ (∀ p ∈ puts, p.2 ≠ .skip) ∧
      ¬ RoundTrips puts) ∧
    ∃ puts : List (AviPut × HowGot), (∀ p ∈ puts, AviPut.Ready p) ∧ (∀ p ∈ puts, p.2 = .skip) ∧
      ¬ RoundTrips puts := by
  constructor
  · obtain ⟨data, hlen⟩ := exists_length (2 ^ 31)
    have hready := ready_chunk data (.data (AviPut.chunk fccJunk data).cb) (by omega) (by omega)
      (BitVec.le_refl _)
    refine ⟨_, hready, List.forall_mem_singleton.mpr HowGot.noConfusion, fun h => ?_⟩
    have hlt : (AviPut.chunk fccJunk data).cb.toNat < 2 ^ 31 :=
      fits_of_roundTrips hready h _ List.mem_cons_self
    rw [AviPut.toNat_cb (hready _ List.mem_cons_self).valid] at hlt
    exact absurd hlen (Nat.ne_of_lt hlt)
  · obtain ⟨data, hlen⟩ := exists_length (2 ^ 32 - 1)
    have hready := ready_chunk data .skip (by omega) (by omega) trivial
    refine ⟨_, hready, List.forall_mem_singleton.mpr rfl, fun h => ?_⟩
    have hlt : (AviPut.chunk fccJunk data).cb.toNat + 1 < 2 ^ 32 :=
      fits_of_roundTrips hready h _ List.mem_cons_self
    rw [AviPut.toNat_cb (hready _ List.mem_cons_self).valid] at hlt
    exact absurd hlen (Nat.ne_of_lt (Nat.lt_sub_of_add_lt hlt))

end KogmoRtdb
