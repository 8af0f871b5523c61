import KogmoRtdb.Udp.Server

/-!
# The UDP client

The loop of `udpsimpleclient.c` over the objects of a reply. The client keeps a map of the objects
it has inserted into its own database, and inserts and writes as it goes.

The parse of the reply depends on these calls: where the one for an object with an odd number of
bytes fails, the byte of the padding is not skipped. `visits_iff` says exactly when all objects are
visited nevertheless.
-/

namespace KogmoRtdb.Udp

/-! ## The map of objects -/

/-- `oid_map_t`. -/
structure OidMapEntry where
  src : BitVec 32
  dest : BitVec 32
  deriving DecidableEq

abbrev OidMap := List OidMapEntry

/-- `oid_map_query`. -/
def oidMapQuery (map : OidMap) (src : BitVec 32) : BitVec 32 :=
  match map.find? fun e => e.src = src with
  | some e => e.dest
  | none => 0

/-- `oid_map_add`; `none` is an overflow. -/
def oidMapAdd (map : OidMap) (src dest : BitVec 32) : Option OidMap :=
  (map.findIdx? fun e => e.src = 0).map fun i => map.set i ⟨src, dest⟩

/-! ## The loop -/

/-- The answers of the client's own database: to the `kogmo_rtdb_obj_insert` and the
`kogmo_rtdb_obj_writedata` for the `n`-th object of the reply. -/
structure ClientCalls where
  insert : Nat → BitVec 32
  writedata : Nat → BitVec 32

/-- The object in the client's own database, inserted if it is new. `none` is the end of the
program: the map is full. -/
def localOid (insert : BitVec 32) (map : OidMap) (o : Served) : Option (BitVec 32 × OidMap) :=
  if oidMapQuery map o.info.oid ≠ 0 then some (oidMapQuery map o.info.oid, map)
  else if 0 < insert.toInt then
    (oidMapAdd map o.info.oid insert).map fun map => (insert, map)
  else some (insert, map)

/-- The loop over the objects of a reply to `req`, which has `recvlen` bytes: the objects visited,
`n` having been visited before. -/
def replyLoop (calls : ClientCalls) (req : Request) (buf : Mem) (recvlen : Nat) :
    (fuel bufpos n : Nat) → OidMap → List Served
  | 0, _, _, _ => []
  | fuel + 1, bufpos, n, map =>
      let loop := replyLoop calls req buf recvlen fuel
      if ¬ bufpos + Reply.size < recvlen then []
      else
        let rply := Reply.ofMem buf bufpos
        if buf.bytes bufpos 4 ≠ fccRtdb then []
        else if rply.reply ≠ req.request then []
        else if req.oid ≠ 0 ∧ rply.oid ≠ req.oid then []
        else
          let bufpos := bufpos + Reply.size
          if Flag rply.flags flagList then
            if bufsize ≤ bufpos + 4 * (idlistMax + 1) then []
            else loop (bufpos + 4 * (idlistMax + 1)) n map
          else if bufsize ≤ bufpos + infoSize then []
          else
            let info := WireInfo.ofMem buf bufpos
            let bufpos := bufpos + infoSize
            let size := (buf.read32 (bufpos + 20)).toInt
            let o : Served :=
              ⟨rply.oid, info,
                if Flag rply.flags flagData then some (buf.bytes bufpos size.toNat) else none⟩
            match localOid (calls.insert n) map o with
            | none => []
            | some (oid, map) =>
                if ¬ Flag rply.flags flagData then o :: loop bufpos (n + 1) map
                else if bufsize ≤ bufpos + 24 then []
                else if bufsize ≤ bufpos + size then []
                else
                  let bufpos := (bufpos + size).toNat
                  if oid.toInt < 0 then o :: loop bufpos (n + 1) map
                  else if (calls.writedata n).toInt < 0 then o :: loop bufpos (n + 1) map
                  else o :: loop (if bufpos % 2 = 1 then bufpos + 1 else bufpos) (n + 1) map

/-- The objects the client visits in a reply. A pass takes a header at least, so that `recvlen`
passes are enough. -/
def visits (calls : ClientCalls) (req : Request) (buf : Mem) (recvlen : Nat) (map : OidMap) :
    List Served :=
  replyLoop calls req buf recvlen recvlen 0 0 map

/-! ## The condition -/

/-- The data of the object, if it has any, have an even number of bytes. -/
def Served.Even (o : Served) : Prop := ∀ d ∈ o.data, d.length % 2 = 0

/-- The calls for the `n`-th object of the reply do not fail. -/
def ClientCalls.Fine (calls : ClientCalls) (n : Nat) (oid : BitVec 32) : Prop :=
  0 ≤ oid.toInt ∧ 0 ≤ (calls.writedata n).toInt

/-- The calls to the client's own database for the objects of a reply: the map takes the new ones,
and no call fails for an object with an odd number of bytes that is not the last. -/
def LocalsPass (calls : ClientCalls) : Nat → OidMap → List Served → Prop
  | _, _, [] => True
  | n, map, o :: os =>
      match localOid (calls.insert n) map o with
      | none => False
      | some (oid, map) =>
          (os = [] ∨ o.Even ∨ calls.Fine n oid) ∧ LocalsPass calls (n + 1) map os

/-- The objects of a reply, the first of them at `pos`, end before the end of the buffer. -/
def Within (req : Request) : Nat → List Served → Prop
  | _, [] => True
  | pos, o :: os =>
      let next := pos + (o.bytes req).length
      next < bufsize ∧ Within req (next + next % 2) os

instance decidableWithin (req : Request) : ∀ pos os, Decidable (Within req pos os)
  | _, [] => isTrue trivial
  | pos, o :: os =>
      have := decidableWithin req
        (pos + (o.bytes req).length + (pos + (o.bytes req).length) % 2) os
      inferInstanceAs (Decidable (_ ∧ _))

/-! ## What the server puts into a reply -/

variable {api : LocalApi} {req : Request} {stale buf : Mem} {calls : ClientCalls}
  {oids : List (BitVec 32)} {pre : List Byte} {os : List Served} {o : Served} {map : OidMap}

/-- The object, with its header at `pos`, is put into a reply to a request for metadata and
data. -/
structure Served.Fits (o : Served) (pos : Nat) : Prop where
  info : pos + Reply.size + infoSize < bufsize
  size_min : ∀ d ∈ o.data, 24 ≤ d.length
  size_eq : ∀ d ∈ o.data, ((Mem.ofBytes d).read32 20).toInt = d.length

/-- What is read for an object: a record with its size in it. -/
theorem readObject_some {oid : BitVec 32} {info : WireInfo} {d : List Byte}
    (hinfo : api.readinfo oid req.ts = .ok info) (hd : readObject api req oid info stale = some d) :
    24 ≤ d.length ∧ ((Mem.ofBytes d).read32 20).toInt = d.length := by
  unfold readObject LocalApi.readdata at hd
  split at hd
  · cases hc : api.select oid req.ts with
    | error e => rw [hc] at hd; cases hd
    | ok c =>
        have hmax := api.sizeMax_min hinfo hc
        have hmin := c.size_min
        have hsize := c.deliver_size (by omega : 0 ≤ info.sizeMax) stale
        have havail : 24 ≤ c.avail info.sizeMax := by
          unfold Commit.avail
          split <;> omega
        obtain ⟨n, hn⟩ := Int.eq_ofNat_of_zero_le (show 0 ≤ c.avail info.sizeMax by omega)
        rw [hc] at hd
        dsimp only at hd
        rw [if_pos (by omega), hsize, hn] at hd
        cases hd
        simp only [Int.toNat_natCast, Mem.length_bytes]
        refine ⟨by omega, ?_⟩
        rw [Mem.read32_ofBytes_bytes (by omega), Nat.zero_add, hsize, hn]
  · cases hd

/-- The server stops, or it goes on with an object that fits. -/
theorem serveObjects_cases (hinfo : Flag req.flags flagInfo) (api : LocalApi) (stale : Mem)
    (oids : List (BitVec 32)) (pre : List Byte) :
    serveObjects api req stale oids pre = (pre, []) ∨
      ∃ oid rest o, oids = oid :: rest ∧ o.Fits pre.length ∧
        serveObjects api req stale oids pre =
          ((serveObjects api req stale rest (padEven stale (pre ++ o.bytes req))).1,
            o :: (serveObjects api req stale rest (padEven stale (pre ++ o.bytes req))).2) := by
  cases oids with
  | nil => exact Or.inl rfl
  | cons oid rest =>
      rw [serveObjects, if_pos hinfo]
      dsimp only
      by_cases h1 : bufsize ≤ pre.length + Reply.size
      · exact Or.inl (if_pos h1)
      rw [if_neg h1]
      by_cases h2 : bufsize ≤ pre.length + Reply.size + infoSize
      · exact Or.inl (if_pos h2)
      rw [if_neg h2]
      cases hread : api.readinfo oid req.ts with
      | error e => exact Or.inl rfl
      | ok info =>
          dsimp only
          by_cases h3 : Flag req.flags flagData ∧
              (bufsize : Int) ≤ wrap32 ((pre.length + Reply.size + infoSize : Nat) + info.sizeMax)
          · exact Or.inl (if_pos h3)
          rw [if_neg h3]
          have hfits {d : List Byte} (hd : d ∈ readObject api req oid info
              fun k => stale (pre.length + Reply.size + infoSize + k)) := readObject_some hread hd
          exact Or.inr ⟨oid, rest, _, rfl,
            ⟨by omega, fun d hd => (hfits hd).1, fun d hd => (hfits hd).2⟩, rfl⟩

/-- The reply begins with what is in the buffer before. -/
theorem exists_serveObjects_append (hinfo : Flag req.flags flagInfo) (api : LocalApi)
    (stale : Mem) (oids : List (BitVec 32)) (pre : List Byte) :
    ∃ tail, (serveObjects api req stale oids pre).1 = pre ++ tail := by
  induction oids generalizing pre with
  | nil => exact ⟨[], (List.append_nil _).symm⟩
  | cons oid oids ih =>
      rcases serveObjects_cases hinfo api stale (oid :: oids) pre with
        heq | ⟨_, rest, o, hcons, -, heq⟩
      · exact ⟨[], by rw [heq, List.append_nil]⟩
      · cases hcons
        obtain ⟨tail, htail⟩ := ih (padEven stale (pre ++ o.bytes req))
        rw [heq]
        dsimp only
        rw [htail]
        unfold padEven
        split
        · exact ⟨o.bytes req ++ ([stale (pre ++ o.bytes req).length] ++ tail), by
            simp only [List.append_assoc]⟩
        · exact ⟨o.bytes req ++ tail, List.append_assoc ..⟩

/-! ## One object -/

def Served.flags (o : Served) : BitVec 16 :=
  flagInfo ||| if o.data.isSome then flagData else 0

theorem Served.not_flagList (o : Served) : ¬ Flag o.flags flagList := by
  unfold Served.flags
  split <;> decide

theorem Served.flagData_iff (o : Served) : Flag o.flags flagData ↔ o.data.isSome = true := by
  unfold Served.flags
  by_cases hsome : o.data.isSome
  · rw [if_pos hsome]
    exact iff_of_true (by decide) hsome
  · rw [if_neg hsome]
    exact iff_of_false (by decide) hsome

theorem Served.has_bytes {pos : Nat} (hinfo : Flag req.flags flagInfo)
    (hbytes : buf.Has pos (o.bytes req)) :
    buf.Has pos (req.header o.flags o.oid) ∧ buf.Has (pos + Reply.size) o.info.bytes ∧
      buf.Has (pos + Reply.size + infoSize) (o.data.getD []) := by
  unfold Served.bytes at hbytes
  rw [if_pos hinfo, if_pos hinfo] at hbytes
  obtain ⟨hleft, hdata⟩ := Mem.has_append.mp hbytes
  obtain ⟨hheader, hinfo⟩ := Mem.has_append.mp hleft
  rw [List.length_append, Request.header, Reply.length_bytes, o.info.length_eq,
    ← Nat.add_assoc] at hdata
  rw [Request.header, Reply.length_bytes] at hinfo
  exact ⟨hheader, hinfo, hdata⟩

theorem Served.length_bytes (hinfo : Flag req.flags flagInfo) :
    (o.bytes req).length = Reply.size + infoSize + (o.data.getD []).length := by
  unfold Served.bytes Request.header
  rw [if_pos hinfo, if_pos hinfo, List.length_append, List.length_append, Reply.length_bytes,
    o.info.length_eq]

theorem replyLoop_object (calls : ClientCalls) (map : OidMap) (fuel n : Nat) {pos recvlen : Nat}
    (hoid : req.oid = 0) (hinfo : Flag req.flags flagInfo) (hfits : o.Fits pos)
    (hend : pos + (o.bytes req).length < bufsize) (hbytes : buf.Has pos (o.bytes req))
    (hlen : pos + Reply.size < recvlen) :
    (localOid (calls.insert n) map o = none →
      replyLoop calls req buf recvlen (fuel + 1) pos n map = []) ∧
    ∀ oid map', localOid (calls.insert n) map o = some (oid, map') →
      ∃ pos', replyLoop calls req buf recvlen (fuel + 1) pos n map =
          o :: replyLoop calls req buf recvlen fuel pos' (n + 1) map' ∧
        (pos' = pos + (o.bytes req).length ∧
            ((pos + (o.bytes req).length) % 2 = 0 ∨ o.data = none ∨ ¬ calls.Fine n oid) ∨
          pos' = pos + (o.bytes req).length + 1 ∧
            (pos + (o.bytes req).length) % 2 = 1 ∧ o.data ≠ none ∧ calls.Fine n oid) := by
  obtain ⟨hheader, hinfoBytes, hdataBytes⟩ := Served.has_bytes hinfo hbytes
  have hrply := Reply.ofMem_of_has hheader
  have hwire := WireInfo.ofMem_of_has hinfoBytes
  have hroom := hfits.info
  have hlength := o.length_bytes hinfo
  obtain ⟨ooid, info, data⟩ := o
  rw [replyLoop]
  dsimp only at *
  rw [if_neg (fun h => h hlen), if_neg (fun h => h (Reply.fcc_of_has hheader)), hrply,
    if_neg (fun h => h rfl), if_neg (fun h => h.1 hoid), if_neg (Served.not_flagList _),
    if_neg (by omega), hwire]
  cases data with
  | none =>
      have hflag : ¬ Flag (Served.flags ⟨ooid, info, none⟩) flagData :=
        (Served.flagData_iff _).not.mpr Bool.false_ne_true
      simp only [if_neg hflag, if_pos hflag]
      rw [Option.getD_none, List.length_nil] at hlength
      refine ⟨fun hlocal => ?_, fun oid map' hlocal => ?_⟩
      · rw [hlocal]
      · rw [hlocal]
        exact ⟨_, rfl, Or.inl ⟨by omega, Or.inr (Or.inl trivial)⟩⟩
  | some d =>
      have hflag : Flag (Served.flags ⟨ooid, info, some d⟩) flagData :=
        (Served.flagData_iff _).mpr rfl
      have hmin : 24 ≤ d.length := hfits.size_min d rfl
      have hsize := hfits.size_eq d rfl
      have hread : (buf.read32 (pos + Reply.size + infoSize + 20)).toInt = d.length := by
        rw [hdataBytes.read32 (by rw [Option.getD_some]; omega)]
        exact hsize
      have hdata : buf.bytes (pos + Reply.size + infoSize) d.length = d := hdataBytes
      rw [Option.getD_some] at hlength
      have hfit : pos + Reply.size + infoSize + d.length < bufsize := by omega
      simp only [if_pos hflag, if_neg (not_not_intro hflag), hread, Int.toNat_natCast, hdata]
      refine ⟨fun hlocal => ?_, fun oid map' hlocal => ?_⟩
      · rw [hlocal]
      · rw [hlocal]
        dsimp only
        rw [if_neg (by omega), if_neg (by omega)]
        have hnext : ((pos + Reply.size + infoSize : Nat) + (d.length : Int)).toNat =
            pos + (Served.bytes req ⟨ooid, info, some d⟩).length := by omega
        simp only [hnext]
        by_cases hoid : oid.toInt < 0
        · rw [if_pos hoid]
          exact ⟨_, rfl, Or.inl ⟨rfl, Or.inr (Or.inr fun h => absurd h.1 (by omega))⟩⟩
        rw [if_neg hoid]
        by_cases hwrite : (calls.writedata n).toInt < 0
        · rw [if_pos hwrite]
          exact ⟨_, rfl, Or.inl ⟨rfl, Or.inr (Or.inr fun h => absurd h.2 (by omega))⟩⟩
        rw [if_neg hwrite]
        by_cases hodd : (pos + (Served.bytes req ⟨ooid, info, some d⟩).length) % 2 = 1
        · rw [if_pos hodd]
          exact ⟨_, rfl, Or.inr ⟨rfl, hodd, Option.some_ne_none d, by omega, by omega⟩⟩
        · rw [if_neg hodd]
          exact ⟨_, rfl, Or.inl ⟨rfl, Or.inl (by omega)⟩⟩

/-! ## All objects -/

variable {oids : List (BitVec 32)} {reply : List Byte} {fuel n : Nat}

theorem serveObjects_nil (hinfo : Flag req.flags flagInfo)
    (h : serveObjects api req stale oids pre = (reply, [])) : reply = pre := by
  rcases serveObjects_cases hinfo api stale oids pre with heq | ⟨_, rest, o, -, -, heq⟩
  · exact (Prod.mk.inj (h.symm.trans heq)).1
  · cases (Prod.mk.inj (h.symm.trans heq)).2

/-- The first object of a reply, and the rest behind it. -/
theorem serveObjects_cons (hinfo : Flag req.flags flagInfo)
    (h : serveObjects api req stale oids pre = (reply, o :: os)) :
    o.Fits pre.length ∧
      (∃ rest, serveObjects api req stale rest (padEven stale (pre ++ o.bytes req)) =
        (reply, os)) ∧
      ∃ tail, reply = padEven stale (pre ++ o.bytes req) ++ tail := by
  rcases serveObjects_cases hinfo api stale oids pre with
    heq | ⟨_, rest, o', -, hfits, heq⟩
  · cases (Prod.mk.inj (h.symm.trans heq)).2
  · obtain ⟨hreply, hos⟩ := Prod.mk.inj (h.symm.trans heq)
    obtain ⟨rfl, hos⟩ := List.cons.inj hos
    refine ⟨hfits, ⟨rest, Prod.ext hreply.symm hos.symm⟩, ?_⟩
    rw [hreply]
    exact exists_serveObjects_append hinfo api stale rest _

theorem length_padEven (stale : Mem) (l : List Byte) :
    (padEven stale l).length = l.length + l.length % 2 := by
  unfold padEven
  split
  · rw [List.length_append, List.length_singleton]
    omega
  · omega

theorem exists_padEven (stale : Mem) (l : List Byte) : ∃ pad, padEven stale l = l ++ pad := by
  unfold padEven
  split
  · exact ⟨_, rfl⟩
  · exact ⟨[], (List.append_nil l).symm⟩

/-- The first object of a reply lies behind what was in the buffer. -/
theorem has_serveObjects (hinfo : Flag req.flags flagInfo)
    (h : serveObjects api req stale oids pre = (reply, o :: os)) (hbuf : buf.Has 0 reply) :
    buf.Has pre.length (o.bytes req) := by
  obtain ⟨-, -, tail, htail⟩ := serveObjects_cons hinfo h
  obtain ⟨pad, hpad⟩ := exists_padEven stale (pre ++ o.bytes req)
  rw [htail, hpad, List.append_assoc, List.append_assoc] at hbuf
  have hrest := (Mem.has_append.mp hbuf).2
  rw [Nat.zero_add] at hrest
  exact (Mem.has_append.mp hrest).1

theorem replyLoop_end {pos recvlen : Nat} (h : recvlen ≤ pos + Reply.size) :
    replyLoop calls req buf recvlen fuel pos n map = [] := by
  cases fuel with
  | zero => rfl
  | succ fuel =>
      rw [replyLoop]
      dsimp only
      rw [if_pos (by omega)]

theorem replyLoop_misaligned {pos recvlen : Nat} (hbytes : buf.Has (pos + 1) (o.bytes req)) :
    replyLoop calls req buf recvlen fuel pos n map = [] := by
  cases fuel with
  | zero => rfl
  | succ fuel =>
      have hfcc : buf.bytes (pos + 1) 4 = fccRtdb := by
        unfold Served.bytes at hbytes
        exact Reply.fcc_of_has (Mem.has_append.mp (Mem.has_append.mp hbytes).1).1
      have hne : buf.bytes pos 4 ≠ fccRtdb := by
        intro h
        -- the second character would be the first one
        have h1 := congrArg (fun l => l.getD 0 0) hfcc
        have h2 := congrArg (fun l => l.getD 1 0) h
        exact absurd (h1.symm.trans h2) (by decide)
      rw [replyLoop]
      dsimp only
      rw [if_pos hne, ite_self]

/-- Where the client misses the byte of a padding, it does not find the objects behind it. -/
theorem replyLoop_shifted {pos : Nat} (hinfo : Flag req.flags flagInfo)
    (h : serveObjects api req stale oids pre = (reply, os)) (hpos : pre.length = pos + 1)
    (hbuf : buf.Has 0 reply) :
    replyLoop calls req buf reply.length fuel pos n map = os ↔ os = [] := by
  cases os with
  | nil =>
      have hreply := serveObjects_nil hinfo h
      exact iff_of_true (replyLoop_end (by rw [hreply, hpos, Reply.size]; omega)) rfl
  | cons o os =>
      have hbytes := has_serveObjects hinfo h hbuf
      rw [hpos] at hbytes
      rw [replyLoop_misaligned hbytes]
      exact iff_of_false (List.cons_ne_nil o os).symm (List.cons_ne_nil o os)

/-- All objects are visited exactly when the calls for them allow it. -/
theorem replyLoop_objects (hoid : req.oid = 0) (hinfo : Flag req.flags flagInfo)
    (h : serveObjects api req stale oids pre = (reply, os)) (heven : pre.length % 2 = 0)
    (hwithin : Within req pre.length os)
    (hbuf : buf.Has 0 reply) (hfuel : reply.length ≤ pre.length + fuel) :
    replyLoop calls req buf reply.length fuel pre.length n map = os ↔
      LocalsPass calls n map os := by
  induction os generalizing oids pre fuel n map with
  | nil =>
      have hreply := serveObjects_nil hinfo h
      exact iff_of_true (replyLoop_end (by rw [hreply]; omega)) trivial
  | cons o os ih =>
      obtain ⟨hfits, ⟨rest, hrest⟩, tail, htail⟩ := serveObjects_cons hinfo h
      have hbytes := has_serveObjects hinfo h hbuf
      have hlength := o.length_bytes hinfo
      have hpad := length_padEven stale (pre ++ o.bytes req)
      have hreply := congrArg List.length htail
      rw [List.length_append] at hpad hreply
      have hevenData : o.Even ↔ (o.data.getD []).length % 2 = 0 := by
        unfold Served.Even
        cases o.data with
        | none => simp
        | some d => simp
      simp only [Reply.size, infoSize] at hlength
      cases fuel with
      | zero => omega
      | succ fuel =>
          have hpass := replyLoop_object calls map fuel n hoid hinfo hfits hwithin.1 hbytes
            (show pre.length + Reply.size < reply.length by simp only [Reply.size]; omega)
          rw [LocalsPass]
          cases hlocal : localOid (calls.insert n) map o with
          | none =>
              rw [hpass.1 hlocal]
              exact iff_of_false (List.cons_ne_nil o os).symm id
          | some entry =>
              obtain ⟨oid, map'⟩ := entry
              obtain ⟨pos', hloop, hpos⟩ := hpass.2 oid map' hlocal
              have hpadEven : (padEven stale (pre ++ o.bytes req)).length % 2 = 0 := by omega
              have hrec : replyLoop calls req buf reply.length fuel
                  (padEven stale (pre ++ o.bytes req)).length (n + 1) map' = os ↔
                    LocalsPass calls (n + 1) map' os := by
                refine ih hrest hpadEven ?_ (by omega)
                rw [hpad, ← List.length_append, List.length_append]
                exact hwithin.2
              rw [hloop, List.cons_inj_right]
              dsimp only
              by_cases hodd : (o.data.getD []).length % 2 = 0
              · -- there is no padding
                have hlen : pos' = (padEven stale (pre ++ o.bytes req)).length := by omega
                rw [hlen, hrec]
                exact (and_iff_right (Or.inr (Or.inl (hevenData.mpr hodd)))).symm
              have hsome : o.data ≠ none := fun hnone => hodd (by rw [hnone]; rfl)
              by_cases hfine : calls.Fine n oid
              · -- the byte of the padding is skipped
                have hlen : pos' = (padEven stale (pre ++ o.bytes req)).length := by
                  rcases hpos with ⟨-, h | h | h⟩ | ⟨h, -⟩
                  · omega
                  · exact absurd h hsome
                  · exact absurd hfine h
                  · omega
                rw [hlen, hrec]
                exact (and_iff_right (Or.inr (Or.inr hfine))).symm
              · have hlen : (padEven stale (pre ++ o.bytes req)).length = pos' + 1 := by
                  rcases hpos with ⟨h, -⟩ | ⟨-, -, -, h⟩
                  · omega
                  · exact absurd h hfine
                have hguard : (os = [] ∨ o.Even ∨ calls.Fine n oid) ↔ os = [] :=
                  ⟨fun h => h.resolve_right (by rw [hevenData]; exact not_or.mpr ⟨hodd, hfine⟩),
                    Or.inl⟩
                rw [replyLoop_shifted hinfo hrest hlen hbuf, hguard]
                exact ⟨fun hnil => ⟨hnil, by rw [hnil]; trivial⟩, And.left⟩

/-! ## The reply -/

def listPart (req : Request) (idlist : Nat → BitVec 32) (listoids : BitVec 32) : List Byte :=
  req.header flagList listoids ++ listBytes idlist listoids

theorem length_listPart (req : Request) (idlist : Nat → BitVec 32) (listoids : BitVec 32) :
    (listPart req idlist listoids).length = Reply.size + 4 * (idlistMax + 1) := by
  unfold listPart Request.header listBytes
  rw [List.length_append, Reply.length_bytes, List.length_flatMap]
  simp only [Mem.length_le32, List.map_const', List.length_range, List.sum_replicate_nat]
  omega

theorem visits_list {idlist : Nat → BitVec 32} {listoids : BitVec 32} {tail : List Byte}
    (hoid : req.oid = 0) (hreply : reply = listPart req idlist listoids ++ tail)
    (hbuf : buf.Has 0 reply) :
    visits calls req buf reply.length map =
      replyLoop calls req buf reply.length (reply.length - 1)
        (listPart req idlist listoids).length 0 map := by
  have hlen := length_listPart req idlist listoids
  have hreplyLen := congrArg List.length hreply
  rw [List.length_append, hlen, Reply.size] at hreplyLen
  have hheader : buf.Has 0 (req.header flagList listoids) := by
    rw [hreply, listPart, List.append_assoc] at hbuf
    exact (Mem.has_append.mp hbuf).1
  have hrply := Reply.ofMem_of_has hheader
  have hroom : ¬ bufsize ≤ 0 + Reply.size + 4 * (idlistMax + 1) := by
    rw [idlistMax]
    decide
  have hflag : Flag flagList flagList := by decide
  obtain ⟨recvlen, hrecvlen⟩ : ∃ k, reply.length = k + 1 := ⟨reply.length - 1, by omega⟩
  rw [visits, hrecvlen, replyLoop]
  dsimp only
  rw [if_neg (by simp only [Reply.size]; omega),
    if_neg (fun h => h (Reply.fcc_of_has hheader)), hrply, if_neg (fun h => h rfl),
    if_neg (fun h => h.1 hoid), if_pos hflag, if_neg hroom, Nat.zero_add, hlen,
    Nat.add_sub_cancel]

theorem visits_served {idlist : Nat → BitVec 32} {listoids : BitVec 32}
    (hoid : req.oid = 0) (hinfo : Flag req.flags flagInfo)
    (h : serveObjects api req stale oids (listPart req idlist listoids) = (reply, os))
    (hwithin : Within req (Reply.size + 4 * (idlistMax + 1)) os) (hbuf : buf.Has 0 reply) :
    visits calls req buf reply.length map = os ↔ LocalsPass calls 0 map os := by
  have hlen := length_listPart req idlist listoids
  have htail := exists_serveObjects_append hinfo api stale oids
    (listPart req idlist listoids)
  rw [h] at htail
  obtain ⟨tail, htail⟩ := htail
  rw [visits_list hoid htail hbuf]
  rw [← hlen] at hwithin
  rw [idlistMax] at hlen
  exact replyLoop_objects hoid hinfo h (by rw [hlen]; rfl) hwithin hbuf (by omega)

def requestAll : Request :=
  ⟨protocolVersion, 1, flagInfo ||| flagData ||| flagList, 0, 0, [], 0, 0, 0, 0,
    fun _ => 0, 0⟩

def replyTwo : List Byte × List Served :=
  serveObjects twoObjects requestAll (fun _ => 0) [1, 2]
    (listPart requestAll (requestAll.objects twoObjects).1 2)

theorem serve_twoObjects : serve twoObjects (fun _ => 0) requestAll = some replyTwo := rfl

theorem replyTwo_objects :
    replyTwo.2.map (fun o => (o.info.oid, o.data.map List.length)) =
      [(1, some 25), (2, some 26)] := by
  decide +kernel

theorem replyTwo_within : Within requestAll (Reply.size + 4 * (idlistMax + 1)) replyTwo.2 := by
  decide +kernel

end KogmoRtdb.Udp
