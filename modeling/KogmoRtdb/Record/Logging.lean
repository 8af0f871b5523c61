import KogmoRtdb.DataPath.HistSearch
import KogmoRtdb.Record.AviRaw
import KogmoRtdb.Record.Passes

/-!
# Recording with and without the log

With `-l` the recorder takes the long way through its loop also for objects that it does not
record: it reads their data, marks a read that fails in the file, and takes a deleted object
off the list of known ones. All of these leave their traces in what it records of others.

Two recorders, one with the log and one without, pass over the same events. Nothing relates
their states but that both live or both have died; the rest is the condition of the step,
`LogGuard`.
-/

namespace KogmoRtdb

/-- The same options with or without `-l`. -/
def RecOptions.withLog (opts : RecOptions) (doLog : Bool) : RecOptions :=
  { opts with doLog := doLog }

def LogTransparent [Rounding] (opts : RecOptions) (h : Handle) (rest : ObjInfo → Mem) (r : Recorder)
    (ps : List Pass) : Prop :=
  fileBytes rest (recordAll (opts.withLog true) h r ps).1 =
    fileBytes rest (recordAll (opts.withLog false) h r ps).1

def Decision.headerSize (d : Decision) : Nat := if d.streamit ≠ 0 then 48 else 24

/-- The size of a record as the first look at it states it. In the initial phase a large one
is cut. -/
def Pass.recordSize [Rounding] (h : Handle) : Pass → Option Int
  | .initial oid ts db now fuel =>
      (readdata db h oid ts Mem.zero objDataBufSize now fuel).map fun out =>
        min (sizeOf out.ret) objDataBufSize
  | .traced msg _ db _ => some (olenOf (readdataslotPtr db .unchecked 0 msg.slot).1)

/-- What the log must not change, for the recorders `rl` with it and `rn` without it. -/
structure LogGuard [Rounding] (opts : RecOptions) (h : Handle) (rl rn : Recorder) (p : Pass)
    (info : ObjInfo) : Prop where
  /-- The data of an object that is not recorded can be read. -/
  read : (decideTrace opts p.msg.oid info).traceit = false → p.msg.event = .updated →
    ∃ olen, p.readSize h = some olen ∧ p.failed olen = false
  /-- At a metadata event both have last read a record with data, or neither has. -/
  olen : (decideTrace opts p.msg.oid info).traceit = true → p.msg.event ≠ .updated →
    (0 < rl.olen ↔ 0 < rn.olen)
  /-- An object that is updated is known to both or to neither. -/
  known : (decideTrace opts p.msg.oid info).traceit = true → p.msg.event = .updated →
    (p.msg.oid ∈ rl.knownid ↔ p.msg.oid ∈ rn.knownid)
  /-- Both lists have room for it, or neither has. -/
  room : (decideTrace opts p.msg.oid info).traceit = true → p.msg.event = .updated →
    p.msg.oid ∉ rl.knownid → (rl.knownid.length < idlistMax ↔ rn.knownid.length < idlistMax)
  /-- Its record is not shorter than a header, and fits into `obj_data`. -/
  fits : (decideTrace opts p.msg.oid info).traceit = true → p.msg.event = .updated →
    ∀ olen, p.recordSize h = some olen → 0 < olen →
      ((decideTrace opts p.msg.oid info).headerSize : Int) ≤ olen ∧ olen ≤ objDataBufSize

/-- Every pass over an object meets the condition, in the states that the two recorders have
come to. -/
def LogGuarded [Rounding] (opts : RecOptions) (h : Handle) (rl rn : Recorder)
    (ps : List Pass) : Prop :=
  ∀ before p after rl' rn' info, ps = before ++ p :: after → p.info = some info →
    (recordAll (opts.withLog true) h rl before).2 = some rl' →
    (recordAll (opts.withLog false) h rn before).2 = some rn' → LogGuard opts h rl' rn' p info

variable {opts : RecOptions} {h : Handle} {rest : ObjInfo → Mem} {r rl rn rl' rn' : Recorder}
  {p : Pass}
  {ps : List Pass} {info : ObjInfo} {d : Decision} {msg : TraceMsg} {m m' : Mem}

/-! ## The bytes of an update -/

structure SameRecord (d : Decision) (m m' : Mem) : Prop where
  header : (d.headerSize : Int) ≤ (m.read32 20).toInt
  buffer : (m.read32 20).toInt ≤ objDataBufSize
  data : ∀ b : Nat, (b : Int) < (m.read32 20).toInt → m b = m' b

theorem Decision.headerSize_ge (d : Decision) : 24 ≤ d.headerSize := by
  unfold Decision.headerSize
  split <;> omega

theorem SameRecord.size (hm : SameRecord d m m') : m.read32 20 = m'.read32 20 := by
  have hge := d.headerSize_ge
  have hheader := hm.header
  exact Mem.read32_congr fun b _ h2 => hm.data b (by omega)

theorem SameRecord.bytes (hm : SameRecord d m m') {a n : Nat}
    (hn : ((a + n : Nat) : Int) ≤ (m.read32 20).toInt) : m.bytes a n = m'.bytes a n :=
  Mem.bytes_congr fun k hk => hm.data (a + k) (by omega)

/-- The record is written from the one buffer if and only if it is from the other. -/
theorem SameRecord.updateFails (hm : SameRecord d rl.objData rn.objData) :
    rl.updateFails d = rn.updateFails d := by
  have hok (offset size : Int) (hend : offset + size ≤ objDataBufSize) :
      rl.fwriteOk offset size = rn.fwriteOk offset size := by
    have hl := rl.stack.property
    have hn := rn.stack.property
    rw [Recorder.fwriteOk, Recorder.fwriteOk, decide_eq_true (Int.le_trans hend hl),
      decide_eq_true (Int.le_trans hend hn)]
  have hbuffer := hm.buffer
  unfold Recorder.updateFails
  dsimp only
  rw [← hm.size, hok 48 _ (by omega), hok 24 _ (by omega), hok 0 _ (by omega)]

/-- The rest of the record from `o` on. -/
theorem SameRecord.rest_bytes (hm : SameRecord d m m') (o : Nat) :
    m.bytes o ((m.read32 20).toInt - o).toNat = m'.bytes o ((m.read32 20).toInt - o).toNat := by
  by_cases ho : (o : Int) ≤ (m.read32 20).toInt
  · exact hm.bytes (by omega)
  · rw [Int.toNat_of_nonpos (by omega)]
    rfl

theorem chunk_bytes {ts : Timestamp} {oid : ObjId} {type : StreamType} {size : Int}
    (hb : m.bytes 0 size.toNat = m'.bytes 0 size.toNat) :
    (FileEntry.rtdb ⟨ts, oid, type, .object m size⟩).bytes rest =
      (FileEntry.rtdb ⟨ts, oid, type, .object m' size⟩).bytes rest := by
  simp only [FileEntry.bytes, ChunkData.bytes, hb]

theorem updateEntries_bytes (hm : SameRecord d m m') :
    fileBytes rest (updateEntries msg d m) = fileBytes rest (updateEntries msg d m') := by
  have hsize := hm.header
  have hheader (n : Nat) (hn : n ≤ d.headerSize) : m.bytes 0 n = m'.bytes 0 n :=
    hm.bytes (by omega)
  have hge := d.headerSize_ge
  unfold updateEntries
  rw [← hm.size]
  dsimp only
  by_cases hstream : d.streamit ≠ 0
  · have hfirst : m.bytes 0 (if d.junkit then 24 else 48 : Int).toNat =
        m'.bytes 0 (if d.junkit then 24 else 48 : Int).toNat := by
      cases hjunk : d.junkit
      · exact hheader 48 (by rw [Decision.headerSize, if_pos hstream])
      · exact hheader 24 hge
    have hdata := hm.rest_bytes 48
    simp only [if_pos hstream, fileBytes, List.flatMap_cons, List.flatMap_nil, chunk_bytes hfirst]
    simp only [FileEntry.bytes]
    exact congrArg (fun l => _ ++ (riffBytes _ _ l ++ [])) hdata
  · simp only [if_neg hstream]
    cases hjunk : d.junkit
    · have hdata := hm.rest_bytes 0
      rw [Int.natCast_zero, Int.sub_zero] at hdata
      simp only [Bool.false_eq_true, if_false, fileBytes, List.flatMap_cons, chunk_bytes hdata]
    · have hfirst : m.bytes 0 (24 : Int).toNat = m'.bytes 0 (24 : Int).toNat := hheader 24 hge
      have hdata := hm.rest_bytes 24
      simp only [if_true, fileBytes, List.flatMap_cons, List.flatMap_nil, chunk_bytes hfirst]
      simp only [FileEntry.bytes]
      exact congrArg (fun l => _ ++ (riffBytes _ _ l ++ [])) hdata

/-! ## Reading with two buffers -/

def readBuffer (src : Mem) (size : Int) (m : Mem) : Mem :=
  let avail := min (src.read32 20).toInt size
  ((m.copy 0 src 0 avail.toNat).write32 20 (BitVec.ofInt 32 avail)).write64 0 (src.read64 0)

/-- The copying end of a read changes the buffer in the same way whatever is in it. -/
theorem copyOut_eq [Rounding] (heap : Heap) (info : ObjInfo) (q : Probe) (size : Int) (m m' : Mem)
    (now : Timestamp) : copyOut heap info q size m' now =
      { ret := (copyOut heap info q size m now).ret
        buf := readBuffer (slotWindow heap info q.slot) size m' } := by
  have hmin : (if ((slotWindow heap info q.slot).read32 20).toInt ≤ size then
      ((slotWindow heap info q.slot).read32 20).toInt else size) =
        min ((slotWindow heap info q.slot).read32 20).toInt size := by
    split <;> omega
  unfold copyOut readBuffer
  simp only [hmin]
  split
  · rfl
  · split <;> rfl

theorem copyOut_ret_pos [Rounding] {heap : Heap} {info : ObjInfo} {q : Probe} {size : Int}
    {now : Timestamp} (hpos : 0 < sizeOf (copyOut heap info q size m now).ret) :
    sizeOf (copyOut heap info q size m now).ret =
      ((slotWindow heap info q.slot).read32 20).toInt := by
  unfold copyOut at hpos ⊢
  dsimp only at hpos ⊢
  split at hpos
  · exact absurd hpos (Err.not_pos _)
  · rename_i hsame
    rw [if_neg hsame]
    split at hpos
    · exact absurd hpos (Err.not_pos _)
    · rename_i hnow
      rw [if_neg hnow]
      rfl

/-- Where the buffer is filled it does not depend on what was there. -/
theorem readBuffer_inside {src : Mem} {size : Int} {b : Nat}
    (hb : (b : Int) < min (src.read32 20).toInt size) :
    readBuffer src size m b = readBuffer src size m' b := by
  simp only [readBuffer, Mem.write64, Mem.write32, Mem.copy]
  split
  · rfl
  · split
    · rfl
    · split
      · rfl
      · rw [if_pos (by omega), if_pos (by omega)]

theorem readBuffer_size {src : Mem} {size : Int} (h0 : 0 ≤ size) (hlt : size < 2 ^ 31) :
    ((readBuffer src size m).read32 20).toInt = min (src.read32 20).toInt size := by
  have h1 := BitVec.le_toInt (src.read32 20)
  rw [readBuffer, Mem.read32_congr fun b h1 _ => Mem.write64_outside (by omega),
    Mem.read32_write32, BitVec.toInt_ofInt, Int.bmod_eq_of_le (by omega) (by omega)]

/-- The slot API states the size that is in the record. -/
theorem readdataslotPtr_size {db : Db} {objslot traceSlot : ObjSlot} {objDataP olen : Int}
    (hread : readdataslotPtr db .unchecked 0 objslot = (.ok (objDataP, olen), traceSlot)) :
    olen = ((db.heap.window objDataP).read32 20).toInt := by
  unfold readdataslotPtr at hread
  dsimp only at hread
  split at hread
  · cases hread
  · split at hread
    · cases hread
    · obtain ⟨-, hr, -, -⟩ := readSlot_ok rfl hread
      cases hr
      rfl

/-- A read answers the same with two buffers, and fills them with the same record. -/
def SameRead [Rounding] (h : Handle) (p : Pass) (d : Decision) (m m' : Mem) : Prop :=
  ∀ olen m1, readUpdate h m p = some (olen, m1) → ∃ m1', readUpdate h m' p = some (olen, m1') ∧
    (0 < olen →
      (∀ size, p.recordSize h = some size → 0 < size →
        (d.headerSize : Int) ≤ size ∧ size ≤ objDataBufSize) →
      SameRecord d m1 m1')

theorem objDataBufSize_ge : 48 ≤ objDataBufSize := by decide

theorem readUpdate_same_initial [Rounding] {oid : ObjId} {ts now : Timestamp} {db : Db}
    {fuel : Nat} : SameRead h (.initial oid ts db now fuel) d m m' := by
  intro olen m1 hread
  simp only [readUpdate, readdata, readdataMode, Option.map_map] at hread ⊢
  obtain ⟨res, hres, heq⟩ := Option.map_eq_some_iff.mp hread
  rw [hres]
  cases res with
  | error e =>
      cases heq
      exact ⟨m', rfl, fun hpos => absurd hpos e.not_pos⟩
  | ok found =>
      obtain ⟨info, q⟩ := found
      simp only [Function.comp, copyOut_eq db.heap info q objDataBufSize Mem.zero m] at heq
      cases heq
      refine ⟨readBuffer (slotWindow db.heap info q.slot) objDataBufSize m', ?_, ?_⟩
      · simp only [Option.map_some, Function.comp,
          copyOut_eq db.heap info q objDataBufSize Mem.zero m']
      · intro hpos hfits
        have hge := objDataBufSize_ge
        have hret := copyOut_ret_pos hpos
        rw [hret] at hpos
        have hsize : ((readBuffer (slotWindow db.heap info q.slot) objDataBufSize m).read32
            20).toInt = min ((slotWindow db.heap info q.slot).read32 20).toInt objDataBufSize :=
          readBuffer_size (by decide) (by decide)
        obtain ⟨hheader, -⟩ := hfits (min _ objDataBufSize)
          (by simp only [Pass.recordSize, readdata, readdataMode, hres, Option.map_some]; rfl)
          (by rw [hret]; omega)
        rw [hret, ← hsize] at hheader
        refine ⟨hheader, by omega, fun b hb => readBuffer_inside (by omega)⟩

theorem readUpdate_same_traced [Rounding] {msg : TraceMsg} {freebuf : Int} {db db' : Db} :
    SameRead h (.traced msg freebuf db db') d m m' := by
  intro olen m1 hread
  simp only [readUpdate] at hread ⊢
  cases hptr : readdataslotPtr db .unchecked 0 msg.slot with
  | mk res traceSlot =>
      rw [hptr] at hread
      cases res with
      | error e =>
          cases hread
          exact ⟨m', rfl, fun hpos => absurd hpos e.not_pos⟩
      | ok found =>
          obtain ⟨objDataP, size⟩ := found
          have hsize := readdataslotPtr_size hptr
          dsimp only at hread ⊢
          split at hread
          · rename_i hpos
            rw [if_pos hpos]
            cases hread
            refine ⟨_, rfl, fun _ hfits => ?_⟩
            obtain ⟨hheader, hbuffer⟩ := hfits size (by simp [Pass.recordSize, hptr, olenOf]) hpos
            have h24 := d.headerSize_ge
            have hn : (if size < objDataBufSize then size else objDataBufSize) = size := by
              split <;> omega
            rw [hn]
            have hword : ((m.copy 0 (db.heap.window objDataP) 0 size.toNat).read32 20).toInt =
                size := by
              rw [Mem.read32_copy_inside (by omega) (by omega)]
              exact hsize.symm
            refine ⟨by omega, by omega, fun b hb => ?_⟩
            rw [hword] at hb
            rw [Mem.copy_inside (by omega) (by omega), Mem.copy_inside (by omega) (by omega)]
          · rename_i hneg
            rw [if_neg hneg]
            cases hread
            exact ⟨m', rfl, fun hpos => absurd hpos hneg⟩

theorem readUpdate_same [Rounding] (p : Pass) (d : Decision) : SameRead h p d m m' := by
  cases p with
  | initial oid ts db now fuel => exact readUpdate_same_initial
  | traced msg freebuf db db' => exact readUpdate_same_traced

/-! ## One pass -/

theorem isSome_ite {P Q : Prop} [Decidable P] [Decidable Q] (hPQ : P ↔ Q) :
    (if P then none else some rl).isSome = (if Q then none else some rn).isSome := by
  by_cases hP : P
  · rw [if_pos hP, if_pos (hPQ.mp hP)]
  · rw [if_neg hP, if_neg fun hQ => hP (hPQ.mpr hQ)]
    rfl

/-- Both have written the same bytes, and both live or both have died. -/
def SamePass (rest : ObjInfo → Mem) (out out' : List FileEntry × Option Recorder) : Prop :=
  fileBytes rest out.1 = fileBytes rest out'.1 ∧ out.2.isSome = out'.2.isSome

theorem SamePass.append {es : List FileEntry} {out out' : List FileEntry × Option Recorder}
    (hs : SamePass rest out out') : SamePass rest (es ++ out.1, out.2) (es ++ out'.1, out'.2) := by
  refine ⟨?_, hs.2⟩
  simp only [fileBytes, List.flatMap_append]
  exact congrArg _ hs.1

theorem eventEntries_bytes (hm : msg.event = .updated → SameRecord d m m') :
    fileBytes rest (eventEntries msg info d m) = fileBytes rest (eventEntries msg info d m') := by
  unfold eventEntries
  cases hevent : msg.event with
  | updated => exact updateEntries_bytes (hm hevent)
  | inserted | deleted | changed => rfl

theorem selectedEntries_bytes {ol on : Int} {isKnown : Bool} (holen : 0 < ol ↔ 0 < on)
    (hm : msg.event = .updated → 0 < ol → SameRecord d m m') :
    fileBytes rest (selectedEntries ol m msg info d isKnown) =
      fileBytes rest (selectedEntries on m' msg info d isKnown) := by
  unfold selectedEntries
  by_cases hpos : 0 < ol
  · rw [if_neg (Int.not_le.mpr hpos), if_neg (Int.not_le.mpr (holen.mp hpos))]
    simp only [fileBytes, List.flatMap_append]
    exact congrArg _ (eventEntries_bytes fun hupdated => hm hupdated hpos)
  · rw [if_pos (Int.not_lt.mp hpos), if_pos (Int.not_lt.mp fun h => hpos (holen.mpr h))]

theorem recordRest_same (htrace : d.traceit = true)
    (holen : 0 < rl.olen ↔ 0 < rn.olen)
    (hknown : msg.event = .updated → (msg.oid ∈ rl.knownid ↔ msg.oid ∈ rn.knownid))
    (hroom : msg.event = .updated → msg.oid ∉ rl.knownid →
      (rl.knownid.length < idlistMax ↔ rn.knownid.length < idlistMax))
    (hm : msg.event = .updated → 0 < rl.olen → SameRecord d rl.objData rn.objData) :
    SamePass rest (recordRest (opts.withLog true) rl msg info d)
      (recordRest (opts.withLog false) rn msg info d) := by
  have hentries (isKnown : Bool) :
      fileBytes rest (selectedEntries rl.olen rl.objData msg info d isKnown) =
        fileBytes rest (selectedEntries rn.olen rn.objData msg info d isKnown) :=
    selectedEntries_bytes holen hm
  unfold recordRest
  rw [recordEvent_selected htrace, recordEvent_selected htrace]
  by_cases hupdated : msg.event = .updated
  · have hdies : rl.Dies msg d ↔ rn.Dies msg d := by
      unfold Recorder.Dies
      rw [← holen]
      refine and_congr_right fun _ => and_congr_right fun _ => and_congr_right fun hpos => ?_
      rw [(hm hupdated hpos).updateFails]
    have hforget (doLog : Bool) (r : Recorder) : r.forget (opts.withLog doLog) msg = r :=
      if_neg fun hdel => by simp [hupdated] at hdel
    rw [if_pos hupdated, if_pos hupdated, hforget, hforget]
    have hknown := hknown hupdated
    have hroom := hroom hupdated
    unfold knownObj
    by_cases hmem : msg.oid ∈ rl.knownid
    · rw [if_pos hmem, if_pos (hknown.mp hmem)]
      exact ⟨hentries true, isSome_ite hdies⟩
    · rw [if_neg hmem, if_neg fun h => hmem (hknown.mpr h)]
      by_cases hlen : rl.knownid.length < idlistMax
      · rw [if_pos hlen, if_pos ((hroom hmem).mp hlen)]
        exact ⟨hentries false, isSome_ite hdies⟩
      · rw [if_neg hlen, if_neg fun h => hlen ((hroom hmem).mpr h)]
        exact ⟨rfl, rfl⟩
  · simp only [hupdated, if_false, Option.map_some, Recorder.Dies, false_and]
    exact ⟨hentries true, rfl⟩

/-- What is logged of an event of an object that is not recorded. -/
theorem recordRest_unselected (htrace : d.traceit = false) :
    recordRest opts r msg info d = ([], some (r.forget opts msg)) := by
  unfold recordRest
  rw [recordEvent_unselected htrace]
  simp [Recorder.Dies, htrace]

theorem recordInfo_same [Rounding] (hg : LogGuard opts h rl rn p info) :
    SamePass rest (recordInfo (opts.withLog true) h rl p info)
      (recordInfo (opts.withLog false) h rn p info) := by
  have htl : (decideTrace (opts.withLog true) p.msg.oid info).traceit =
      (decideTrace opts p.msg.oid info).traceit := rfl
  have htn : (decideTrace (opts.withLog false) p.msg.oid info).traceit =
      (decideTrace opts p.msg.oid info).traceit := rfl
  cases htrace : (decideTrace opts p.msg.oid info).traceit with
  | false =>
      rw [recordInfo_skipped (htn.trans htrace) rfl]
      by_cases hupdated : p.msg.event = .updated
      · obtain ⟨olen, hsize, hok⟩ := hg.read htrace hupdated
        rw [← readUpdate_size h rl.objData p] at hsize
        obtain ⟨⟨olen', m1⟩, hread, heq⟩ := Option.map_eq_some_iff.mp hsize
        cases heq
        rw [recordInfo_update (Or.inr rfl) hupdated hread]
        dsimp only
        rw [recordRest_unselected (htl.trans htrace), afterRead_error, hok]
        exact ⟨rfl, rfl⟩
      · rw [recordInfo_event (Or.inr rfl) hupdated, recordRest_unselected (htl.trans htrace)]
        exact ⟨rfl, rfl⟩
  | true =>
      rw [htrace] at htl htn
      by_cases hupdated : p.msg.event = .updated
      · cases hread : readUpdate h rl.objData p with
        | none =>
            have hread' : readUpdate h rn.objData p = none := by
              have hsize := readUpdate_size h rn.objData p
              rw [← readUpdate_size h rl.objData p, hread] at hsize
              exact Option.map_eq_none_iff.mp hsize
            rw [recordInfo_hangs (Or.inl htl) hupdated hread,
              recordInfo_hangs (Or.inl htn) hupdated hread']
            exact ⟨rfl, rfl⟩
        | some res =>
            obtain ⟨olen, m1⟩ := res
            have hsame : SameRead h p (decideTrace opts p.msg.oid info) rl.objData rn.objData :=
              readUpdate_same p _
            obtain ⟨m1', hread', hrec⟩ := hsame olen m1 hread
            rw [recordInfo_update (Or.inl htl) hupdated hread,
              recordInfo_update (Or.inl htn) hupdated hread']
            dsimp only
            rw [afterRead_error, afterRead_error]
            refine SamePass.append (recordRest_same htrace ?_ ?_ ?_ ?_)
            · simp only [afterRead_olen]
            · simpa only [afterRead_knownid] using hg.known htrace
            · simpa only [afterRead_knownid] using hg.room htrace
            · intro _ hpos
              rw [afterRead_olen] at hpos
              rw [afterRead_objData, afterRead_objData]
              exact hrec (by omega) (hg.fits htrace hupdated)
      · rw [recordInfo_event (Or.inl htl) hupdated, recordInfo_event (Or.inl htn) hupdated]
        exact recordRest_same htrace (hg.olen htrace hupdated)
          (fun h => absurd h hupdated) (fun h => absurd h hupdated) fun h => absurd h hupdated

theorem LogGuard.congr [Rounding] (hg : LogGuard opts h rl rn p info) (hlo : rl'.olen = rl.olen)
    (hlk : rl'.knownid = rl.knownid) (hno : rn'.olen = rn.olen) (hnk : rn'.knownid = rn.knownid) :
    LogGuard opts h rl' rn' p info where
  read := hg.read
  olen := by simpa only [hlo, hno] using hg.olen
  known := by simpa only [hlk, hnk] using hg.known
  room := by simpa only [hlk, hnk] using hg.room
  fits := hg.fits

theorem recordPass_same [Rounding]
    (hg : ∀ info, p.info = some info → LogGuard opts h rl rn p info) :
    SamePass rest (recordPass (opts.withLog true) h rl p)
      (recordPass (opts.withLog false) h rn p) := by
  unfold recordPass
  by_cases hfails : p.receiveFails = true
  · rw [if_pos hfails, if_pos hfails]
    exact ⟨rfl, rfl⟩
  rw [if_neg hfails, if_neg hfails]
  cases hinfo : p.info with
  | none => exact ⟨rfl, rfl⟩
  | some info =>
      refine SamePass.append (recordInfo_same ((hg info hinfo).congr ?_ ?_ ?_ ?_))
      all_goals split <;> rfl

/-! ## Runs -/

theorem LogGuarded.tail [Rounding] (hg : LogGuarded opts h rl rn (p :: ps))
    (hl : (recordPass (opts.withLog true) h rl p).2 = some rl')
    (hn : (recordPass (opts.withLog false) h rn p).2 = some rn') :
    LogGuarded opts h rl' rn' ps := by
  intro before q after rl2 rn2 info hps hinfo hrl hrn
  refine hg (p :: before) q after rl2 rn2 info (by rw [hps]; rfl) hinfo ?_ ?_
  · rw [recordAll_cons_some hl]
    exact hrl
  · rw [recordAll_cons_some hn]
    exact hrn

/-- The two recorders write the same file as long as the passes meet the condition. -/
theorem recordAll_same [Rounding] (hg : LogGuarded opts h rl rn ps) :
    fileBytes rest (recordAll (opts.withLog true) h rl ps).1 =
      fileBytes rest (recordAll (opts.withLog false) h rn ps).1 := by
  induction ps generalizing rl rn with
  | nil => rfl
  | cons p ps ih =>
      have hpass : SamePass rest (recordPass (opts.withLog true) h rl p)
          (recordPass (opts.withLog false) h rn p) :=
        recordPass_same fun info hinfo => hg [] p ps rl rn info rfl hinfo rfl rfl
      obtain ⟨hbytes, hrel⟩ := hpass
      cases hl : (recordPass (opts.withLog true) h rl p).2 with
      | none =>
          cases hn : (recordPass (opts.withLog false) h rn p).2 with
          | none => rwa [recordAll_cons_none hl, recordAll_cons_none hn]
          | some rn' =>
              rw [hl, hn] at hrel
              exact absurd hrel Bool.false_ne_true
      | some rl' =>
          cases hn : (recordPass (opts.withLog false) h rn p).2 with
          | none =>
              rw [hl, hn] at hrel
              exact absurd hrel.symm Bool.false_ne_true
          | some rn' =>
              rw [hl, hn] at hrel
              rw [recordAll_cons_some hl, recordAll_cons_some hn]
              simp only [fileBytes, List.flatMap_append]
              exact congrArg₂ (· ++ ·) hbytes (ih (hg.tail hl hn))

def recordedDb : Db := (writedata historyDb ⟨1, false⟩ 5 historyRecord 0x100000005).db

def updatedMsg : TraceMsg :=
  { oid := 5, ts := 0x100000005, event := .updated, objSlot := 0, histSlot := 0 }

/-- With a second object, whose record is read for the log only. -/
def loggedDb : Db :=
  (writedata
    (recordedDb.setMeta 1
      { recordedDb.objmeta 0 with oid := 6, historySlot := -1, bufferIdx := 128 })
    ⟨1, false⟩ 6 historyRecord 0x100000006).db

/-- An update of either object, and then a change of the first. -/
def loggedPasses : List Pass :=
  [.traced { oid := 6, ts := 0x100000006, event := .updated, objSlot := 1, histSlot := 0 } 10
      loggedDb loggedDb,
    .traced updatedMsg 10 loggedDb loggedDb,
    .traced { oid := 5, ts := 0x100000007, event := .changed, objSlot := 0, histSlot := -1 } 10
      loggedDb loggedDb]

end KogmoRtdb
