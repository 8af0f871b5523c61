import KogmoRtdb.Record.Logging
import KogmoRtdb.Record.PlayFile

/-!
# Recording and playing

What the recorder writes is played once from the start, without filters, into a database with room
for all objects. `playsBack_iff` says when each recorded update is written again, with its size and
its data. The player has nothing for a raw chunk, and an update that is recorded behind the
deletion of its object comes too late.
-/

namespace KogmoRtdb

/-! ## The updates of a recording -/

/-- The update that a pass records: what is to be done with it and the record that was read. -/
def Pass.update [Rounding] (opts : RecOptions) (h : Handle) (r : Recorder) (p : Pass) :
    Option (Decision × Mem) :=
  match p.info with
  | none => none
  | some info =>
      let d := decideTrace opts p.msg.oid info
      if d.traceit = true ∧ p.msg.event = .updated then
        match readUpdate h r.objData p with
        | none => none
        | some (olen, objData) => if 0 < olen then some (d, objData) else none
      else none

/-- `obj_data.base.size`. -/
def baseSize (objData : Mem) : Int := (objData.read32 20).toInt

def updateRecord (p : Pass) (objData : Mem) : ObjId × BitVec 32 × List Byte :=
  (p.msg.oid, recordOf (objData.bytes 0 (baseSize objData).toNat))

def recordedUpdates [Rounding] (opts : RecOptions) (h : Handle) :
    Recorder → List Pass → List (ObjId × BitVec 32 × List Byte)
  | _, [] => []
  | r, p :: ps =>
      (p.update opts h r).toList.map (fun (_, objData) => updateRecord p objData) ++
        match (recordPass opts h r p).2 with
        | none => []
        | some r' => recordedUpdates opts h r' ps

/-- The file is played to its end, with `answers` from the database. -/
def PlaysBack [Rounding] (opts : RecOptions) (h : Handle) (rest : ObjInfo → Mem)
    (float : BitVec 32 → ℚ) (playeroid : ObjId) (answers : Nat → PlayAnswer) (r : Recorder)
    (ps : List Pass) : Prop :=
  let file := fileBytes rest (recordAll opts h r ps).1
  playUpdates playeroid answers (readChunks float file.length file) (playInit {} none) =
    recordedUpdates opts h r ps

/-! ## What is assumed -/

/-- The record fits into the buffers, and leaves something for the second chunk. -/
structure Decision.SizeFits (d : Decision) (objData : Mem) : Prop where
  base : 24 ≤ baseSize objData
  buffer : baseSize objData ≤ objDataBufSize
  stream : d.streamit ≠ 0 → 48 < baseSize objData
  junk : d.junkit = true → 24 < baseSize objData

def SizesFit [Rounding] (opts : RecOptions) (h : Handle) : Recorder → List Pass → Prop
  | _, [] => True
  | r, p :: ps =>
      (∀ d objData, p.update opts h r = some (d, objData) → d.SizeFits objData) ∧
        ∀ r', (recordPass opts h r p).2 = some r' → SizesFit opts h r' ps

/-- The passes are over some of the objects `oids`. -/
def PassesOver (oids : List ObjId) (ps : List Pass) : Prop :=
  ∀ p ∈ ps, p.msg.oid ∈ oids ∧ p.msg.oid ≠ 0 ∧ FitsInt p.msg.oid

/-! ## What is played again -/

/-- No recorded update is raw, and each has its object's metadata before it with no deletion in
between. -/
def UpdatesPlayed [Rounding] (opts : RecOptions) (h : Handle) :
    Recorder → (ObjId → Bool) → List Pass → Prop
  | _, _, [] => True
  | r, present, p :: ps =>
      let present' := (recordPass opts h r p).1.foldl presentAfter present
      (∀ d objData, p.update opts h r = some (d, objData) →
          d.junkit = false ∧ present' p.msg.oid = true) ∧
        ∀ r', (recordPass opts h r p).2 = some r' → UpdatesPlayed opts h r' present' ps

variable {opts : RecOptions} {h : Handle} {r r' : Recorder} {p : Pass} {ps : List Pass}
  {info : ObjInfo} {d : Decision} {objData : Mem} {olen : Int} {msg : TraceMsg}

/-! ## What a pass writes -/

theorem Pass.info_oid (h : p.info = some info) : info.oid = p.msg.oid := by
  have hat {db : Db} {oid : ObjId} {ts : Timestamp} (h : infoAt db oid ts = some info) :
      info.oid = oid := by
    unfold infoAt at h
    split at h
    · cases h
    · rename_i i hfind
      split at h
      · cases h
      · cases h
        exact (Db.findmetaById_some hfind).2
  cases p with
  | initial oid ts db now fuel => exact hat h
  | traced msg freebuf db db' => exact hat h

/-- The entries for a selected event are metadata, and for an update with data its chunks. -/
theorem selectedEntries_eq (hinfo : info.oid = msg.oid) (olen : Int) (isKnown : Bool) :
    ∃ aux, (∀ e ∈ aux, e.IsAux msg.oid) ∧
      selectedEntries olen objData msg info d isKnown =
        aux ++ if msg.event = .updated ∧ 0 < olen then updateEntries msg d objData else [] := by
  have hmeta (type : StreamType) (h1 : type ≠ .updobj) (h2 : type ≠ .updobjNext)
      (h3 : type ≠ .error) : FileEntry.IsAux msg.oid (.rtdb ⟨msg.ts, msg.oid, type, .info info⟩) :=
    .info msg.ts type info h1 h2 h3 hinfo
  have hrfr : ∀ e ∈ (if isKnown then [] else
      [.rtdb ⟨msg.ts, msg.oid, .rfrobj, .info info⟩] : List FileEntry), e.IsAux msg.oid := by
    split
    · exact fun e he => absurd he List.not_mem_nil
    · exact List.forall_mem_singleton.mpr (hmeta .rfrobj (by decide) (by decide) (by decide))
  -- the metadata of an event that is no update
  have hother (type : StreamType) (h1 : type ≠ .updobj) (h2 : type ≠ .updobjNext)
      (h3 : type ≠ .error) (hne : msg.event ≠ .updated)
      (heq : eventEntries msg info d objData =
        [.rtdb ⟨msg.ts, msg.oid, type, .info info⟩]) :
      ∃ aux, (∀ e ∈ aux, e.IsAux msg.oid) ∧ selectedEntries olen objData msg info d isKnown =
        aux ++ if msg.event = .updated ∧ 0 < olen then updateEntries msg d objData else [] := by
    rw [if_neg fun hupd => hne hupd.1, selectedEntries, heq]
    refine ⟨_, List.forall_mem_append.mpr ⟨hrfr, ?_⟩, (List.append_nil _).symm⟩
    split
    · exact fun e he => absurd he List.not_mem_nil
    · exact List.forall_mem_singleton.mpr (hmeta type h1 h2 h3)
  cases hevent : msg.event with
  | inserted =>
      rw [← hevent]
      exact hother .addobj (by decide) (by decide) (by decide) (by rw [hevent]; decide)
        (by simp only [eventEntries, hevent])
  | changed =>
      rw [← hevent]
      exact hother .chgobj (by decide) (by decide) (by decide) (by rw [hevent]; decide)
        (by simp only [eventEntries, hevent])
  | deleted =>
      rw [← hevent]
      exact hother .delobj (by decide) (by decide) (by decide) (by rw [hevent]; decide)
        (by simp only [eventEntries, hevent])
  | updated =>
      refine ⟨_, hrfr, ?_⟩
      simp only [selectedEntries, eventEntries, hevent, true_and]
      congr 1
      by_cases holen : 0 < olen
      · rw [if_pos holen, if_neg (Int.not_le.mpr holen)]
      · rw [if_neg holen, if_pos (Int.not_lt.mp holen)]

theorem recordRest_written (hinfo : info.oid = msg.oid)
    (hr : (recordRest opts r msg info d).2 = some r') :
    ∃ aux, (∀ e ∈ aux, e.IsAux msg.oid) ∧ (recordRest opts r msg info d).1 =
      aux ++ if d.traceit = true ∧ msg.event = .updated ∧ 0 < r.olen then
        updateEntries msg d r.objData else [] := by
  cases hevent : recordEvent opts r msg info d with
  | none =>
      rw [recordRest, hevent] at hr
      cases hr
  | some out =>
      obtain ⟨r₁, written⟩ := out
      have hwritten : (recordRest opts r msg info d).1 = written := by rw [recordRest, hevent]
      rw [hwritten]
      cases hd : d.traceit with
      | false =>
          rw [recordEvent_unselected hd] at hevent
          cases hevent
          exact ⟨[], fun e he => absurd he List.not_mem_nil, rfl⟩
      | true =>
          rw [recordEvent_selected hd] at hevent
          obtain ⟨⟨isKnown, knownid⟩, -, heq⟩ := Option.map_eq_some_iff.mp hevent
          cases heq
          simpa only [true_and] using selectedEntries_eq hinfo r.olen isKnown

def Pass.updateChunks [Rounding] (opts : RecOptions) (h : Handle) (r : Recorder) (p : Pass) :
    List FileEntry :=
  match p.update opts h r with
  | none => []
  | some (d, objData) => updateEntries p.msg d objData

theorem Pass.update_eq [Rounding] (hinfo : p.info = some info)
    (hread : p.msg.event = .updated → readUpdate h r.objData p = some (olen, objData)) :
    p.update opts h r =
      if (decideTrace opts p.msg.oid info).traceit = true ∧ p.msg.event = .updated ∧ 0 < olen then
        some (decideTrace opts p.msg.oid info, objData) else none := by
  rw [update, hinfo]
  dsimp only
  by_cases hsel : (decideTrace opts p.msg.oid info).traceit = true ∧ p.msg.event = .updated
  · rw [if_pos hsel, hread hsel.2]
    dsimp only
    by_cases hpos : 0 < olen
    · rw [if_pos hpos, if_pos ⟨hsel.1, hsel.2, hpos⟩]
    · rw [if_neg hpos, if_neg fun h => hpos h.2.2]
  · rw [if_neg hsel, if_neg fun h => hsel ⟨h.1, h.2.1⟩]

theorem Pass.updateChunks_eq [Rounding] (hinfo : p.info = some info)
    (hread : p.msg.event = .updated → readUpdate h r.objData p = some (olen, objData)) :
    p.updateChunks opts h r =
      if (decideTrace opts p.msg.oid info).traceit = true ∧ p.msg.event = .updated ∧ 0 < olen then
        updateEntries p.msg (decideTrace opts p.msg.oid info) objData else [] := by
  rw [updateChunks, update_eq hinfo hread]
  by_cases hsel : (decideTrace opts p.msg.oid info).traceit = true ∧ p.msg.event = .updated ∧
    0 < olen
  · rw [if_pos hsel, if_pos hsel]
  · rw [if_neg hsel, if_neg hsel]

theorem isAux_lost (p : Pass) (o : ObjId) : ∀ e ∈ p.lost, e.IsAux o := by
  intro e he
  cases p with
  | initial oid ts db now fuel => exact absurd he List.not_mem_nil
  | traced msg freebuf db db' =>
      rw [Pass.lost] at he
      split at he
      · rw [List.mem_singleton.mp he]
        exact .error _ _ ⟨by decide, by decide⟩
      · exact absurd he List.not_mem_nil

theorem recordInfo_written [Rounding] (hinfo : p.info = some info) (hint : FitsInt p.msg.oid)
    (hr : (recordInfo opts h r p info).2 = some r') :
    ∃ aux, (∀ e ∈ aux, e.IsAux p.msg.oid) ∧ (recordInfo opts h r p info).1 =
      aux ++ p.updateChunks opts h r := by
  have hoid := Pass.info_oid hinfo
  by_cases hskip : (decideTrace opts p.msg.oid info).traceit = false ∧ opts.doLog = false
  · rw [recordInfo_skipped hskip.1 hskip.2, Pass.updateChunks, Pass.update, hinfo]
    dsimp only
    rw [if_neg fun hsel => by rw [hskip.1] at hsel; exact Bool.false_ne_true hsel.1]
    exact ⟨[], fun e he => absurd he List.not_mem_nil, rfl⟩
  have hd : (decideTrace opts p.msg.oid info).traceit = true ∨ opts.doLog = true := by
    simpa only [not_and_or, Bool.not_eq_false] using hskip
  by_cases hupd : p.msg.event = .updated
  · cases hread : readUpdate h r.objData p with
    | none =>
        rw [recordInfo_hangs hd hupd hread] at hr
        cases hr
    | some out =>
        obtain ⟨olen, objData⟩ := out
        rw [recordInfo_update hd hupd hread] at hr ⊢
        have holen := afterRead_olen { r with eventsTotal := r.eventsTotal + 1 } p olen objData
        have hdata := afterRead_objData { r with eventsTotal := r.eventsTotal + 1 } p olen objData
        have herror := afterRead_error { r with eventsTotal := r.eventsTotal + 1 } p olen objData
        rcases hafter : afterRead { r with eventsTotal := r.eventsTotal + 1 } p olen objData with
          ⟨r₁, error⟩
        rw [hafter] at holen hdata herror
        simp only [hafter] at hr ⊢
        obtain ⟨aux, haux, hwritten⟩ := recordRest_written hoid hr
        have hpos : 0 < r₁.olen ↔ 0 < olen := by
          dsimp only at holen
          omega
        refine ⟨error ++ aux, List.forall_mem_append.mpr ⟨?_, haux⟩, ?_⟩
        · dsimp only at herror
          rw [herror]
          split
          · exact List.forall_mem_singleton.mpr (.error _ _ hint)
          · exact fun e he => absurd he List.not_mem_nil
        · dsimp only at hdata
          rw [hwritten, Pass.updateChunks_eq hinfo fun _ => hread, hdata, List.append_assoc]
          simp only [hpos]
  · rw [recordInfo_event hd hupd] at hr ⊢
    obtain ⟨aux, haux, hwritten⟩ := recordRest_written hoid hr
    have hnone : p.updateChunks opts h r =
        if (decideTrace opts p.msg.oid info).traceit = true ∧ p.msg.event = .updated ∧
            0 < (0 : Int) then
          updateEntries p.msg (decideTrace opts p.msg.oid info) Mem.zero else [] :=
      Pass.updateChunks_eq hinfo fun h => absurd h hupd
    refine ⟨aux, haux, ?_⟩
    rw [hwritten, hnone, if_neg fun h => hupd h.2.1, if_neg fun h => hupd h.2.1]

/-- A pass writes metadata and errors, and then the chunks of its update. -/
theorem recordPass_written [Rounding] (hint : FitsInt p.msg.oid)
    (hr : (recordPass opts h r p).2 = some r') :
    ∃ aux, (∀ e ∈ aux, e.IsAux p.msg.oid) ∧ (recordPass opts h r p).1 =
      aux ++ p.updateChunks opts h r := by
  have hlost := isAux_lost p p.msg.oid
  rw [recordPass] at hr ⊢
  split at hr
  · cases hr
  rename_i hfails
  rw [if_neg hfails]
  have hdata : (if p.lost = [] then r else { r with lostMessages := r.lostMessages + 1 }).objData =
      r.objData := by split <;> rfl
  dsimp only at hr ⊢
  generalize (if p.lost = [] then r else _) = r₀ at hr hdata ⊢
  cases hinfo : p.info with
  | none =>
      refine ⟨p.lost ++ [errorEntry p.msg.ts p.msg.oid],
        List.forall_mem_append.mpr ⟨hlost, List.forall_mem_singleton.mpr (.error _ _ hint)⟩, ?_⟩
      rw [Pass.updateChunks, Pass.update, hinfo]
      exact (List.append_nil _).symm
  | some info =>
      rw [hinfo] at hr
      obtain ⟨aux, haux, hwritten⟩ := recordInfo_written hinfo hint hr
      have hchunks : p.updateChunks opts h r₀ = p.updateChunks opts h r := by
        rw [Pass.updateChunks, Pass.updateChunks, Pass.update, Pass.update, hdata]
      refine ⟨p.lost ++ aux, List.forall_mem_append.mpr ⟨hlost, haux⟩, ?_⟩
      rw [List.append_assoc, ← hchunks, ← hwritten]

/-! ## What is played of a pass -/

variable {rest : ObjInfo → Mem} {float : BitVec 32 → ℚ} {oids : List ObjId}
  {present : ObjId → Bool} {s : Player} {playeroid : ObjId} {answers : Nat → PlayAnswer}
  {chunks : List PlayChunk}

/-- An object's record is longer than one without the bytes behind its base. -/
theorem record_ne {o o' : ObjId} {data data' : List Byte} (h : data.length < data'.length)
    (hlen : 24 ≤ data.length) : ((o, recordOf data) : ObjId × _) ≠ (o', recordOf data') := by
  intro heq
  have hdrop : data.drop 24 = data'.drop 24 := congrArg (fun x => x.2.2) heq
  have hlength := congrArg List.length hdrop
  rw [List.length_drop, List.length_drop] at hlength
  omega

/-- A header and a frame write the frame as the object of the header if that is played, and else
perhaps as another one. -/
theorem Playing.headerFrame (hplaying : Playing oids present s) {o : ObjId} (ho : o ≠ 0)
    (hint : FitsInt o) {n size : Int} (hn : n ≤ preBufMax) {nr : Nat} (hnr : nr < nstreams)
    (ts : Timestamp) (objData : Mem) :
    ∃ writes s', playUpdates playeroid answers
        ((FileEntry.rtdb ⟨ts, o, .updobjNext, .object objData n⟩).decoded rest float ::
          (FileEntry.stream nr objData 48 size).decoded rest float :: chunks) s =
        writes ++ playUpdates playeroid answers chunks s' ∧
      Playing oids present s' ∧ writes.length ≤ 1 ∧
      if present o then
        writes = [(o, recordOf (objData.bytes 0 n.toNat ++ objData.bytes 48 size.toNat))]
      else ∀ record, writes ≠ [(o, record)] := by
  obtain ⟨s₁, heq₁, hs₁, hkept⟩ : ∃ s', playUpdates playeroid answers
      ((FileEntry.rtdb ⟨ts, o, .updobjNext, .object objData n⟩).decoded rest float ::
        (FileEntry.stream nr objData 48 size).decoded rest float :: chunks) s = _ ∧ _ ∧ _ :=
    hplaying.header ho hint hn ts objData
  obtain ⟨s₂, heq₂, hs₂⟩ : ∃ s', playUpdates playeroid answers
      ((FileEntry.stream nr objData 48 size).decoded rest float :: chunks) s₁ = _ ∧ _ :=
    hs₁.frame hnr objData 48 size
  refine ⟨_, s₂, heq₁.trans heq₂, hs₂, by split <;> simp, ?_⟩
  by_cases hpresent : present o = true
  · rw [if_pos hpresent] at hkept ⊢
    rw [hkept.1, hkept.2, if_pos ⟨ho, hpresent⟩]
    rfl
  · rw [if_neg hpresent]
    intro record
    split
    · rename_i hwrites
      intro heq
      have hraw : s₁.rawnextOid = o := congrArg Prod.fst (List.singleton_inj.mp heq)
      exact hpresent (hraw ▸ hwrites.2)
    · exact List.cons_ne_nil _ _ ∘ Eq.symm

/-- The chunks of an update write at most one record, and the right one if the update is not raw and
its object is played. -/
theorem Playing.updates (hplaying : Playing oids present s) (ho : msg.oid ≠ 0)
    (hint : FitsInt msg.oid) (hsize : d.SizeFits objData) (hnr : d.streamit ≤ nstreams) :
    ∃ writes s', playUpdates playeroid answers
        ((updateEntries msg d objData).map (FileEntry.decoded rest float) ++ chunks) s =
        writes ++ playUpdates playeroid answers chunks s' ∧
      Playing oids present s' ∧ writes.length ≤ 1 ∧
      (writes = [(msg.oid, recordOf (objData.bytes 0 (baseSize objData).toNat))] ↔
        d.junkit = false ∧ present msg.oid = true) := by
  have hbase := hsize.base
  rw [updateEntries]
  by_cases hstream : d.streamit ≠ 0
  · have h48 := hsize.stream hstream
    rw [if_pos hstream]
    have hn : (if d.junkit then 24 else 48 : Int) ≤ preBufMax := by
      split <;> decide
    obtain ⟨writes, s', heq, hs', hle, hwrites⟩ : ∃ writes s', playUpdates playeroid answers
        ((FileEntry.rtdb ⟨msg.ts, msg.oid, .updobjNext,
            .object objData (if d.junkit then 24 else 48)⟩).decoded rest float ::
          (FileEntry.stream (d.streamit - 1) objData 48 (baseSize objData - 48)).decoded rest float
            :: chunks) s = _ ∧ _ ∧ _ ∧ _ :=
      hplaying.headerFrame ho hint hn (by omega) msg.ts objData
    refine ⟨writes, s', heq, hs', hle, ?_⟩
    by_cases hpresent : present msg.oid = true
    · rw [if_pos hpresent] at hwrites
      rw [and_iff_left hpresent, hwrites]
      cases d.junkit with
      | true =>
          refine iff_of_false (fun heq => ?_) (by decide)
          refine record_ne ?_ ?_ (List.singleton_inj.mp heq) <;>
            simp only [List.length_append, Mem.length_bytes, if_true] <;> omega
      | false =>
          refine iff_of_true ?_ rfl
          have hsum : (baseSize objData).toNat = 48 + (baseSize objData - 48).toNat := by omega
          rw [hsum, Mem.bytes_add]
          rfl
    · rw [if_neg hpresent] at hwrites
      exact iff_of_false (hwrites _) fun h => hpresent h.2
  · rw [if_neg hstream]
    cases hjunk : d.junkit with
    | true =>
        -- the header is kept, perhaps, and nothing is written
        obtain ⟨s₁, heq₁, hs₁, -⟩ : ∃ s', playUpdates playeroid answers
            ((FileEntry.rtdb ⟨msg.ts, msg.oid, .updobjNext, .object objData 24⟩).decoded rest float
              :: (FileEntry.junk objData 24 (baseSize objData - 24)).decoded rest float :: chunks)
            s = _ ∧ _ ∧ _ := hplaying.header ho hint (by decide) msg.ts objData
        obtain ⟨s₂, heq₂, hs₂⟩ : ∃ s', playUpdates playeroid answers
            ((FileEntry.junk objData 24 (baseSize objData - 24)).decoded rest float :: chunks) s₁ =
              _ ∧ _ := hs₁.junk objData 24 _
        refine ⟨[], s₂, heq₁.trans heq₂, hs₂, Nat.zero_le _, iff_of_false ?_ ?_⟩
        · exact List.cons_ne_nil _ _ ∘ Eq.symm
        · exact fun h => Bool.false_ne_true h.1.symm
    | false =>
        obtain ⟨s₁, heq₁, hs₁⟩ : ∃ s', playUpdates playeroid answers
            ((FileEntry.rtdb ⟨msg.ts, msg.oid, .updobj,
              .object objData (baseSize objData)⟩).decoded rest float :: chunks) s = _ ∧ _ :=
          hplaying.plain ho hint hbase msg.ts objData
        refine ⟨_, s₁, heq₁, hs₁, by split <;> simp, ?_⟩
        rw [and_iff_right rfl]
        split
        · rename_i hpresent
          exact iff_of_true rfl hpresent
        · rename_i hpresent
          exact iff_of_false (List.cons_ne_nil _ _ ∘ Eq.symm) hpresent

/-! ## Runs -/

theorem Pass.update_streamit [Rounding] (hstreams : opts.oidStream.length ≤ nstreams)
    (h' : p.update opts h r = some (d, objData)) : d.streamit ≤ nstreams := by
  rw [update] at h'
  split at h'
  · cases h'
  dsimp only at h'
  split at h'
  · split at h'
    · cases h'
    · split at h'
      · cases h'
        simp only [decideTrace]
        cases hfind : opts.oidStream.findIdx? fun o => o ≠ 0 && o = p.msg.oid with
        | none => exact Nat.zero_le _
        | some i =>
            obtain ⟨hlt, -⟩ := List.findIdx?_eq_some_iff_getElem.mp hfind
            exact Nat.le_trans hlt hstreams
      · cases h'
  · cases h'

/-- Two lists are equal if both of their parts are, none of which is too long. -/
theorem append_eq_append_iff_of_length_le {α : Type} {ws us xs ys : List α}
    (h : ws.length ≤ us.length) (h' : xs.length ≤ ys.length) :
    ws ++ xs = us ++ ys ↔ ws = us ∧ xs = ys := by
  refine ⟨fun heq => List.append_inj heq ?_, fun heq => by rw [heq.1, heq.2]⟩
  have hlen := congrArg List.length heq
  rw [List.length_append, List.length_append] at hlen
  omega

theorem Playing.pass [Rounding] (hplaying : Playing oids present s)
    (hroom : oids.length ≤ OidMap.slots)
    (hdest : ∀ k, 0 < (answers k).destoid) (hmem : p.msg.oid ∈ oids) (ho : p.msg.oid ≠ 0)
    (hint : FitsInt p.msg.oid) (hstreams : opts.oidStream.length ≤ nstreams)
    (hsize : ∀ d objData, p.update opts h r = some (d, objData) → d.SizeFits objData)
    (hr : (recordPass opts h r p).2 = some r') :
    ∃ writes s', playUpdates playeroid answers
        ((recordPass opts h r p).1.map (FileEntry.decoded rest float) ++ chunks) s =
        writes ++ playUpdates playeroid answers chunks s' ∧
      Playing oids ((recordPass opts h r p).1.foldl presentAfter present) s' ∧
      writes.length ≤
        ((p.update opts h r).toList.map fun (_, objData) => updateRecord p objData).length ∧
      (writes = (p.update opts h r).toList.map (fun (_, objData) => updateRecord p objData) ↔
        ∀ d objData, p.update opts h r = some (d, objData) → d.junkit = false ∧
          (recordPass opts h r p).1.foldl presentAfter present p.msg.oid = true) := by
  obtain ⟨aux, haux, hwritten⟩ := recordPass_written hint hr
  rw [hwritten, List.map_append, List.append_assoc, List.foldl_append]
  obtain ⟨s₁, heq₁, hs₁⟩ : ∃ s', playUpdates playeroid answers
      (aux.map (FileEntry.decoded rest float) ++
        ((p.updateChunks opts h r).map (FileEntry.decoded rest float) ++ chunks)) s = _ ∧ _ :=
    hplaying.auxs hroom hdest hmem ho hint haux
  rw [heq₁, Pass.updateChunks]
  cases hupd : p.update opts h r with
  | none =>
      refine ⟨[], s₁, rfl, hs₁, Nat.zero_le _, iff_of_true rfl fun d objData h => by cases h⟩
  | some upd =>
      obtain ⟨d, objData⟩ := upd
      dsimp only
      -- the chunks of an update do not change what is played
      have hpresent (present : ObjId → Bool) :
          (updateEntries p.msg d objData).foldl presentAfter present = present := by
        rw [updateEntries]
        split
        · rfl
        split <;> rfl
      obtain ⟨writes, s₂, heq₂, hs₂, hle, hwrites⟩ : ∃ writes s', playUpdates playeroid answers
          ((updateEntries p.msg d objData).map (FileEntry.decoded rest float) ++ chunks) s₁ =
            _ ∧ _ ∧ _ ∧ _ :=
        hs₁.updates ho hint (hsize d objData hupd) (Pass.update_streamit hstreams hupd)
      rw [hpresent]
      refine ⟨writes, s₂, heq₂, hs₂, hle, hwrites.trans ?_⟩
      constructor
      · rintro hfit d' objData' heq
        cases heq
        exact hfit
      · exact fun hfit => hfit d objData rfl

theorem playsBack_iff_from [Rounding] (hroom : oids.length ≤ OidMap.slots)
    (hdest : ∀ k, 0 < (answers k).destoid) (hstreams : opts.oidStream.length ≤ nstreams) :
    ∀ (ps : List Pass) (r : Recorder) (present : ObjId → Bool) (s : Player),
      Playing oids present s → PassesOver oids ps → SizesFit opts h r ps →
      (recordAll opts h r ps).2 ≠ none →
      (playUpdates playeroid answers
          ((recordAll opts h r ps).1.map (FileEntry.decoded rest float)) s).length ≤
          (recordedUpdates opts h r ps).length ∧
        (playUpdates playeroid answers
            ((recordAll opts h r ps).1.map (FileEntry.decoded rest float)) s =
            recordedUpdates opts h r ps ↔ UpdatesPlayed opts h r present ps) := by
  intro ps
  induction ps with
  | nil =>
      intro r present s hplaying hover hsizes halive
      exact ⟨Nat.le_refl _, iff_of_true rfl trivial⟩
  | cons p ps ih =>
      intro r present s hplaying hover hsizes halive
      obtain ⟨⟨hmem, ho, hint⟩, hover⟩ := List.forall_mem_cons.mp hover
      cases hr : (recordPass opts h r p).2 with
      | none =>
          rw [recordAll_cons_none hr] at halive
          exact absurd rfl halive
      | some r' =>
          rw [recordAll_cons_some hr] at halive ⊢
          obtain ⟨writes, s', heq, hs', hle, hwrites⟩ : ∃ writes s',
              playUpdates playeroid answers
                ((recordPass opts h r p).1.map (FileEntry.decoded rest float) ++
                  (recordAll opts h r' ps).1.map (FileEntry.decoded rest float)) s = _ ∧
                _ ∧ _ ∧ _ :=
            hplaying.pass hroom hdest hmem ho hint hstreams hsizes.1 hr
          obtain ⟨hrestle, hrest⟩ := ih r' _ s' hs' hover (hsizes.2 r' hr) halive
          rw [List.map_append, heq, recordedUpdates, hr]
          dsimp only
          refine ⟨?_, ?_⟩
          · rw [List.length_append, List.length_append]
            exact Nat.add_le_add hle hrestle
          · rw [append_eq_append_iff_of_length_le hle hrestle, hwrites, hrest, UpdatesPlayed]
            refine and_congr_right fun _ => ?_
            exact ⟨fun h r'' hr'' => Option.some.inj (hr.symm.trans hr'') ▸ h, fun h => h r' hr⟩

/-! ## The file -/

theorem FileEntry.IsAux.sized {e : FileEntry} {o : ObjId} (he : e.IsAux o) : e.Sized := by
  cases he with
  | error ts o' hint => exact fun objData size hdata => by cases hdata
  | info ts type objInfo hupd hnext herror hoid => exact fun objData size hdata => by cases hdata

theorem updateEntries_sized (hsize : d.SizeFits objData) :
    ∀ e ∈ updateEntries msg d objData, e.Sized := by
  have hmax : baseSize objData < 2 ^ 31 := Int.lt_of_le_of_lt hsize.buffer (by decide)
  have hheader {n : Int} (hn : n < 2 ^ 31) (type : StreamType) :
      (FileEntry.rtdb ⟨msg.ts, msg.oid, type, .object objData n⟩).Sized := by
    intro objData' size hdata
    cases hdata
    exact hn
  rw [updateEntries]
  by_cases hstream : d.streamit ≠ 0
  · have h48 := hsize.stream hstream
    rw [if_pos hstream]
    refine List.forall_mem_cons.mpr ⟨hheader ?_ _, List.forall_mem_singleton.mpr ?_⟩
    · split <;> decide
    · exact ⟨Int.sub_pos.mpr h48, Int.lt_trans (Int.sub_lt_self _ (by decide)) hmax⟩
  · rw [if_neg hstream]
    by_cases hjunk : d.junkit = true
    · have h24 := hsize.junk hjunk
      rw [if_pos hjunk]
      refine List.forall_mem_cons.mpr ⟨hheader (by decide) _, List.forall_mem_singleton.mpr ?_⟩
      exact ⟨Int.sub_pos.mpr h24, Int.lt_trans (Int.sub_lt_self _ (by decide)) hmax⟩
    · rw [if_neg hjunk]
      exact List.forall_mem_singleton.mpr (hheader hmax _)

theorem recordPass_sized [Rounding] (hint : FitsInt p.msg.oid)
    (hsize : ∀ d objData, p.update opts h r = some (d, objData) → d.SizeFits objData)
    (hr : (recordPass opts h r p).2 = some r') : ∀ e ∈ (recordPass opts h r p).1, e.Sized := by
  obtain ⟨aux, haux, hwritten⟩ := recordPass_written hint hr
  rw [hwritten, Pass.updateChunks]
  refine List.forall_mem_append.mpr ⟨fun e he => (haux e he).sized, ?_⟩
  cases hupd : p.update opts h r with
  | none => exact fun e he => absurd he List.not_mem_nil
  | some upd => exact updateEntries_sized (hsize upd.1 upd.2 hupd)

/-- What a run writes has the sizes that the player needs. -/
theorem recordAll_sized [Rounding] (hover : PassesOver oids ps) (hsizes : SizesFit opts h r ps)
    (halive : (recordAll opts h r ps).2 ≠ none) : ∀ e ∈ (recordAll opts h r ps).1, e.Sized := by
  induction ps generalizing r with
  | nil => exact fun e he => absurd he List.not_mem_nil
  | cons p ps ih =>
      obtain ⟨⟨-, -, hint⟩, hover⟩ := List.forall_mem_cons.mp hover
      cases hr : (recordPass opts h r p).2 with
      | none =>
          rw [recordAll_cons_none hr] at halive
          exact absurd rfl halive
      | some r' =>
          rw [recordAll_cons_some hr] at halive ⊢
          exact List.forall_mem_append.mpr
            ⟨recordPass_sized hint hsizes.1 hr, ih hover (hsizes.2 r' hr) halive⟩

theorem length_le_fileBytes (rest : ObjInfo → Mem) {entries : List FileEntry}
    (hsized : ∀ e ∈ entries, e.Sized) : entries.length ≤ (fileBytes rest entries).length := by
  induction entries with
  | nil => exact Nat.le_refl _
  | cons e entries ih =>
      obtain ⟨he, hentries⟩ := List.forall_mem_cons.mp hsized
      have hpos : 0 < (e.bytes rest).length := by
        rw [he.bytes_eq rest, riffBytes]
        simp only [List.length_append, e.raw_fcc_length]
        omega
      have hle := ih hentries
      rw [fileBytes] at hle ⊢
      rw [List.flatMap_cons, List.length_append, List.length_cons]
      omega

theorem Playing.start (oids : List ObjId) : Playing oids (fun _ => false) (playInit {} none) := by
  have hfind (o : ObjId) (ho : o ≠ 0) : OidMap.find OidMap.init o = none := by
    rw [OidMap.find_init, if_neg fun h => ho h.1]
  constructor
  · rfl
  · rfl
  · rfl
  · exact OidMap.Valid.init
  · exact List.length_replicate
  · intro o hmem
    obtain ⟨ho, hsome⟩ := OidMap.mem_occupied.mp hmem
    have hnone : OidMap.find OidMap.init o = none := hfind o ho
    rw [show (playInit {} none).map = OidMap.init from rfl, hnone] at hsome
    exact absurd hsome Bool.false_ne_true
  · intro o ho
    rw [show (playInit {} none).map = OidMap.init from rfl, hfind o ho]
    exact iff_of_false Bool.false_ne_true Bool.false_ne_true
  · intro o ho dest hdest
    rw [show (playInit {} none).map = OidMap.init from rfl, hfind o ho] at hdest
    cases hdest

/-- The recorded updates are those that the player writes if and only if none of them is raw and
none is recorded behind the deletion of its object. -/
theorem playsBack_iff [Rounding] (rest : ObjInfo → Mem) (float : BitVec 32 → ℚ) (playeroid : ObjId)
    (hroom : oids.length ≤ OidMap.slots) (hdest : ∀ k, 0 < (answers k).destoid)
    (hstreams : opts.oidStream.length ≤ nstreams) (hover : PassesOver oids ps)
    (hsizes : SizesFit opts h r ps) (halive : (recordAll opts h r ps).2 ≠ none) :
    PlaysBack opts h rest float playeroid answers r ps ↔
      UpdatesPlayed opts h r (fun _ => false) ps := by
  have hsized := recordAll_sized hover hsizes halive
  rw [PlaysBack, readChunks_fileBytes hsized (length_le_fileBytes rest hsized)]
  exact (playsBack_iff_from hroom hdest hstreams ps r _ _ (Playing.start oids) hover
    hsizes halive).2

/-! ## Two recordings -/

instance (d : Decision) (objData : Mem) : Decidable (d.SizeFits objData) :=
  decidable_of_iff (24 ≤ baseSize objData ∧ baseSize objData ≤ objDataBufSize ∧
      (d.streamit ≠ 0 → 48 < baseSize objData) ∧ (d.junkit = true → 24 < baseSize objData))
    ⟨fun ⟨h1, h2, h3, h4⟩ => ⟨h1, h2, h3, h4⟩, fun h => ⟨h.base, h.buffer, h.stream, h.junk⟩⟩

instance (oids : List ObjId) (ps : List Pass) : Decidable (PassesOver oids ps) :=
  inferInstanceAs (Decidable (∀ p ∈ ps, p.msg.oid ∈ oids ∧ p.msg.oid ≠ 0 ∧
    -2 ^ 31 ≤ p.msg.oid ∧ p.msg.oid < 2 ^ 31))

instance decidableSizesFit [Rounding] : ∀ (r : Recorder) (ps : List Pass),
    Decidable (SizesFit opts h r ps)
  | _, [] => isTrue trivial
  | r, p :: ps =>
      have (r' : Recorder) : Decidable (SizesFit opts h r' ps) := decidableSizesFit r' ps
      decidable_of_iff ((∀ u ∈ p.update opts h r, u.1.SizeFits u.2) ∧
          ∀ r' ∈ (recordPass opts h r p).2, SizesFit opts h r' ps)
        (and_congr_left' ⟨fun hall d objData hu => hall (d, objData) hu,
          fun hall u hu => hall u.1 u.2 hu⟩)

instance decidableUpdatesPlayed [Rounding] : ∀ (r : Recorder) (present : ObjId → Bool)
    (ps : List Pass), Decidable (UpdatesPlayed opts h r present ps)
  | _, _, [] => isTrue trivial
  | r, present, p :: ps =>
      let present' := (recordPass opts h r p).1.foldl presentAfter present
      have (r' : Recorder) : Decidable (UpdatesPlayed opts h r' present' ps) :=
        decidableUpdatesPlayed r' present' ps
      decidable_of_iff ((∀ u ∈ p.update opts h r,
            u.1.junkit = false ∧ present' p.msg.oid = true) ∧
          ∀ r' ∈ (recordPass opts h r p).2, UpdatesPlayed opts h r' present' ps)
        (and_congr_left' ⟨fun hall d objData hu => hall (d, objData) hu,
          fun hall u hu => hall u.1 u.2 hu⟩)

/-- `recordedDb` with a second object, whose record has a header and 8 bytes. -/
def cameraDb : Db :=
  (writedata (recordedDb.setMeta 1 { recordedDb.objmeta 0 with
      oid := 6, sizeMax := 56, historySlot := -1, bufferIdx := 128 })
    ⟨1, false⟩ 6 (Mem.write32 (fun _ => 9) 20 56) 0x100000006).db

/-- An update of each object, and the deletion of the first. -/
def cameraPasses : List Pass :=
  [.traced updatedMsg 10 cameraDb cameraDb,
    .traced { oid := 6, ts := 0x100000006, event := .updated, objSlot := 1, histSlot := 0 } 10
      cameraDb cameraDb,
    .traced { oid := 5, ts := 0x100000007, event := .deleted, objSlot := 0, histSlot := -1 } 10
      cameraDb cameraDb]

/-- With the second object as a stream, both records are written again. -/
theorem playsBack_iff_one :
    PlaysBack { doAll := true, oidStream := [6] } ⟨1, false⟩ (fun _ => .zero) (fun _ => 0) 0
        (fun _ => { destoid := 1 }) freshRecorder cameraPasses ∧
      (recordedUpdates { doAll := true, oidStream := [6] } ⟨1, false⟩ freshRecorder
        cameraPasses).map (fun (oid, size, _) => (oid, size)) = [(5, 32), (6, 56)] := by
  have hover : PassesOver [5, 6] cameraPasses := by decide +kernel
  refine ⟨(playsBack_iff _ _ _ (by decide +kernel) (fun _ => Int.zero_lt_one) (by decide) hover
    (by decide +kernel) (by decide +kernel)).mpr ?_, ?_⟩
  all_goals decide +kernel

/-- `recordedDb` with a type for the object. -/
def typedDb : Db :=
  (writedata (historyDb.setMeta 0 { historyDb.objmeta 0 with otype := 7 }) ⟨1, false⟩ 5
    historyRecord 0x100000005).db

/-- With the type as `-r` the record is not written again. -/
theorem not_playsBack :
    PassesOver [updatedMsg.oid] [.traced updatedMsg 10 typedDb typedDb] ∧
      SizesFit { doAll := true, doRaw := 7 } ⟨1, false⟩ freshRecorder
        [.traced updatedMsg 10 typedDb typedDb] ∧
      ¬ PlaysBack { doAll := true, doRaw := 7 } ⟨1, false⟩ (fun _ => .zero) (fun _ => 0) 0
        (fun _ => { destoid := 1 }) freshRecorder [.traced updatedMsg 10 typedDb typedDb] := by
  refine ⟨by decide, by decide +kernel, ?_⟩
  intro heq
  exact absurd (congrArg List.length heq) (by decide +kernel)

end KogmoRtdb
