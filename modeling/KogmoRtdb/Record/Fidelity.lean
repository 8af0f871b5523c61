import KogmoRtdb.Lib.AllocLog
import KogmoRtdb.DataPath.RingHistory
import KogmoRtdb.Record.Recorder

/-!
# Fidelity of a recording

What the recorder writes for an update is the record that was announced, or an error. It
takes the slot from the message and no more: its first look at that slot replaces the stamp
to be checked by the one that is there. So the writers may not have come around the ring
before (`SlotGuard`). After that look, the check of the stamp is enough.
-/

namespace KogmoRtdb

/-! ## Faithful recordings -/

/-- A chunk with an object's data, for the record of `oid` with stamp `ts`. -/
def FileEntry.IsUpdate (ts : Timestamp) (oid : ObjId) : FileEntry → Prop
  | .rtdb chunk =>
      (chunk.type = .updobj ∨ chunk.type = .updobjNext) ∧ chunk.ts = ts ∧ chunk.oid = oid
  | _ => False

/-- The entry marks the record of `oid` with stamp `ts` as lost. -/
def FileEntry.IsError (ts : Timestamp) (oid : ObjId) : FileEntry → Prop
  | .rtdb chunk => chunk.type = .error ∧ chunk.ts = ts ∧ chunk.oid = oid
  | _ => False

instance (ts : Timestamp) (oid : ObjId) : DecidablePred (FileEntry.IsUpdate ts oid) := fun e => by
  cases e <;> unfold FileEntry.IsUpdate <;> infer_instance

instance (ts : Timestamp) (oid : ObjId) : DecidablePred (FileEntry.IsError ts oid) := fun e => by
  cases e <;> unfold FileEntry.IsError <;> infer_instance

/-- Object data in the file: `size` bytes of a buffer from `offset` on. -/
structure DataPart where
  objData : Mem
  offset : Int
  size : Int

def FileEntry.part : FileEntry → Option DataPart
  | .rtdb ⟨_, _, _, .object objData size⟩ => some ⟨objData, 0, size⟩
  | .rtdb _ => none
  | .stream _ objData offset size => some ⟨objData, offset, size⟩
  | .junk objData offset size => some ⟨objData, offset, size⟩

/-- The parts are the record of the commit from byte `pos` on, in order. -/
def WritesRecord (c : Commit) : Int → List DataPart → Prop
  | pos, [] => pos = c.size
  | pos, ⟨objData, offset, size⟩ :: parts =>
      offset = pos ∧ 0 ≤ size ∧ pos + size ≤ c.size ∧
        (∀ b : Nat, pos ≤ b → (b : Int) < pos + size → objData b = c.bytes b) ∧
        WritesRecord c (pos + size) parts

/-- For the update there are chunks with the announced record as their data, or else an
error. -/
structure Handled.Faithful (commits : List (ObjId × Commit)) (hd : Handled) : Prop where
  record : (∃ e ∈ hd.written, e.IsUpdate hd.msg.ts hd.msg.oid) →
    ∃ c, (hd.msg.oid, c) ∈ commits ∧ c.stamp = hd.msg.ts ∧
      WritesRecord c 0 (hd.written.filterMap FileEntry.part)
  error : (¬ ∃ e ∈ hd.written, e.IsUpdate hd.msg.ts hd.msg.oid) →
    ∃ e ∈ hd.written, e.IsError hd.msg.ts hd.msg.oid

/-- Every update of a selected object is recorded faithfully. -/
def Fidelity (s : RecState) : Prop :=
  ∀ hd ∈ s.handled, hd.msg.event = .updated → hd.selected = true → hd.Faithful s.commits

/-! ## Runs -/

def ObjInfo.ring (info : ObjInfo) : HeapBlock := ⟨info.bufferIdx, info.historySize * info.sizeMax⟩

structure Placed (db : Db) : Prop where
  block : ∀ i, (db.objmeta i).bufferIdx ≠ 0 → ∃ n, Block (db.objmeta i) n
  apart : ∀ i j, i ≠ j → (db.objmeta i).bufferIdx ≠ 0 → (db.objmeta j).bufferIdx ≠ 0 →
    (db.objmeta i).ring.Apart (db.objmeta j).ring

/-- A slot with a stamp holds a commit to its object. -/
def Recorded (db : Db) (commits : List (ObjId × Commit)) : Prop :=
  ∀ i slot, (db.objmeta i).bufferIdx ≠ 0 → InRing (db.objmeta i) slot →
    slotTs db.heap (db.objmeta i) slot ≠ invalidTs →
    ∃ c, ((db.objmeta i).oid, c) ∈ commits ∧ (c.size : Int) ≤ (db.objmeta i).sizeMax ∧
      HoldsRecord (slotWindow db.heap (db.objmeta i) slot) c

def NamesSlot (db : Db) (msg : TraceMsg) : Prop :=
  msg.event = .updated → ∃ i : Nat, msg.objSlot = i ∧ i < objMax ∧ (db.objmeta i).bufferIdx ≠ 0 ∧
    InRing (db.objmeta i) msg.histSlot

/-- A recorder that waits for its next message. Records may have been stored before. -/
def recLts [Rounding] (opts : RecOptions) : Lts RecState RecOp where
  init s := Placed s.db ∧ Recorded s.db s.commits ∧ s.pending = [] ∧
    (∀ msg ∈ s.trace.buf.messages, NamesSlot s.db msg) ∧ s.trace.receiver = .idle ∧
    s.phase = .receiving ∧ s.handled = []
  step := recStep opts

/-- The record fits into `obj_data`, and an image is at least a header and not raw. -/
def Decision.Fits (d : Decision) (size : Int) : Prop :=
  size ≤ objDataBufSize ∧ (d.streamit ≠ 0 → d.junkit = false ∧ 48 ≤ size)

/-- The slot that a message names has no stamp, or still has the one announced. -/
def StillThere (db : Db) (msg : TraceMsg) (d : Decision) : Prop :=
  let info := db.objmeta msg.objSlot.toNat
  d.traceit = true → msg.oid = info.oid → slotTs db.heap info msg.histSlot ≠ invalidTs →
    slotTs db.heap info msg.histSlot = msg.ts ∧ d.Fits (slotSize db.heap info msg.histSlot)

/-- A commit puts the stamp of a message into the slot that the message names. -/
def Restamps (db : Db) (oid : ObjId) (op : WriterOp) (msg : TraceMsg) : Prop :=
  db.findmetaById oid = some msg.objSlot.toNat ∧
    (db.objmeta msg.objSlot.toNat).next = msg.histSlot ∧
    op.stamp db msg.objSlot.toNat = msg.ts

/-- The slot still has its stamp when the recorder comes to it, and does not get it back once
it has lost it. -/
def SlotGuard (s : RecState) : RecOp → Prop
  | .slotPtr =>
      match s.phase with
      | .reading msg _ d _ => StillThere s.db msg d
      | _ => True
  | .writer _ oid op =>
      match s.phase with
      | .copying msg _ _ _ _ _ => ¬ Restamps s.db oid op msg
      | .checking msg _ _ _ _ => ¬ Restamps s.db oid op msg
      | _ => True
  | _ => True

variable {db db' : Db} {h : Handle} {oid : ObjId} {i j n : Nat} {op : WriterOp} {committed : Bool}
  {info : ObjInfo} {slot : Int} {msg : TraceMsg} {c : Commit} {commits : List (ObjId × Commit)}
  {opts : RecOptions} {s s' : RecState} {d : Decision} {r r' : Recorder} {ts : Timestamp}

/-! ## What a writer leaves alone -/

/-- The same objects, perhaps with other latest slots. -/
def SameObjects (db db' : Db) : Prop :=
  ∀ j, ∃ slot, db'.objmeta j = { db.objmeta j with historySlot := slot }

theorem Prepares.sameObjects (hp : Prepares db i db') : SameObjects db db' := fun j =>
  ⟨(db.objmeta j).historySlot, by rw [hp.objmeta]⟩

theorem Stores.sameObjects (hs : Stores db i ts db') : SameObjects db db' := fun j => by
  rw [hs.objmeta]
  by_cases hj : j = i
  · rw [hj, Function.update_self]
    exact ⟨_, rfl⟩
  · rw [Function.update_of_ne hj]
    exact ⟨_, rfl⟩

namespace SameObjects

variable (hs : SameObjects db db')
include hs

theorem oid_eq (j : Nat) : (db'.objmeta j).oid = (db.objmeta j).oid := by
  obtain ⟨slot, hj⟩ := hs j
  rw [hj]

theorem bufferIdx_eq (j : Nat) : (db'.objmeta j).bufferIdx = (db.objmeta j).bufferIdx := by
  obtain ⟨slot, hj⟩ := hs j
  rw [hj]

theorem sizeMax_eq (j : Nat) : (db'.objmeta j).sizeMax = (db.objmeta j).sizeMax := by
  obtain ⟨slot, hj⟩ := hs j
  rw [hj]

theorem ring_eq (j : Nat) : (db'.objmeta j).ring = (db.objmeta j).ring := by
  obtain ⟨slot, hj⟩ := hs j
  rw [hj]
  rfl

theorem inRing_iff (j : Nat) (slot : Int) :
    InRing (db'.objmeta j) slot ↔ InRing (db.objmeta j) slot := by
  obtain ⟨slot', hj⟩ := hs j
  rw [hj]
  exact Iff.rfl

theorem window_eq (heap : Heap) (j : Nat) (slot : Int) :
    slotWindow heap (db'.objmeta j) slot = slotWindow heap (db.objmeta j) slot := by
  obtain ⟨slot', hj⟩ := hs j
  rw [hj]
  rfl

theorem slotTs_eq (heap : Heap) (j : Nat) (slot : Int) :
    slotTs heap (db'.objmeta j) slot = slotTs heap (db.objmeta j) slot :=
  congrArg (Mem.read64 · 0) (hs.window_eq heap j slot)

theorem block (hb : Block (db.objmeta j) n) : Block (db'.objmeta j) n := by
  obtain ⟨slot, hj⟩ := hs j
  rw [hj]
  exact ⟨hb.historySize, hb.pos, hb.sizeMin, hb.idx, hb.bound⟩

theorem placed (hp : Placed db) : Placed db' where
  block j hj := by
    rw [hs.bufferIdx_eq] at hj
    obtain ⟨n, hb⟩ := hp.block j hj
    exact ⟨n, hs.block hb⟩
  apart i j hij hi hj := by
    rw [hs.bufferIdx_eq] at hi hj
    rw [hs.ring_eq, hs.ring_eq]
    exact hp.apart i j hij hi hj

theorem namesSlot (hm : NamesSlot db msg) : NamesSlot db' msg := fun hupdated => by
  obtain ⟨i, hslot, hi, hidx, hring⟩ := hm hupdated
  exact ⟨i, hslot, hi, by rwa [hs.bufferIdx_eq], (hs.inRing_iff i _).mpr hring⟩

end SameObjects

theorem Block.slotAddr_mem (hb : Block info n) (hslot : InRing info slot) :
    info.ring.idx ≤ info.slotAddr slot ∧
      info.slotAddr slot + info.sizeMax ≤ info.ring.idx + info.ring.size := by
  obtain ⟨h0, hlt⟩ := hslot
  rw [hb.historySize] at hlt
  obtain ⟨k, rfl⟩ := Int.eq_ofNat_of_zero_le h0
  rw [hb.slotAddr_eq (by omega), ObjInfo.ring, hb.historySize]
  have h24 := hb.sizeMin
  constructor
  · exact Int.le_add_of_nonneg_right (Int.mul_nonneg (Int.natCast_nonneg k) (by omega))
  · have hmul : ((k : Int) + 1) * info.sizeMax ≤ n * info.sizeMax :=
      Int.mul_le_mul_of_nonneg_right (by omega) (by omega)
    rw [Int.add_mul, Int.one_mul] at hmul
    dsimp only
    omega

/-- A writer's step to object `i` leaves all other slots of all objects alone. -/
theorem Placed.window_eq (hp : Placed db) (hs : SameElsewhere db i db')
    (hi : (db.objmeta i).bufferIdx ≠ 0) (hj : (db.objmeta j).bufferIdx ≠ 0)
    (hslot : InRing (db.objmeta j) slot) (hne : ¬ (j = i ∧ slot = (db.objmeta i).next)) {b : Nat}
    (hb : (b : Int) < (db.objmeta j).sizeMax) :
    slotWindow db'.heap (db.objmeta j) slot b = slotWindow db.heap (db.objmeta j) slot b := by
  obtain ⟨n, hbi⟩ := hp.block i hi
  by_cases hij : j = i
  · rw [hij] at hslot hb hne ⊢
    exact hs.window_of_ne hbi hslot (fun heq => hne ⟨rfl, heq⟩) hb
  · obtain ⟨m, hbj⟩ := hp.block j hj
    obtain ⟨hlo, hhi⟩ := hbj.slotAddr_mem hslot
    obtain ⟨hlo', hhi'⟩ := hbi.slotAddr_mem hbi.next_inRing
    refine hs.window ?_ hb
    rcases hp.apart j i hij hj hi with hle | hle
    · exact Or.inl (by omega)
    · exact Or.inr (by omega)

theorem Placed.slotTs_eq (hp : Placed db) (hs : SameElsewhere db i db')
    (hi : (db.objmeta i).bufferIdx ≠ 0) (hj : (db.objmeta j).bufferIdx ≠ 0)
    (hslot : InRing (db.objmeta j) slot) (hne : ¬ (j = i ∧ slot = (db.objmeta i).next)) :
    slotTs db'.heap (db.objmeta j) slot = slotTs db.heap (db.objmeta j) slot := by
  obtain ⟨n, hb⟩ := hp.block j hj
  exact slotTs_congr hb.sizeMin fun b hlt => hp.window_eq hs hi hj hslot hne hlt

/-- What the recorder needs to know of a writer's step: which slot has been written, and
that its record, if it has a stamp, is a commit that has been noted. -/
structure WritesSlot (db : Db) (i : Nat) (commits : List (ObjId × Commit)) (db' : Db) : Prop where
  objects : SameObjects db db'
  elsewhere : SameElsewhere db i db'
  record : slotTs db'.heap (db.objmeta i) (db.objmeta i).next ≠ invalidTs →
    ∃ c, ((db.objmeta i).oid, c) ∈ commits ∧ (c.size : Int) ≤ (db.objmeta i).sizeMax ∧
      HoldsRecord (slotWindow db'.heap (db.objmeta i) (db.objmeta i).next) c

theorem Recorded.writesSlot {commits' : List (ObjId × Commit)} (hr : Recorded db commits)
    (hp : Placed db) (hi : (db.objmeta i).bufferIdx ≠ 0) (hw : WritesSlot db i commits' db')
    (hsub : commits ⊆ commits') : Recorded db' commits' := by
  intro j slot hj hslot hts
  rw [hw.objects.bufferIdx_eq] at hj
  rw [hw.objects.inRing_iff] at hslot
  rw [hw.objects.slotTs_eq] at hts
  rw [hw.objects.oid_eq, hw.objects.sizeMax_eq, hw.objects.window_eq]
  by_cases hsame : j = i ∧ slot = (db.objmeta i).next
  · obtain ⟨rfl, rfl⟩ := hsame
    exact hw.record hts
  · rw [hp.slotTs_eq hw.elsewhere hi hj hslot hsame] at hts
    obtain ⟨c, hmem, hsize, hheld⟩ := hr j slot hj hslot hts
    refine ⟨c, hsub hmem, hsize, hheld.congr fun b hb => ?_⟩
    exact hp.window_eq hw.elsewhere hi hj hslot hsame (by omega)

theorem recWriterStep_cases [Rounding] (hp : Placed s.db)
    (hs : recWriterStep s h oid op = some s') : s' = s ∨ ∃ i db' commits' pending',
      s' = { s with db := db', commits := commits', pending := pending' } ∧
        s.db.findmetaById oid = some i ∧ (s.db.objmeta i).bufferIdx ≠ 0 ∧
        WritesSlot s.db i commits' db' ∧ s.commits ⊆ commits' ∧
        (∀ msg ∈ pending', msg ∈ s.pending ∨ NamesSlot s.db msg) ∧
        (slotTs db'.heap (s.db.objmeta i) (s.db.objmeta i).next = invalidTs ∨
          slotTs db'.heap (s.db.objmeta i) (s.db.objmeta i).next = op.stamp s.db i) := by
  unfold recWriterStep at hs
  split at hs
  · rename_i db' hrun
    cases hs
    rcases WriterOp.run_cases hrun with ⟨-, rfl⟩ | ⟨i, hi, hidx, ⟨-, hprep⟩ | ⟨hc, -⟩⟩
    · exact Or.inl rfl
    · obtain ⟨n, hb⟩ := hp.block i hidx
      refine Or.inr ⟨i, db', s.commits, s.pending, rfl, hi, hidx,
        ⟨hprep.sameObjects, hprep.elsewhere hb.sizeMin, fun hts => absurd hprep.ts hts⟩,
        List.Subset.refl _, fun msg hmsg => Or.inl hmsg, Or.inl hprep.ts⟩
    · cases hc
  · rename_i db' i hrun hi
    rcases WriterOp.run_cases hrun with ⟨hc, -⟩ | ⟨j, hj, hidx, ⟨hc, -⟩ | ⟨-, hst⟩⟩
    · cases hc
    · cases hc
    · obtain rfl := Option.some.inj (hi.symm.trans hj)
      obtain ⟨hlt, hoid⟩ := Db.findmetaById_some hi
      obtain ⟨n, hb⟩ := hp.block i hidx
      split at hs
      · cases hs
      · rename_i c hc
        cases hs
        obtain ⟨hstamp, hsize, hbytes⟩ := slotCommit_some hc
        refine Or.inr ⟨i, db', (oid, c) :: s.commits, _, rfl, hi, hidx,
          ⟨hst.sameObjects, hst.elsewhere, fun _ => ⟨c, ?_, ?_, ?_⟩⟩,
          List.subset_cons_self _ _, fun msg hmsg => ?_, Or.inr hst.ts⟩
        · rw [hoid]
          exact List.mem_cons_self
        · rw [hsize]
          exact hst.sizeMax
        · intro b _
          rw [hbytes]
        · rcases List.mem_append.mp hmsg with hold | hnew
          · exact Or.inl hold
          · rw [List.mem_singleton.mp hnew]
            exact Or.inr fun _ => ⟨i, rfl, hlt, hidx, hb.next_inRing⟩
  · cases hs

/-! ## What is written for an update -/

def NoData (entries : List FileEntry) : Prop :=
  ∀ e ∈ entries, e.part = none ∧ ∀ ts oid, ¬ e.IsUpdate ts oid

theorem noData_nil : NoData [] := fun _ he => absurd he List.not_mem_nil

theorem noData_error (ts : Timestamp) (oid : ObjId) : NoData [errorEntry ts oid] := fun e he => by
  rw [List.mem_singleton.mp he]
  exact ⟨rfl, fun ts' oid' hu => by simp [FileEntry.IsUpdate, errorEntry] at hu⟩

theorem NoData.append {es es' : List FileEntry} (h1 : NoData es) (h2 : NoData es') :
    NoData (es ++ es') := fun e he =>
  (List.mem_append.mp he).elim (h1 e) (h2 e)

theorem NoData.filterMap_part {es : List FileEntry} (hn : NoData es) :
    es.filterMap FileEntry.part = [] :=
  List.filterMap_eq_nil_iff.mpr fun e he => (hn e he).1

/-- The rest of the loop writes the entries for the update, if there is something to write. -/
theorem recordEvent_some {written : List FileEntry} {info : ObjInfo}
    (hr : recordEvent opts r msg info d = some (r', written)) (hu : msg.event = .updated)
    (ht : d.traceit = true) :
    ∃ rfr, NoData rfr ∧
      written = rfr ++ if r.olen ≤ 0 then [] else updateEntries msg d r.objData := by
  unfold recordEvent at hr
  have hdel : ¬ (opts.doLog ∧ msg.event = .deleted) := by
    rw [hu]
    exact fun hc => by cases hc.2
  dsimp only at hr
  rw [if_neg hdel, if_neg (by rw [ht]; decide), if_pos hu] at hr
  obtain ⟨⟨isKnown, knownid⟩, -, hout⟩ := Option.map_eq_some_iff.mp hr
  obtain ⟨-, rfl⟩ := Prod.mk.inj hout
  refine ⟨_, ?_, by rw [eventEntries, hu]⟩
  split
  · exact noData_nil
  · intro e he
    rw [List.mem_singleton.mp he]
    exact ⟨rfl, fun ts oid hup => by simp [FileEntry.IsUpdate] at hup⟩

theorem updateEntries_writes (msg : TraceMsg) {objData : Mem} (hfits : d.Fits c.size)
    (hdata : ∀ b < c.size, objData b = c.bytes b) :
    (∃ e ∈ updateEntries msg d objData, e.IsUpdate msg.ts msg.oid) ∧
      WritesRecord c 0 ((updateEntries msg d objData).filterMap FileEntry.part) := by
  have h24 := c.size_min
  have hsize : (objData.read32 20).toInt = c.size := HoldsRecord.read32_size hdata
  have hpart {pos len : Int} (hend : pos + len ≤ c.size) (b : Nat)
      (hlt : (b : Int) < pos + len) : objData b = c.bytes b := hdata b (by omega)
  unfold updateEntries
  dsimp only
  rw [hsize]
  split
  · rename_i hstream
    obtain ⟨hjunk, h48⟩ := hfits.2 hstream
    rw [hjunk]
    refine ⟨⟨_, List.mem_cons_self, ⟨Or.inr rfl, rfl, rfl⟩⟩, ?_⟩
    exact ⟨rfl, by decide, h48, fun b _ => hpart (by omega) b, rfl, by omega, by omega,
      fun b _ => hpart (by omega) b, show (0 : Int) + 48 + (c.size - 48) = c.size by omega⟩
  · split
    · refine ⟨⟨_, List.mem_cons_self, ⟨Or.inr rfl, rfl, rfl⟩⟩, ?_⟩
      exact ⟨rfl, by decide, by omega, fun b _ => hpart (by omega) b, rfl, by omega, by omega,
        fun b _ => hpart (by omega) b, show (0 : Int) + 24 + (c.size - 24) = c.size by omega⟩
    · refine ⟨⟨_, List.mem_cons_self, ⟨Or.inl rfl, rfl, rfl⟩⟩, ?_⟩
      exact ⟨rfl, by omega, by omega, fun b _ => hpart (by omega) b,
        show (0 : Int) + c.size = c.size by omega⟩

/-- An update is marked as lost, and no data is written for it. -/
theorem faithful_error {es es' : List FileEntry} {selected : Bool} (h1 : NoData es)
    (h2 : NoData es') :
    Handled.Faithful commits ⟨msg, selected, es ++ errorEntry msg.ts msg.oid :: es'⟩ := by
  have hno : NoData (es ++ errorEntry msg.ts msg.oid :: es') :=
    h1.append ((noData_error msg.ts msg.oid).append h2)
  constructor
  · rintro ⟨e, he, hup⟩
    exact absurd hup ((hno e he).2 _ _)
  · intro _
    exact ⟨_, List.mem_append_right _ List.mem_cons_self, rfl, rfl, rfl⟩

theorem faithful_record {es : List FileEntry} {objData : Mem} {selected : Bool} (hno : NoData es)
    (hmem : (msg.oid, c) ∈ commits) (hstamp : c.stamp = msg.ts) (hfits : d.Fits c.size)
    (hdata : ∀ b < c.size, objData b = c.bytes b) :
    Handled.Faithful commits ⟨msg, selected, es ++ updateEntries msg d objData⟩ := by
  obtain ⟨⟨e, he, hup⟩, hwrites⟩ := updateEntries_writes msg hfits hdata
  constructor
  · intro _
    refine ⟨c, hmem, hstamp, ?_⟩
    rw [List.filterMap_append, hno.filterMap_part]
    exact hwrites
  · exact fun hnone => absurd ⟨e, List.mem_append_right _ he, hup⟩ hnone

/-! ## The recorder in the middle of an update -/

/-- The message names slot `msg.histSlot` of object `i`, into which `c` was committed. -/
structure Announces (db : Db) (commits : List (ObjId × Commit)) (msg : TraceMsg) (d : Decision)
    (i : Nat) (c : Commit) : Prop where
  slot : msg.objSlot = i
  lt : i < objMax
  oid : msg.oid = (db.objmeta i).oid
  idx : (db.objmeta i).bufferIdx ≠ 0
  ring : InRing (db.objmeta i) msg.histSlot
  valid : msg.ts ≠ invalidTs
  commit : (msg.oid, c) ∈ commits
  stamp : c.stamp = msg.ts
  sizeMax : (c.size : Int) ≤ (db.objmeta i).sizeMax
  fits : d.Fits c.size

/-- The slot that the message names has the stamp announced. -/
def SlotKeeps (db : Db) (msg : TraceMsg) (i : Nat) : Prop :=
  slotTs db.heap (db.objmeta i) msg.histSlot = msg.ts

/-- What the recorder knows. While the slot keeps the stamp, the record is there to be
copied, and then it is in the buffer. -/
def PhaseOk (db : Db) (commits : List (ObjId × Commit)) (r : Recorder) : RecPhase → Prop
  | .received msg _ => NamesSlot db msg
  | .reading msg _ _ lost => NamesSlot db msg ∧ msg.event = .updated ∧ NoData lost
  | .copying msg _ d lost traceSlot objDataP =>
      NoData lost ∧ (d.traceit = true → ∃ i c, Announces db commits msg d i c ∧
        traceSlot = msg.slot ∧ objDataP = (db.objmeta i).slotAddr msg.histSlot ∧
        r.olen = c.size ∧
        (SlotKeeps db msg i → HoldsRecord (slotWindow db.heap (db.objmeta i) msg.histSlot) c))
  | .checking msg _ d lost traceSlot =>
      NoData lost ∧ (d.traceit = true → ∃ i c, Announces db commits msg d i c ∧
        traceSlot = msg.slot ∧ (SlotKeeps db msg i → HoldsRecord r.objData c))
  | _ => True

def RecState.OnItsWay (s : RecState) (msg : TraceMsg) : Prop :=
  msg ∈ s.pending ∨ msg ∈ s.trace.buf.messages ∨ ∃ k, s.trace.receiver = .taken k msg

structure RecInv (s : RecState) : Prop where
  placed : Placed s.db
  recorded : Recorded s.db s.commits
  messages : ∀ msg, s.OnItsWay msg → NamesSlot s.db msg
  phase : PhaseOk s.db s.commits s.recorder s.phase
  fidelity : Fidelity s

theorem slotPos_inRing (hslot : InRing info slot) : slotPos info.historySize slot 0 = slot := by
  obtain ⟨h0, hlt⟩ := hslot
  obtain ⟨k, rfl⟩ := Int.eq_ofNat_of_zero_le h0
  obtain ⟨n, hn⟩ := Int.eq_ofNat_of_zero_le (show 0 ≤ info.historySize by omega)
  rw [hn] at hlt ⊢
  rw [slotPos, Int.zero_tmod, Int.add_zero, Ring.tmod_self_add (Int.ofNat_lt.mp hlt)]

/-! ## A writer's step -/

theorem Announces.writesSlot {commits' : List (ObjId × Commit)}
    (ha : Announces db commits msg d i c) (ho : SameObjects db db') (hsub : commits ⊆ commits') :
    Announces db' commits' msg d i c where
  slot := ha.slot
  lt := ha.lt
  oid := ha.oid.trans (ho.oid_eq i).symm
  idx := by
    rw [ho.bufferIdx_eq]
    exact ha.idx
  ring := (ho.inRing_iff i _).mpr ha.ring
  valid := ha.valid
  commit := hsub ha.commit
  stamp := ha.stamp
  sizeMax := by
    rw [ho.sizeMax_eq]
    exact ha.sizeMax
  fits := ha.fits

/-- A slot that has the stamp announced after a writer's step has had it before, and has
been left alone. -/
theorem Announces.keeps {commits' : List (ObjId × Commit)} (ha : Announces db commits msg d i c)
    (hp : Placed db) (hfound : db.findmetaById oid = some j)
    (hidx : (db.objmeta j).bufferIdx ≠ 0) (hw : WritesSlot db j commits' db')
    (hts : slotTs db'.heap (db.objmeta j) (db.objmeta j).next = invalidTs ∨
      slotTs db'.heap (db.objmeta j) (db.objmeta j).next = op.stamp db j)
    (hg : ¬ Restamps db oid op msg) (hk : SlotKeeps db' msg i) :
    SlotKeeps db msg i ∧ ∀ b : Nat, (b : Int) < (db.objmeta i).sizeMax →
      slotWindow db'.heap (db'.objmeta i) msg.histSlot b =
        slotWindow db.heap (db.objmeta i) msg.histSlot b := by
  unfold SlotKeeps at hk ⊢
  rw [hw.objects.slotTs_eq] at hk
  have hne : ¬ (i = j ∧ msg.histSlot = (db.objmeta j).next) := by
    rintro ⟨rfl, hslot⟩
    rw [hslot] at hk
    rcases hts with hinv | hstamp
    · exact ha.valid (hk.symm.trans hinv)
    · refine hg ⟨?_, ?_, ?_⟩ <;> rw [ha.slot, Int.toNat_natCast]
      · exact hfound
      · exact hslot.symm
      · exact hstamp.symm.trans hk
  rw [hp.slotTs_eq hw.elsewhere hidx ha.idx ha.ring hne] at hk
  refine ⟨hk, fun b hb => ?_⟩
  rw [hw.objects.window_eq]
  exact hp.window_eq hw.elsewhere hidx ha.idx ha.ring hne hb

theorem Fidelity.mono {s s' : RecState} (hf : Fidelity s) (hsub : s.commits ⊆ s'.commits)
    (hh : s'.handled = s.handled) : Fidelity s' := by
  intro hd hmem hu hsel
  rw [hh] at hmem
  obtain ⟨hrecord, herror⟩ := hf hd hmem hu hsel
  refine ⟨fun hup => ?_, herror⟩
  obtain ⟨c, hc, hrest⟩ := hrecord hup
  exact ⟨c, hsub hc, hrest⟩

theorem recInv_writer [Rounding] (hI : RecInv s) (hg : SlotGuard s (.writer h oid op))
    (hs : recStep opts s (.writer h oid op) = some s') : RecInv s' := by
  rcases recWriterStep_cases hI.placed hs with rfl | ⟨i, db', commits', pending', rfl, hfound, hidx,
    hw, hsub, hpending, hts⟩
  · exact hI
  refine ⟨hw.objects.placed hI.placed, hI.recorded.writesSlot hI.placed hidx hw hsub, ?_, ?_,
    hI.fidelity.mono hsub rfl⟩
  · rintro msg (hmsg | hrest)
    · rcases hpending msg hmsg with hold | hnew
      · exact hw.objects.namesSlot (hI.messages msg (Or.inl hold))
      · exact hw.objects.namesSlot hnew
    · exact hw.objects.namesSlot (hI.messages msg (Or.inr hrest))
  · have hphase := hI.phase
    show PhaseOk db' commits' s.recorder s.phase
    unfold SlotGuard at hg
    dsimp only at hg
    cases hph : s.phase with
    | receiving => trivial
    | dead => trivial
    | received msg freebuf =>
        rw [hph] at hphase
        exact hw.objects.namesSlot hphase
    | reading msg info d lost =>
        rw [hph] at hphase
        exact ⟨hw.objects.namesSlot hphase.1, hphase.2⟩
    | copying msg info d lost traceSlot objDataP =>
        rw [hph] at hphase hg
        refine ⟨hphase.1, fun ht => ?_⟩
        obtain ⟨j, c, ha, hslot, hptr, holen, hheld⟩ := hphase.2 ht
        refine ⟨j, c, ha.writesSlot hw.objects hsub, hslot, ?_, holen, fun hk => ?_⟩
        · obtain ⟨slot, hj⟩ := hw.objects j
          rw [hj]
          exact hptr
        · obtain ⟨hk', hsame⟩ := ha.keeps hI.placed hfound hidx hw hts hg hk
          refine (hheld hk').congr fun b hb => hsame b ?_
          have := ha.sizeMax
          omega
    | checking msg info d lost traceSlot =>
        rw [hph] at hphase hg
        refine ⟨hphase.1, fun ht => ?_⟩
        obtain ⟨j, c, ha, hslot, hheld⟩ := hphase.2 ht
        exact ⟨j, c, ha.writesSlot hw.objects hsub, hslot, fun hk =>
          hheld (ha.keeps hI.placed hfound hidx hw hts hg hk).1⟩

/-! ## The recorder's steps -/

/-- The end of the loop, for a message whose entries will be right. -/
theorem RecInv.finish {lost : List FileEntry} (hI : RecInv s)
    (hnew : ∀ r' written, recordEvent opts r msg info d = some (r', written) →
      msg.event = .updated → d.traceit = true →
      Handled.Faithful s.commits ⟨msg, d.traceit, lost ++ written⟩) :
    RecInv (s.finish opts r msg info d lost) := by
  unfold RecState.finish
  split
  · exact ⟨hI.placed, hI.recorded, hI.messages, trivial, hI.fidelity⟩
  · rename_i r' written hr
    refine ⟨hI.placed, hI.recorded, hI.messages, ?_, ?_⟩
    · dsimp only
      split <;> trivial
    intro hd hmem hu hsel
    rcases List.mem_cons.mp hmem with rfl | hmem
    · exact hnew r' written hr hu hsel
    · exact hI.fidelity hd hmem hu hsel

theorem RecInv.finishUpdate_error {lost : List FileEntry} {olen : Int} (hI : RecInv s)
    (hlost : NoData lost) (holen : olen < 0) :
    RecInv (s.finishUpdate opts olen msg info d lost) := by
  unfold RecState.finishUpdate updateError
  dsimp only
  rw [if_pos holen]
  refine hI.finish fun r' written hr hu ht => ?_
  obtain ⟨rfr, hrfr, rfl⟩ := recordEvent_some hr hu ht
  dsimp only
  rw [if_pos (Int.le_refl 0), List.append_assoc, List.singleton_append]
  exact faithful_error hlost (hrfr.append noData_nil)

theorem RecInv.finishUpdate_record {lost : List FileEntry} {olen : Int} (hI : RecInv s)
    (hlost : NoData lost)
    (hdata : d.traceit = true → 0 < olen ∧ ∃ c, (msg.oid, c) ∈ s.commits ∧ c.stamp = msg.ts ∧
      d.Fits c.size ∧ HoldsRecord s.recorder.objData c) :
    RecInv (s.finishUpdate opts olen msg info d lost) := by
  by_cases hneg : olen < 0
  · exact hI.finishUpdate_error hlost hneg
  unfold RecState.finishUpdate updateError
  dsimp only
  rw [if_neg hneg]
  refine hI.finish fun r' written hr hu ht => ?_
  obtain ⟨rfr, hrfr, rfl⟩ := recordEvent_some hr hu ht
  obtain ⟨hpos, c, hmem, hstamp, hfits, hheld⟩ := hdata ht
  dsimp only
  rw [if_neg (by omega), List.append_nil, ← List.append_assoc]
  exact faithful_record (hlost.append hrfr) hmem hstamp hfits hheld

theorem recInv_look [Rounding] (hI : RecInv s)
    (hs : recStep opts s .look = some s') : RecInv s' := by
  unfold recStep at hs
  dsimp only at hs
  split at hs
  · rename_i msg freebuf hph
    cases hs
    have hnames := hI.phase
    rw [hph] at hnames
    unfold recLookStep
    dsimp only
    generalize hlost : (if freebuf = 0 then [errorEntry msg.ts 0] else []) = lost
    have hno : NoData lost := by
      rw [← hlost]
      split
      · exact noData_error _ _
      · exact noData_nil
    split
    · refine ⟨hI.placed, hI.recorded, hI.messages, trivial, ?_⟩
      intro hd hmem hu hsel
      rcases List.mem_cons.mp hmem with rfl | hmem
      · exact faithful_error hno noData_nil
      · exact hI.fidelity hd hmem hu hsel
    · split
      · refine ⟨hI.placed, hI.recorded, hI.messages, trivial, ?_⟩
        intro hd hmem hu hsel
        rcases List.mem_cons.mp hmem with rfl | hmem
        · cases hsel
        · exact hI.fidelity hd hmem hu hsel
      · split
        · rename_i hu
          exact ⟨hI.placed, hI.recorded, hI.messages, ⟨hnames, hu, hno⟩, hI.fidelity⟩
        · rename_i hu
          exact hI.finish fun _ _ _ hu' _ => absurd hu' hu
  · cases hs

/-- The recorder's first look at the slot. The stamp that it finds is the one that it will
check. -/
theorem recInv_slotPtr [Rounding] (hI : RecInv s) (hg : SlotGuard s .slotPtr)
    (hs : recStep opts s .slotPtr = some s') : RecInv s' := by
  unfold recStep at hs
  dsimp only at hs
  split at hs
  · rename_i msg info d lost hph
    have hphase := hI.phase
    rw [hph] at hphase
    obtain ⟨hnames, hu, hlost⟩ := hphase
    obtain ⟨i, hslot, hi, hidx, hring⟩ := hnames hu
    unfold SlotGuard at hg
    dsimp only at hg
    rw [hph] at hg
    have hinfo : s.db.objmeta msg.objSlot.toNat = s.db.objmeta i := by
      rw [hslot, Int.toNat_natCast]
    split at hs
    · rename_i objDataP olen traceSlot hread
      by_cases hoid : msg.oid = (s.db.objmeta i).oid
      · rw [readdataslotPtr_eq hi hslot hoid (by decide)] at hread
        obtain ⟨hvalid, hr, htrace, -⟩ := readSlot_ok (slotPos_inRing hring) hread
        obtain ⟨hptr, hlen⟩ := Prod.mk.inj hr
        obtain ⟨c, hmem, hsize, hheld⟩ := hI.recorded i _ hidx hring hvalid
        have hcsize : slotSize s.db.heap (s.db.objmeta i) msg.histSlot = c.size :=
          hheld.read32_size
        have hpos : 0 < olen := by
          have h1 : olen = c.size := hlen.trans hcsize
          have := c.size_min
          omega
        rw [if_pos hpos] at hs
        cases hs
        refine ⟨hI.placed, hI.recorded, hI.messages, ⟨hlost, fun ht => ?_⟩, hI.fidelity⟩
        unfold StillThere at hg
        dsimp only at hg
        rw [hinfo] at hg
        obtain ⟨hts, hfits⟩ := hg ht hoid hvalid
        rw [hcsize] at hfits
        rw [← hoid] at hmem
        refine ⟨i, c, ⟨hslot, hi, hoid, hidx, hring, ?_, hmem, ?_, hsize, hfits⟩, ?_, hptr,
          hlen.trans hcsize, fun _ => hheld⟩
        · rw [← hts]
          exact hvalid
        · exact hheld.read64_stamp.symm.trans hts
        · have hts' : slotTs s.db.heap (s.db.objmeta i) msg.slot.historySlot = msg.ts := hts
          rw [htrace, hts']
          rfl
      · rw [readdataslotPtr_gone hi hslot hoid (by decide)] at hread
        cases hread
    · cases hs
      exact hI.finishUpdate_error hlost (Err.neg_code_neg _)
  · cases hs

theorem recInv_copy [Rounding] (hI : RecInv s)
    (hs : recStep opts s .copy = some s') : RecInv s' := by
  unfold recStep at hs
  dsimp only at hs
  split at hs
  · rename_i msg info d lost traceSlot objDataP hph
    cases hs
    have hphase := hI.phase
    rw [hph] at hphase
    obtain ⟨hlost, hslot⟩ := hphase
    refine ⟨hI.placed, hI.recorded, hI.messages, ⟨hlost, fun ht => ?_⟩, hI.fidelity⟩
    obtain ⟨i, c, ha, htrace, hptr, holen, hheld⟩ := hslot ht
    refine ⟨i, c, ha, htrace, fun hk b hb => ?_⟩
    have hn : (if s.recorder.olen < objDataBufSize then s.recorder.olen
        else objDataBufSize).toNat = c.size := by
      have hfits := ha.fits.1
      rw [holen]
      split <;> omega
    dsimp only
    rw [hn, Mem.copy_inside (by omega) (by omega), hptr, ← hheld hk b hb, Nat.sub_zero,
      Nat.zero_add]
    rfl
  · cases hs

/-- The check of the slot, with the stamp that was announced. -/
theorem recInv_recheck [Rounding] (hI : RecInv s) (hs : recStep opts s .recheck = some s') :
    RecInv s' := by
  unfold recStep at hs
  dsimp only at hs
  split at hs
  · rename_i msg info d lost traceSlot hph
    cases hs
    have hphase := hI.phase
    rw [hph] at hphase
    obtain ⟨hlost, hslot⟩ := hphase
    cases hread : readdataslotPtr s.db .checked 0 traceSlot with
    | mk res traceSlot' =>
        cases res with
        | error e => exact hI.finishUpdate_error hlost (Err.neg_code_neg e)
        | ok r =>
            refine hI.finishUpdate_record hlost fun ht => ?_
            obtain ⟨i, c, ha, rfl, hheld⟩ := hslot ht
            rw [readdataslotPtr_eq ha.lt ha.slot ha.oid (by decide)] at hread
            obtain ⟨hvalid, hr, -, hcheck⟩ := readSlot_ok (slotPos_inRing ha.ring) hread
            have hkeeps : SlotKeeps s.db msg i := (checkSlots_none (hcheck rfl)).1
            obtain ⟨c', -, -, hheld'⟩ := hI.recorded i _ ha.idx ha.ring hvalid
            refine ⟨?_, c, ha.commit, ha.stamp, ha.fits, hheld hkeeps⟩
            have hsize : slotSize s.db.heap (s.db.objmeta i) msg.histSlot = c'.size :=
              hheld'.read32_size
            have hlen : olenOf (.ok r) = c'.size := by
              rw [hr]
              exact hsize
            have := c'.size_min
            dsimp only
            omega
  · cases hs

/-- A message on its way after a step of the queue was so before, or is just being sent. -/
theorem TraceMove.onItsWay {t t' : TraceState} {top : TraceOp} (hm : TraceMove t top t')
    (hmsg : msg ∈ t'.buf.messages ∨ ∃ k, t'.receiver = .taken k msg) :
    (msg ∈ t.buf.messages ∨ ∃ k, t.receiver = .taken k msg) ∨ top = .send msg := by
  cases hm with
  | drop m hdrop => exact Or.inl hmsg
  | refuse m => exact Or.inl hmsg
  | send m hroom =>
      rcases hmsg with hmsg | htaken
      · rcases List.mem_append.mp hmsg with hold | hnew
        · exact Or.inl (Or.inl hold)
        · rw [List.mem_singleton.mp hnew]
          exact Or.inr rfl
      · exact Or.inl (Or.inr htaken)
  | count hr =>
      rcases hmsg with hmsg | ⟨k, hk⟩
      · exact Or.inl (Or.inl hmsg)
      · cases hk
  | take hr hq =>
      rw [hq]
      rcases hmsg with hmsg | ⟨k, hk⟩
      · exact Or.inl (Or.inl (List.mem_cons_of_mem _ hmsg))
      · cases hk
        exact Or.inl (Or.inl List.mem_cons_self)
  | recount hr =>
      rcases hmsg with hmsg | ⟨k, hk⟩
      · exact Or.inl (Or.inl hmsg)
      · cases hk

theorem recInv_announce [Rounding] {k : Nat} (hI : RecInv s)
    (hs : recStep opts s (.announce k) = some s') : RecInv s' := by
  unfold recStep at hs
  dsimp only at hs
  obtain ⟨msg, hmsg, hs⟩ := Option.bind_eq_some_iff.mp hs
  obtain ⟨trace, htrace, rfl⟩ := Option.map_eq_some_iff.mp hs
  refine ⟨hI.placed, hI.recorded, ?_, hI.phase, hI.fidelity⟩
  rintro msg' (hpending | hrest)
  · exact hI.messages msg' (Or.inl (List.mem_of_mem_eraseIdx hpending))
  · rcases (traceStep_move htrace).onItsWay hrest with hold | hsend
    · exact hI.messages msg' (Or.inr hold)
    · cases hsend
      exact hI.messages msg (Or.inl (List.mem_of_getElem? hmsg))

theorem recInv_receive [Rounding] {top : TraceOp} (hI : RecInv s)
    (hs : recStep opts s (.receive top) = some s') : RecInv s' := by
  unfold recStep at hs
  dsimp only at hs
  split at hs
  · cases hs
  · rename_i hph hsend
    obtain ⟨trace, htrace, rfl⟩ := Option.map_eq_some_iff.mp hs
    refine ⟨hI.placed, hI.recorded, ?_, ?_, hI.fidelity⟩
    · rintro msg' (hpending | hrest)
      · exact hI.messages msg' (Or.inl hpending)
      · rcases (traceStep_move htrace).onItsWay hrest with hold | rfl
        · exact hI.messages msg' (Or.inr hold)
        · exact absurd rfl (hsend msg')
    · dsimp only
      split
      · rename_i k msg hr
        exact hI.messages msg (Or.inr (Or.inr ⟨k, hr⟩))
      · trivial
  · cases hs

theorem recInv_step [Rounding] {rop : RecOp} (hI : RecInv s) (hg : SlotGuard s rop)
    (hs : recStep opts s rop = some s') : RecInv s' := by
  cases rop with
  | writer h oid op => exact recInv_writer hI hg hs
  | announce k => exact recInv_announce hI hs
  | receive top => exact recInv_receive hI hs
  | look => exact recInv_look hI hs
  | slotPtr => exact recInv_slotPtr hI hg hs
  | copy => exact recInv_copy hI hs
  | recheck => exact recInv_recheck hI hs

/-- The recording is faithful in every run in which the slot of a message, if it has a stamp
when the recorder first looks at it, still has the one announced, and does not get it back
once it has lost it. -/
theorem fidelity_of_guarded [Rounding] (h : (recLts opts).Guarded SlotGuard s) : Fidelity s := by
  have hinv : RecInv s := by
    refine h.invariant (I := RecInv) ?_ fun s op s' hI hg hs => recInv_step hI hg hs
    rintro s ⟨hplaced, hrecorded, hpending, hqueue, hreceiver, hphase, hhandled⟩
    refine ⟨hplaced, hrecorded, ?_, ?_, ?_⟩
    · rintro msg (hmsg | hmsg | ⟨k, hk⟩)
      · rw [hpending] at hmsg
        cases hmsg
      · exact hqueue msg hmsg
      · rw [hreceiver] at hk
        cases hk
    · rw [hphase]
      trivial
    · intro hd hmem
      rw [hhandled] at hmem
      cases hmem
  exact hinv.fidelity

/-! ## Two recordings -/

instance (d : Decision) (size : Int) : Decidable (d.Fits size) := by
  unfold Decision.Fits
  infer_instance

instance (db : Db) (msg : TraceMsg) (d : Decision) : Decidable (StillThere db msg d) := by
  unfold StillThere
  infer_instance

instance (db : Db) (oid : ObjId) (op : WriterOp) (msg : TraceMsg) :
    Decidable (Restamps db oid op msg) := by
  unfold Restamps
  infer_instance

instance (s : RecState) : DecidablePred (SlotGuard s) := fun rop => by
  unfold SlotGuard
  cases rop <;> dsimp only <;> (try split) <;> infer_instance

/-- An object with two slots and no records, and a recorder of all objects. -/
def recStart : RecState where
  db := historyDb
  commits := []
  pending := []
  trace := { buf := ⟨10, true, []⟩, receiver := .idle, log := [] }
  recorder :=
    { stack := ⟨objDataBufSize, Int.le_refl _⟩, objData := .zero, olen := 0, knownid := [],
      lostMessages := 0, eventsTotal := 0,
      eventsTotalWritten := 0 }
  phase := .receiving
  handled := []

theorem recStart_init [Rounding] (opts : RecOptions) : (recLts opts).init recStart := by
  have hidx : ∀ i, (historyDb.objmeta i).bufferIdx ≠ 0 → i = 0 := fun i hi => by
    by_contra hne
    exact hi (by simp [historyDb, hne])
  refine ⟨⟨fun i hi => ?_, fun i j hij hi hj => ?_⟩, fun i slot _ _ hts => ?_, rfl, fun _ hm => ?_,
    rfl, rfl, rfl⟩
  · rw [hidx i hi]
    exact ⟨2, historyDb_fresh.block⟩
  · exact absurd ((hidx i hi).trans (hidx j hj).symm) hij
  · exact absurd (by decide : Mem.zero.read64 0 = invalidTs) hts
  · cases hm

def commitAndAnnounce (committedTs : Timestamp) : List RecOp :=
  [.writer ⟨1, false⟩ 5 (.writedata historyRecord committedTs), .announce 0]

/-- The recorder takes a message that announces a commit and handles it. -/
def recordOne : List RecOp :=
  [.receive .count, .receive .take, .receive .recount, .look, .slotPtr, .copy, .recheck]

/-- What is told of the data of an entry: the stamp in its header and the place in the
record. -/
def DataPart.header (p : DataPart) : Timestamp × Int × Int :=
  (p.objData.read64 0, p.offset, p.size)

/-- The recorder is one message behind. -/
theorem fidelity_of_guarded_behind :
    ∃ s, (recLts { doAll := true }).Guarded SlotGuard s ∧ Fidelity s ∧
      (s.handled.map fun hd => (hd.written.filterMap FileEntry.part).map DataPart.header) =
        [[(0x100000002, 0, 32)], [(0x100000001, 0, 32)]] := by
  obtain ⟨s, hr, hp⟩ := (recLts { doAll := true }).exists_of_execGuarded (G := SlotGuard)
    (g := fun s op => decide (SlotGuard s op)) (fun _ _ => of_decide_eq_true)
    (commitAndAnnounce 0x100000001 ++ commitAndAnnounce 0x100000002 ++ recordOne ++ recordOne)
    (fun s => decide
      ((s.handled.map fun hd => (hd.written.filterMap FileEntry.part).map DataPart.header) =
        [[(0x100000002, 0, 32)], [(0x100000001, 0, 32)]]))
    (s := recStart) (recStart_init _) (by decide +kernel)
  exact ⟨s, hr, fidelity_of_guarded hr, of_decide_eq_true hp⟩

theorem WritesRecord.stamp {p : DataPart} (hw : WritesRecord c 0 [p]) :
    p.objData.read64 0 = c.stamp := by
  obtain ⟨-, -, -, hdata, hend⟩ := hw
  have hend : (0 : Int) + p.size = c.size := hend
  exact HoldsRecord.read64_stamp fun b hb => hdata b (by omega) (by omega)

/-- The ring comes around before the recorder takes the first message: it writes the third
record with the stamp of the first. -/
theorem exists_not_fidelity :
    ∃ s, (recLts { doAll := true }).Reachable s ∧ ¬ Fidelity s := by
  obtain ⟨s, hr, hp⟩ := (recLts { doAll := true }).exists_of_exec
    (commitAndAnnounce 0x100000001 ++ commitAndAnnounce 0x100000002 ++
      commitAndAnnounce 0x100000003 ++ recordOne)
    (fun s => decide (∃ hd ∈ s.handled, hd.msg.event = .updated ∧ hd.selected = true ∧
      hd.msg.ts = 0x100000001 ∧ (∃ e ∈ hd.written, e.IsUpdate hd.msg.ts hd.msg.oid) ∧
      (hd.written.filterMap FileEntry.part).map DataPart.header = [(0x100000003, 0, 32)]))
    (s := recStart) (recStart_init _) (by decide +kernel)
  obtain ⟨hd, hmem, hu, hsel, hts, hup, hparts⟩ := of_decide_eq_true hp
  refine ⟨s, hr, fun hf => ?_⟩
  obtain ⟨c, -, hstamp, hwrites⟩ := (hf hd hmem hu hsel).record hup
  obtain ⟨p, hp, hheader⟩ := List.map_eq_singleton_iff.mp hparts
  rw [hp] at hwrites
  have hold : p.objData.read64 0 = 0x100000001 := hwrites.stamp.trans (hstamp.trans hts)
  have hnew : p.objData.read64 0 = 0x100000003 := congrArg Prod.fst hheader
  exact absurd (hold.symm.trans hnew) (by decide)

end KogmoRtdb
