import KogmoRtdb.Trace.Queue
import KogmoRtdb.Meta.Searchinfo
import KogmoRtdb.DataPath.ObjdataSlot
import KogmoRtdb.DataPath.Writer

/-!
# The recorder

The loop of `kogmo_rtdb_record.c` after its initial phase, with a file to write to. It takes
a message from the trace queue, looks up the object's metadata, decides by its options
whether to record the object, and for an update reads the history slot that the message
names: a pointer to it, a copy, and the check of the slot, each at a moment of its own.

Left out are the options `-W` and `-s`, the messages for the terminal and the recorder's
status object, whose updates are those of one more writer.
-/

namespace KogmoRtdb

/-! ## The file -/

/-- `KOGMO_RTDB_STREAM_TYPE_*`. -/
inductive StreamType where
  | addobj | delobj | updobj | updobjNext | rfrobj | chgobj | error
  deriving DecidableEq, Repr

/-- The data of a chunk: none, an object's metadata, or the first `size` bytes of the buffer
for object data. -/
inductive ChunkData where
  | empty
  | info (objInfo : ObjInfo)
  | object (objData : Mem) (size : Int)

/-- What `aviraw_fput_rtdb` writes. -/
structure Chunk where
  ts : Timestamp
  oid : ObjId
  type : StreamType
  data : ChunkData

/-- The file is a sequence of chunks of the RTDB, of a video stream, and of junk; the last
two hold `size` bytes of the buffer from `offset` on. -/
inductive FileEntry where
  | rtdb (chunk : Chunk)
  | stream (stream : Nat) (objData : Mem) (offset size : Int)
  | junk (objData : Mem) (offset size : Int)

def errorEntry (ts : Timestamp) (oid : ObjId) : FileEntry :=
  .rtdb { ts := ts, oid := oid, type := .error, data := .empty }

/-! ## Options -/

/-- The options that select objects, and `do_log`. A stream's oid is 0 if there is none. -/
structure RecOptions where
  doAll : Bool := false
  doLog : Bool := false
  oidList : List ObjId := []
  tidList : List Int := []
  nameList : List ObjName := []
  xoidList : List ObjId := []
  xtidList : List Int := []
  xnameList : List ObjName := []
  oidStream : List ObjId := []
  doRaw : Int := 0

/-- `strncmp` with `KOGMO_RTDB_OBJMETA_NAME_MAXLEN` finds no difference. -/
def sameName (name name' : ObjName) : Bool := name.take nameMaxlen = name'.take nameMaxlen

/-- What is to be done with an object: whether to record it, as which stream (from 1 on, 0
for none), and whether raw. -/
structure Decision where
  traceit : Bool
  streamit : Nat
  junkit : Bool
  deriving DecidableEq, Repr

/-- The objects of the player and the recorder: `KOGMO_RTDB_OBJTYPE_C3_*` and a name. -/
def ownObjects : List (Int × ObjName) :=
  [(0xC30008, "playerstat".toList), (0xC30009, "playerctrl".toList),
    (0xC30006, "recorderstat".toList), (0xC30007, "recorderctrl".toList)]

def decideTrace (opts : RecOptions) (oid : ObjId) (info : ObjInfo) : Decision :=
  let own := ownObjects.any fun (otype, name) => info.otype = otype && sameName name info.name
  let listed := (opts.doAll && !own) || opts.oidList.any (fun o => o ≠ 0 && o = oid) ||
    opts.tidList.any (fun t => t ≠ 0 && t = info.otype) ||
    opts.nameList.any (fun n => sameName n info.name)
  let excluded := opts.xoidList.any (fun o => o ≠ 0 && o = oid) ||
    opts.xtidList.any (fun t => t ≠ 0 && t = info.otype) ||
    opts.xnameList.any (fun n => sameName n info.name)
  let stream := opts.oidStream.findIdx? fun o => o ≠ 0 && o = oid
  { traceit := (listed && !excluded) || stream.isSome
    streamit := stream.elim 0 (· + 1)
    junkit := opts.doRaw ≠ 0 && opts.doRaw = info.otype }

/-! ## Handling a message -/

/-- `obj_data_size`, and the size of the buffer `obj_data`. -/
def objDataSize : Int := 16 * 1024 * 1024
def objDataBufSize : Int := 24 + objDataSize

/-- How many bytes there are to be read from `obj_data` on, an array of `main` on the stack:
the array and what is behind it. -/
abbrev StackBytes := { n : Int // objDataBufSize ≤ n }

/-- The recorder's variables that outlive a message, and the room on its stack. -/
structure Recorder where
  stack : StackBytes
  objData : Mem
  olen : Int
  knownid : List ObjId
  lostMessages : Nat
  eventsTotal : Nat
  eventsTotalWritten : Nat

/-- `known_obj` with a positive oid; `none` when the list is full and the recorder dies. -/
def knownObj (knownid : List ObjId) (oid : ObjId) : Option (Bool × List ObjId) :=
  if oid ∈ knownid then some (true, knownid)
  else if knownid.length < idlistMax then some (false, knownid ++ [oid])
  else none

/-- `kogmo_rtdb_obj_readinfo`, which runs under the metadata lock. -/
def infoAt (db : Db) (oid : ObjId) (ts : Timestamp) : Option ObjInfo :=
  match db.findmetaById oid with
  | none => none
  | some i => if (db.objmeta i).hidden ts then none else some (db.objmeta i)

def TraceMsg.slot (msg : TraceMsg) : ObjSlot where
  oid := msg.oid
  committedTs := msg.ts
  objectSlot := msg.objSlot
  historySlot := msg.histSlot

def olenOf : Except Err (Int × Int) → Int
  | .ok (_, size) => size
  | .error e => -e.code

/-- The entries for the data of an update: a chunk with all of it, or one with its header and
the rest as a stream or as junk. `48` is the size of `kogmo_rtdb_obj_a2_image_t`. -/
def updateEntries (msg : TraceMsg) (d : Decision) (objData : Mem) : List FileEntry :=
  let baseSize := (objData.read32 20).toInt
  let entry (type : StreamType) (size : Int) : FileEntry :=
    .rtdb { ts := msg.ts, oid := msg.oid, type := type, data := .object objData size }
  if d.streamit ≠ 0 then
    [entry .updobjNext (if d.junkit then 24 else 48),
      .stream (d.streamit - 1) objData 48 (baseSize - 48)]
  else if d.junkit then [entry .updobjNext 24, .junk objData 24 (baseSize - 24)]
  else [entry .updobj baseSize]

/-- `fwrite` writes the one item that it is given: `size` bytes of `obj_data` from `offset`
on. A negative size is a huge one, and there are no items of size 0. -/
def Recorder.fwriteOk (r : Recorder) (offset size : Int) : Bool :=
  0 < size && offset + size ≤ r.stack

/-- The recorder dies at the data of an update. The size is that of the record, which may be
larger than `obj_data`; only the chunk of a whole record may be empty. -/
def Recorder.updateFails (r : Recorder) (d : Decision) : Bool :=
  let baseSize := (r.objData.read32 20).toInt
  if d.streamit ≠ 0 then !r.fwriteOk 48 (baseSize - 48)
  else if d.junkit then !r.fwriteOk 24 (baseSize - 24)
  else baseSize ≠ 0 && !r.fwriteOk 0 baseSize

def eventEntries (msg : TraceMsg) (info : ObjInfo) (d : Decision) (objData : Mem) :
    List FileEntry :=
  let entry (type : StreamType) : FileEntry :=
    .rtdb { ts := msg.ts, oid := msg.oid, type := type, data := .info info }
  match msg.event with
  | .inserted => [entry .addobj]
  | .changed => [entry .chgobj]
  | .deleted => [entry .delobj]
  | .updated => updateEntries msg d objData

/-- A message that has been handled, whether its object was selected, and what has been
written for it. -/
structure Handled where
  msg : TraceMsg
  selected : Bool
  written : List FileEntry

/-- The rest of the loop, once `olen` is known; `none` when the recorder dies before it writes
anything. -/
def recordEvent (opts : RecOptions) (r : Recorder) (msg : TraceMsg) (info : ObjInfo)
    (d : Decision) : Option (Recorder × List FileEntry) :=
  let r : Recorder := if opts.doLog ∧ msg.event = .deleted then
    { r with knownid := r.knownid.filter (· ≠ msg.oid) } else r
  if d.traceit = false then some (r, [])
  else
    let r : Recorder := { r with eventsTotalWritten := r.eventsTotalWritten + 1 }
    let known := if msg.event = .updated then knownObj r.knownid msg.oid else some (true, r.knownid)
    known.map fun (isKnown, knownid) =>
      let rfr : List FileEntry := if isKnown then [] else
        [.rtdb { ts := msg.ts, oid := msg.oid, type := .rfrobj, data := .info info }]
      let entries : List FileEntry :=
        if r.olen ≤ 0 then [] else eventEntries msg info d r.objData
      ({ r with knownid := knownid }, rfr ++ entries)

def Recorder.Dies (r : Recorder) (msg : TraceMsg) (d : Decision) : Prop :=
  msg.event = .updated ∧ d.traceit = true ∧ 0 < r.olen ∧ r.updateFails d = true

instance (r : Recorder) (msg : TraceMsg) (d : Decision) : Decidable (r.Dies msg d) :=
  inferInstanceAs (Decidable (_ ∧ _))

/-- An update whose data could not be read is marked in the file. -/
def updateError (r : Recorder) (msg : TraceMsg) : Recorder × List FileEntry :=
  if r.olen < 0 then
    ({ r with olen := 0, lostMessages := r.lostMessages + 1 }, [errorEntry msg.ts msg.oid])
  else (r, [])

/-! ## The loop, step by step -/

inductive RecPhase where
  | receiving
  | received (msg : TraceMsg) (freebuf : Int)
  | reading (msg : TraceMsg) (info : ObjInfo) (d : Decision) (lost : List FileEntry)
  | copying (msg : TraceMsg) (info : ObjInfo) (d : Decision) (lost : List FileEntry)
      (traceSlot : ObjSlot) (objDataP : Int)
  | checking (msg : TraceMsg) (info : ObjInfo) (d : Decision) (lost : List FileEntry)
      (traceSlot : ObjSlot)
  | dead

/-- The database and the commits to its objects, what the writers have stored and not yet
announced, the queue, and the recorder with the messages it has handled, newest first. -/
structure RecState where
  db : Db
  commits : List (ObjId × Commit)
  pending : List TraceMsg
  trace : TraceState
  recorder : Recorder
  phase : RecPhase
  handled : List Handled

inductive RecOp where
  | writer (h : Handle) (oid : ObjId) (op : WriterOp)
  | announce (k : Nat)
  | receive (op : TraceOp)
  | look
  | slotPtr
  | copy
  | recheck

/-- A writer's step. A commit is announced by a step of its own. -/
def recWriterStep [Rounding] (s : RecState) (h : Handle) (oid : ObjId)
    (op : WriterOp) : Option RecState :=
  match op.run h oid s.db, s.db.findmetaById oid with
  | some (db, false), _ => some { s with db := db }
  | some (db, true), some i =>
      match slotCommit db.heap (s.db.objmeta i) (s.db.objmeta i).next with
      | none => none
      | some c =>
          let msg : TraceMsg :=
            { oid := oid, ts := c.stamp, event := .updated, objSlot := i,
              histSlot := (s.db.objmeta i).next }
          some { s with
            db := db
            commits := (oid, c) :: s.commits
            pending := s.pending ++ [msg] }
  | _, _ => none

def RecState.finish (s : RecState) (opts : RecOptions) (r : Recorder) (msg : TraceMsg)
    (info : ObjInfo) (d : Decision) (lost : List FileEntry) : RecState :=
  match recordEvent opts r msg info d with
  | none => { s with recorder := r, phase := .dead }
  | some (r', written) =>
      { s with
        recorder := r'
        phase := if r.Dies msg d then .dead else .receiving
        handled := ⟨msg, d.traceit, lost ++ written⟩ :: s.handled }

/-- An update whose data has been read, or could not be. -/
def RecState.finishUpdate (s : RecState) (opts : RecOptions) (olen : Int) (msg : TraceMsg)
    (info : ObjInfo) (d : Decision) (lost : List FileEntry) : RecState :=
  let (r, error) := updateError { s.recorder with olen := olen } msg
  s.finish opts r msg info d (lost ++ error)

/-- A message has been received, and `freebuf` with it. -/
def recLookStep (s : RecState) (opts : RecOptions) (msg : TraceMsg) (freebuf : Int) : RecState :=
  let lost := if freebuf = 0 then [errorEntry msg.ts 0] else []
  let r := if freebuf = 0 then
    { s.recorder with lostMessages := s.recorder.lostMessages + 1 } else s.recorder
  match infoAt s.db msg.oid msg.ts with
  | none =>
      { s with
        recorder := { r with lostMessages := r.lostMessages + 1 }
        phase := .receiving
        handled := ⟨msg, true, lost ++ [errorEntry msg.ts msg.oid]⟩ :: s.handled }
  | some info =>
      let r := { r with eventsTotal := r.eventsTotal + 1 }
      let d := decideTrace opts msg.oid info
      if d.traceit = false ∧ opts.doLog = false then
        { s with
          recorder := r
          phase := .receiving
          handled := ⟨msg, false, lost⟩ :: s.handled }
      else if msg.event = .updated then
        { s with recorder := r, phase := .reading msg info d lost }
      else s.finish opts r msg info d lost

def recStep [Rounding] (opts : RecOptions) (s : RecState) : RecOp → Option RecState
  | .writer h oid op => recWriterStep s h oid op
  | .announce k =>
      (s.pending[k]?).bind fun msg =>
        (traceStep s.trace (.send msg)).map fun trace =>
          { s with trace := trace, pending := s.pending.eraseIdx k }
  | .receive op =>
      match s.phase, op with
      | .receiving, .send _ => none
      | .receiving, op =>
          (traceStep s.trace op).map fun trace =>
            { s with
              trace := trace
              phase :=
                match op, s.trace.receiver with
                | .recount, .taken msgcount1 msg =>
                    .received msg (freeBuf s.trace.buf msgcount1 s.trace.buf.messages.length)
                | _, _ => .receiving }
      | _, _ => none
  | .look =>
      match s.phase with
      | .received msg freebuf => some (recLookStep s opts msg freebuf)
      | _ => none
  | .slotPtr =>
      match s.phase with
      | .reading msg info d lost =>
          match readdataslotPtr s.db .unchecked 0 msg.slot with
          | (.ok (objDataP, olen), traceSlot) =>
              if 0 < olen then
                some { s with
                  recorder := { s.recorder with olen := olen }
                  phase := .copying msg info d lost traceSlot objDataP }
              else some (s.finishUpdate opts olen msg info d lost)
          | (.error e, _) => some (s.finishUpdate opts (-e.code) msg info d lost)
      | _ => none
  | .copy =>
      match s.phase with
      | .copying msg info d lost traceSlot objDataP =>
          let olen := s.recorder.olen
          let n := if olen < objDataBufSize then olen else objDataBufSize
          some { s with
            recorder := { s.recorder with
              objData := s.recorder.objData.copy 0 (s.db.heap.window objDataP) 0 n.toNat }
            phase := .checking msg info d lost traceSlot }
      | _ => none
  | .recheck =>
      match s.phase with
      | .checking msg info d lost traceSlot =>
          let res := (readdataslotPtr s.db .checked 0 traceSlot).1
          some (s.finishUpdate opts (olenOf res) msg info d lost)
      | _ => none

end KogmoRtdb
