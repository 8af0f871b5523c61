import KogmoRtdb.Record.AviIdx
import KogmoRtdb.Record.OidMap
import KogmoRtdb.Record.TimeIdx

/-!
# The player

The loop of `kogmo_rtdb_play.c` over the chunks of a file. The metadata of an object decide, with
the options, where it is inserted or that it is not played; its later chunks look that up. The
header of a frame is kept until the frame comes.

Positions are numbers of chunks. Where a jump goes, what the database answers to an insert, the
time and when the control object changes are inputs, and so is what a chunk without metadata finds
in their place. Left out are the speed of playing, the messages, the time index and `-x`.
-/

namespace KogmoRtdb

/-! ## The file and the options -/

/-- A chunk as the recorder writes it, or one that the player passes over. -/
inductive PlayChunk where
  | entry (e : FileEntry)
  | other

/-- The options that select objects, whether there is a database or a file to copy to, and
`playeroid`. -/
structure PlayOptions where
  tidList : List Int := []
  nameList : List ObjName := []
  xtidList : List Int := []
  xnameList : List ObjName := []
  doDb : Bool := true
  doOutput : Bool := false
  playeroid : ObjId := 0

/-- `playit`: `-t` and `-n` change the default. -/
def playit (opts : PlayOptions) (info : ObjInfo) : Bool :=
  let default := opts.tidList.isEmpty && opts.nameList.isEmpty
  let listed := opts.tidList.any (fun t => t ≠ 0 && t = info.otype) ||
    opts.nameList.any (fun n => sameName n info.name)
  let excluded := opts.xtidList.any (fun t => t ≠ 0 && t = info.otype) ||
    opts.xnameList.any (fun n => sameName n info.name)
  (default || listed) && !excluded

/-! ## The variables -/

/-- Whether the loop is running, was left, or the player died in it. -/
inductive PlayPhase where
  | reading
  | left
  | dead
  deriving DecidableEq

/-- The variables of the loops. `frameGo` counts the frames to go for `frameOid`, and `preBuf` has
`next_prebuf_size` bytes. -/
structure Player where
  pos : Nat
  phase : PlayPhase
  /-- `rtdbchunk != NULL` -/
  seenRtdb : Bool
  initPhase : InitPhase
  initialTs : Timestamp
  doPause : Bool
  doScan : Bool
  doLoop : Bool
  doKeepcreated : Bool
  doBegin : Timestamp
  doEnd : Timestamp
  doGoto : Timestamp
  frameGo : Int
  frameOid : ObjId
  rawnextFrameGo : Bool
  map : OidMap
  rawnextOid : ObjId
  preBuf : List Byte

/-- A call of the database, for an object of the recording. The data of a frame follow those of
its header. -/
inductive PlayCall where
  | insert (src : ObjId) (info : ObjInfo)
  | delete (src dest : ObjId)
  | writedata (src dest : ObjId) (data : List Byte)
  | writeframe (src dest : ObjId) (header data : List Byte)

/-- What comes of a chunk: the variables then, the calls, whether the chunk was copied, and whether
it was a header that is kept. -/
structure PlayDone where
  player : Player
  calls : List PlayCall := []
  copied : Bool := false
  kept : Bool := false

/-- What the player is told in a pass: the answer to an insert, the time, and the metadata that
`buf` has if the chunk has none. -/
structure PlayAnswer where
  destoid : Int := 0
  now : Timestamp := 0
  buf : ObjInfo := {}

/-! ## The chunks of the RTDB -/

/-- `info_p`. -/
def Chunk.info (c : Chunk) (buf : ObjInfo) : ObjInfo :=
  match c.data with
  | .info info => info
  | _ => buf

/-- `base_p`, with `size` bytes. What the model keeps of metadata is not in bytes, but it is more
than a header may have. -/
def Chunk.base (c : Chunk) : List Byte :=
  match c.data with
  | .empty => []
  | .info _ => List.replicate infoSize 0
  | .object objData size => objData.bytes 0 size.toNat

/-- `map_add`; without a free place the player dies. -/
def Player.mapAdd (s : Player) (src dest : ObjId) : Player :=
  match s.map.add src dest with
  | some map => { s with map := map }
  | none => { s with phase := .dead }

/-- The metadata with which an object is inserted. Its parent is the player if it is not played
itself. -/
def insertInfo (opts : PlayOptions) (map : OidMap) (info : ObjInfo) : ObjInfo :=
  let tmpoid := map.querydest info.parentOid
  { info with
    oid := 0
    parentOid := if tmpoid ≠ 0 then tmpoid else opts.playeroid
    flags := { info.flags with cycleWatch := false } }

/-- `KOGMO_RTDB_STREAM_TYPE_ADDOBJ`, `_RFROBJ` and `_CHGOBJ`. -/
def playMeta (opts : PlayOptions) (destoid : Int) (info : ObjInfo) (s : Player) : PlayDone :=
  let copied := opts.doOutput && playit opts info
  let oid := info.oid
  if s.map.contains oid then { player := s, copied := copied }
  else if playit opts info = false then { player := s.mapAdd oid 0, copied := copied }
  else if opts.doDb = false then { player := s.mapAdd oid 1, copied := copied }
  else
    { player := s.mapAdd oid (if destoid < 0 then 0 else destoid)
      calls := [.insert oid (insertInfo opts s.map info)]
      copied := copied }

/-- `KOGMO_RTDB_STREAM_TYPE_DELOBJ`. -/
def playDel (opts : PlayOptions) (info : ObjInfo) (s : Player) : PlayDone :=
  let oid := info.oid
  let destoid := s.map.querydest oid
  let s := { s with map := s.map.del oid }
  if destoid = 0 then { player := s }
  else if opts.doDb = false then { player := s, copied := opts.doOutput }
  else
    { player := { s with map := s.map.del oid }
      calls := [.delete oid destoid]
      copied := opts.doOutput }

/-- A record whose `data_ts` has the same distance from `now` as it had from `committed_ts`. -/
def restamp (now : Timestamp) (base : List Byte) : List Byte :=
  let m := Mem.ofBytes base
  base.take 12 ++ Mem.le64 (m.read64 12 + (now - m.read64 0)) ++ base.drop 20

/-- `KOGMO_RTDB_STREAM_TYPE_UPDOBJ`. -/
def playUpd (opts : PlayOptions) (now : Timestamp) (c : Chunk) (s : Player) : PlayDone :=
  let oid := s.map.querydest c.oid
  if oid = 0 then { player := s }
  else
    { player := if oid = s.frameOid ∧ 0 < s.frameGo then { s with frameGo := s.frameGo - 1 } else s
      calls := if opts.doDb then [.writedata c.oid oid (restamp now c.base)] else []
      copied := opts.doOutput }

/-- `PREBUFSZ`. -/
def preBufMax : Nat := 48

/-- `KOGMO_RTDB_STREAM_TYPE_UPDOBJ_NEXT`. -/
def playNext (opts : PlayOptions) (c : Chunk) (s : Player) : PlayDone :=
  let oid := s.map.querydest c.oid
  if oid = 0 then { player := s }
  else if preBufMax < c.base.length then { player := { s with phase := .dead } }
  else
    { player :=
        { s with
          rawnextOid := c.oid
          preBuf := c.base
          rawnextFrameGo := s.rawnextFrameGo || (oid = s.frameOid && 0 < s.frameGo) }
      copied := opts.doOutput
      kept := true }

/-- The `switch`. -/
def playSwitch (opts : PlayOptions) (ans : PlayAnswer) (c : Chunk) (s : Player) : PlayDone :=
  match c.type with
  | .addobj => playMeta opts ans.destoid (c.info ans.buf) s
  | .rfrobj => playMeta opts ans.destoid (c.info ans.buf) s
  | .chgobj => playMeta opts ans.destoid (c.info ans.buf) s
  | .delobj => playDel opts (c.info ans.buf) s
  | .updobj => playUpd opts ans.now c s
  | .updobjNext => playNext opts c s
  | .error => { player := s, copied := opts.doOutput }

/-- The end of the initialization phase is reached as soon as the time stamps begin to
increase. -/
def Player.endInit (s : Player) (c : Chunk) : Player :=
  if s.initPhase ≠ .over ∧ c.type ≠ .error then
    let initialTs := if s.initPhase = .first then c.ts else s.initialTs
    { s with
      initialTs := initialTs
      initPhase := if c.ts ≠ initialTs then .over else .same }
  else s

def Player.Skips (s : Player) (c : Chunk) : Prop :=
  s.doGoto ≠ 0 ∧ s.doScan = false ∧ s.initPhase = .over ∧ c.ts.toInt < s.doGoto.toInt

instance (s : Player) (c : Chunk) : Decidable (s.Skips c) := inferInstanceAs (Decidable (_ ∧ _))

/-- The end of playing, a search forward, and its end, come before the `switch`. -/
def playTimed (opts : PlayOptions) (ans : PlayAnswer) (c : Chunk) (s : Player) : PlayDone :=
  if s.doEnd ≠ 0 ∧ s.doEnd.toInt < c.ts.toInt then { player := { s with phase := .left } }
  else if s.Skips c then { player := s }
  else if s.doGoto ≠ 0 ∧ s.doGoto.toInt ≤ c.ts.toInt then
    let s := { s with doGoto := 0 }
    if s.doPause ∧ s.doScan = false then { player := s }
    else playSwitch opts ans c s
  else playSwitch opts ans c s

def playChunk (opts : PlayOptions) (ans : PlayAnswer) (c : Chunk) (s : Player) : PlayDone :=
  playTimed opts ans c ({ s with seenRtdb := true }.endInit c)

/-! ## Frames -/

def Player.countFrame (s : Player) : Player :=
  if s.rawnextFrameGo ∧ 0 < s.frameGo then
    { s with rawnextFrameGo := false, frameGo := s.frameGo - 1 }
  else s

/-- A `0Xdb` chunk. -/
def playStream (opts : PlayOptions) (data : List Byte) (s : Player) : PlayDone :=
  let s := s.countFrame
  if s.rawnextOid = 0 then { player := s }
  else
    let oid := s.map.querydest s.rawnextOid
    { player := { s with rawnextOid := 0 }
      calls :=
        if oid ≠ 0 ∧ opts.doDb then [.writeframe s.rawnextOid oid s.preBuf data] else []
      copied := oid ≠ 0 && opts.doOutput }

/-- A pass, with the chunk at the position. Behind the last one the loop is left. -/
def playEntry (opts : PlayOptions) (ans : PlayAnswer) (chunk : Option PlayChunk) (s : Player) :
    PlayDone :=
  match chunk with
  | none => { player := { s with phase := .left } }
  | some chunk =>
      let s := { s with pos := s.pos + 1 }
      match chunk with
      | .entry (.rtdb c) => playChunk opts ans c s
      | .entry (.stream nr objData offset size) =>
          if nr < nstreams then playStream opts (objData.bytes offset.toNat size.toNat) s
          else { player := s }
      | .entry (.junk ..) => { player := s }
      | .other => { player := s }

/-! ## Control -/

/-- A change of the control object, `frameObj` being the object that it names. A jump goes to
`gotoPos` or `framePos`, unless there is no position to go to. -/
structure PlayCtrl where
  doPause : Bool
  doScan : Bool
  doLoop : Bool
  doKeepcreated : Bool
  beginTs : Timestamp
  endTs : Timestamp
  gotoTs : Timestamp
  gotoPos : Option Nat
  frameGo : Int
  frameObj : ObjId
  framePos : Option Nat

/-- Where the change makes the player go: of two jumps, the second one counts. -/
def PlayCtrl.jump (c : PlayCtrl) : Option Nat :=
  let gotoJump := if c.gotoTs ≠ 0 then c.gotoPos else none
  if c.frameGo < 0 ∧ 0 < c.frameObj then c.framePos.or gotoJump else gotoJump

def playCtrl (c : PlayCtrl) (s : Player) : Player :=
  { s with
    pos := c.jump.getD s.pos
    doPause := c.doPause
    doScan := c.doScan
    doLoop := c.doLoop
    doKeepcreated := c.doKeepcreated
    doBegin := c.beginTs
    doEnd := c.endTs
    doGoto := c.gotoTs
    frameGo :=
      if c.frameObj ≤ 0 ∨ c.frameGo = 0 then 0
      else if 0 < c.frameGo then c.frameGo
      else if c.framePos.isSome then 2 else 0
    frameOid := if 0 < c.frameObj ∧ c.frameGo ≠ 0 then c.frameObj else s.frameOid
    rawnextFrameGo := false }

def Player.Controlled (s : Player) : Prop := s.initPhase = .over ∧ s.seenRtdb = true

instance (s : Player) : Decidable s.Controlled := inferInstanceAs (Decidable (_ ∧ _))

def Player.Paused (s : Player) : Prop :=
  s.doPause = true ∧ s.doGoto = 0 ∧ s.initPhase = .over ∧ s.frameGo = 0

instance (s : Player) : Decidable s.Paused := inferInstanceAs (Decidable (_ ∧ _))

/-! ## Loops -/

/-- The objects that are left are deleted, unless they are kept for the next loop. -/
def Player.clear (opts : PlayOptions) (s : Player) : Player :=
  if opts.doDb ∧ ¬ (s.doLoop ∧ s.doKeepcreated) then
    { s with map := s.map.map fun e => if e.src ≠ 0 then {} else e }
  else s

/-- The variables of the outer loop's body, and where it starts. -/
def Player.restart (pos : Option Nat) (s : Player) : Player :=
  let doGoto := if s.doBegin ≠ 0 ∧ s.doGoto = 0 then s.doBegin else s.doGoto
  { s with
    pos := if doGoto ≠ 0 ∧ s.doLoop ∧ s.doKeepcreated then pos.getD 0 else 0
    phase := .reading
    initPhase := .first
    doGoto := doGoto
    frameGo := 0
    rawnextFrameGo := false
    rawnextOid := 0
    preBuf := [] }

structure PlayFlags where
  doPause : Bool := false
  doScan : Bool := false
  doLoop : Bool := false
  doKeepcreated : Bool := false
  doBegin : Timestamp := 0
  doEnd : Timestamp := 0

def playInit (flags : PlayFlags) (pos : Option Nat) : Player :=
  { pos := 0, phase := .left, seenRtdb := false, initPhase := .first, initialTs := 0,
    doPause := flags.doPause, doScan := flags.doScan, doLoop := flags.doLoop,
    doKeepcreated := flags.doKeepcreated, doBegin := flags.doBegin, doEnd := flags.doEnd,
    doGoto := 0, frameGo := 0, frameOid := 0, rawnextFrameGo := false, map := OidMap.init,
    rawnextOid := 0, preBuf := [] : Player }.restart pos

/-! ## What the steps leave as it is -/

namespace Player

variable (s : Player) (c : Chunk)

theorem endInit_eq : ∃ initPhase initialTs,
    s.endInit c = { s with initPhase := initPhase, initialTs := initialTs } := by
  rw [endInit]
  split
  · exact ⟨_, _, rfl⟩
  · exact ⟨_, _, rfl⟩

theorem countFrame_eq : ∃ rawnextFrameGo frameGo,
    s.countFrame = { s with rawnextFrameGo := rawnextFrameGo, frameGo := frameGo } := by
  rw [countFrame]
  split
  · exact ⟨_, _, rfl⟩
  · exact ⟨_, _, rfl⟩

end Player

end KogmoRtdb
