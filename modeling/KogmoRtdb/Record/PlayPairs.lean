import KogmoRtdb.Lib.Lts
import KogmoRtdb.Record.Player

/-!
# Frames and their headers

The player keeps the header of a frame in `pre_buf` and its object in `rawnext_oid`, and only a
frame clears them. What comes between, a raw chunk, a header that is filtered or skipped, or a
jump, leaves them as they are. `writtenFrames_paired` is about runs in which a frame that is
written has nothing between its header and itself.
-/

namespace KogmoRtdb

/-! ## Runs -/

/-- What happened: a chunk was read, the player went elsewhere, or a new loop began. -/
inductive PlayEvent where
  | read (before : Player) (done : PlayDone)
  | went
  | restarted

/-- A player at work, with what happened, newest first. -/
structure PlayRun where
  player : Player
  events : List PlayEvent

inductive PlayOp where
  | ctrl (c : PlayCtrl)
  | read (ans : PlayAnswer)
  | restart (pos : Option Nat)

def playOp (opts : PlayOptions) (file : List PlayChunk) (s : PlayRun) : PlayOp → Option PlayRun
  | .ctrl c =>
      if s.player.phase = .reading ∧ s.player.Controlled then
        some ⟨playCtrl c s.player,
          if c.jump.isSome then .went :: s.events else s.events⟩
      else none
  | .read ans =>
      if s.player.phase = .reading ∧ ¬ s.player.Paused then
        let done := playEntry opts ans file[s.player.pos]? s.player
        some ⟨done.player, .read s.player done :: s.events⟩
      else none
  | .restart pos =>
      if s.player.phase = .left ∧ s.player.doLoop then
        some ⟨(s.player.clear opts).restart pos, .restarted :: s.events⟩
      else none

/-- The player over a file, with any of the options that may change. -/
def playLts (opts : PlayOptions) (file : List PlayChunk) : Lts PlayRun PlayOp where
  init s := ∃ flags pos, s = ⟨playInit flags pos, []⟩
  step := playOp opts file

/-! ## Pairs -/

/-- The chunk before a position is the header of a frame. -/
def HeaderBefore (file : List PlayChunk) (pos : Nat) (c : Chunk) : Prop :=
  ∃ h, h + 1 = pos ∧ file[h]? = some (.entry (.rtdb c)) ∧ c.type = .updobjNext

/-- Stream frames and raw chunks are directly preceded by their headers. -/
def IsRecording (file : List PlayChunk) : Prop :=
  ∀ pos, ((∃ nr objData offset size, file[pos]? = some (.entry (.stream nr objData offset size))) ∨
      ∃ objData offset size, file[pos]? = some (.entry (.junk objData offset size))) →
    ∃ c, HeaderBefore file pos c

/-- A frame was written with the object and the bytes of the header before it. -/
def PlayEvent.Paired (file : List PlayChunk) : PlayEvent → Prop
  | .read before done =>
      ∀ src dest header data, .writeframe src dest header data ∈ done.calls →
        ∃ c, HeaderBefore file before.pos c ∧ src = c.oid ∧
          dest = before.map.querydest c.oid ∧ header = c.base
  | .went => True
  | .restarted => True

/-- A header was kept, and nothing was read and no jump made since. -/
def HeaderLast : List PlayEvent → Prop
  | .read _ done :: _ => done.kept = true
  | _ => False

def AtFrame (file : List PlayChunk) (pos : Nat) : Prop :=
  ∃ nr objData offset size, file[pos]? = some (.entry (.stream nr objData offset size))

/-- A frame is not read while a header is remembered, of an object that is played, with anything
else between the two. -/
def FrameGuard (file : List PlayChunk) (s : PlayRun) : PlayOp → Prop
  | .read _ =>
      AtFrame file s.player.pos → s.player.rawnextOid ≠ 0 →
        s.player.map.querydest s.player.rawnextOid ≠ 0 → HeaderLast s.events
  | _ => True

/-- What is remembered is the header that was read last. -/
def HeaderKept (file : List PlayChunk) (s : PlayRun) : Prop :=
  HeaderLast s.events →
    ∃ c, HeaderBefore file s.player.pos c ∧ s.player.rawnextOid = c.oid ∧
      s.player.preBuf = c.base

/-! ## What a chunk does -/

/-- A chunk that keeps no header and writes no frame. -/
structure PlayDone.Plain (d : PlayDone) : Prop where
  kept : d.kept = false
  calls : ∀ src dest header data, .writeframe src dest header data ∉ d.calls

structure PlayDone.Keeps (d : PlayDone) (c : Chunk) (pos : Nat) : Prop where
  calls : ∀ src dest header data, .writeframe src dest header data ∉ d.calls
  kept : d.kept = true →
    c.type = .updobjNext ∧ d.player.pos = pos ∧ d.player.rawnextOid = c.oid ∧
      d.player.preBuf = c.base

variable {opts : PlayOptions} {ans : PlayAnswer} {destoid : Int} {info : ObjInfo} {c : Chunk}
  {s : Player}
  {pos : Nat}

theorem PlayDone.Plain.keeps {d : PlayDone} (h : d.Plain) : d.Keeps c pos where
  calls := h.calls
  kept hkept := absurd (h.kept.symm.trans hkept) Bool.false_ne_true

theorem plain_quiet {copied : Bool} : PlayDone.Plain ⟨s, [], copied, false⟩ where
  kept := rfl
  calls _ _ _ _ := List.not_mem_nil

theorem playMeta_plain : (playMeta opts destoid info s).Plain := by
  rw [playMeta]
  split
  · exact plain_quiet
  split
  · exact plain_quiet
  split
  · exact plain_quiet
  · exact ⟨rfl, by simp⟩

theorem playDel_plain : (playDel opts info s).Plain := by
  rw [playDel]
  split
  · exact plain_quiet
  split
  · exact plain_quiet
  · exact ⟨rfl, by simp⟩

theorem playUpd_plain {now : Timestamp} : (playUpd opts now c s).Plain := by
  rw [playUpd]
  split
  · exact plain_quiet
  · refine ⟨rfl, fun src dest header data => ?_⟩
    dsimp only
    split <;> simp

theorem playNext_keeps (htype : c.type = .updobjNext) :
    (playNext opts c s).Keeps c s.pos := by
  rw [playNext]
  split
  · exact plain_quiet.keeps
  split
  · exact plain_quiet.keeps
  · exact ⟨fun _ _ _ _ => List.not_mem_nil, fun _ => ⟨htype, rfl, rfl, rfl⟩⟩

theorem playSwitch_keeps : (playSwitch opts ans c s).Keeps c s.pos := by
  cases htype : c.type <;> simp only [playSwitch, htype]
  case updobjNext => exact playNext_keeps htype
  case addobj => exact playMeta_plain.keeps
  case rfrobj => exact playMeta_plain.keeps
  case chgobj => exact playMeta_plain.keeps
  case delobj => exact playDel_plain.keeps
  case updobj => exact playUpd_plain.keeps
  case error => exact plain_quiet.keeps

theorem playTimed_keeps : (playTimed opts ans c s).Keeps c s.pos := by
  rw [playTimed]
  split
  · exact plain_quiet.keeps
  split
  · exact plain_quiet.keeps
  split
  · dsimp only
    split
    · exact plain_quiet.keeps
    · exact playSwitch_keeps
  · exact playSwitch_keeps

theorem playChunk_keeps : (playChunk opts ans c s).Keeps c s.pos := by
  obtain ⟨initPhase, initialTs, heq⟩ := Player.endInit_eq { s with seenRtdb := true } c
  rw [playChunk, heq]
  exact playTimed_keeps

theorem playStream_calls {bytes data : List Byte} {src dest : ObjId} {header : List Byte}
    (h : .writeframe src dest header data ∈ (playStream opts bytes s).calls) :
    src = s.rawnextOid ∧ src ≠ 0 ∧ dest = s.map.querydest src ∧ dest ≠ 0 ∧ header = s.preBuf := by
  obtain ⟨rawnextFrameGo, frameGo, heq⟩ := s.countFrame_eq
  simp only [playStream, heq] at h
  split at h
  · exact absurd h List.not_mem_nil
  rename_i hraw
  dsimp only at h
  split at h
  · rename_i hplayed
    cases List.mem_singleton.mp h
    exact ⟨rfl, hraw, rfl, hplayed.1, rfl⟩
  · exact absurd h List.not_mem_nil

theorem playStream_kept (bytes : List Byte) : (playStream opts bytes s).kept = false := by
  rw [playStream]
  split <;> rfl

/-! ## Steps -/

variable {file : List PlayChunk} {run run' : PlayRun}

theorem playEntry_kept {chunk : Option PlayChunk}
    (h : (playEntry opts ans chunk s).kept = true) :
    ∃ c, chunk = some (.entry (.rtdb c)) ∧ c.type = .updobjNext ∧
      (playEntry opts ans chunk s).player.pos = s.pos + 1 ∧
      (playEntry opts ans chunk s).player.rawnextOid = c.oid ∧
      (playEntry opts ans chunk s).player.preBuf = c.base := by
  cases chunk with
  | none => exact absurd h Bool.false_ne_true
  | some chunk =>
      cases chunk with
      | other => exact absurd h Bool.false_ne_true
      | entry e =>
          cases e with
          | rtdb c => exact ⟨c, rfl, playChunk_keeps.kept h⟩
          | junk objData offset size => exact absurd h Bool.false_ne_true
          | stream nr objData offset size =>
              simp only [playEntry] at h
              split at h
              · rw [playStream_kept] at h
                exact absurd h Bool.false_ne_true
              · exact absurd h Bool.false_ne_true

/-- A pass that writes a frame has read one, and writes it with what is remembered. -/
theorem playEntry_calls {chunk : Option PlayChunk} {src dest : ObjId} {header data : List Byte}
    (h : .writeframe src dest header data ∈ (playEntry opts ans chunk s).calls) :
    (∃ nr objData offset size, chunk = some (.entry (.stream nr objData offset size))) ∧
      src = s.rawnextOid ∧ src ≠ 0 ∧ dest = s.map.querydest src ∧ dest ≠ 0 ∧
      header = s.preBuf := by
  cases chunk with
  | none => exact absurd h List.not_mem_nil
  | some chunk =>
      cases chunk with
      | other => exact absurd h List.not_mem_nil
      | entry e =>
          cases e with
          | rtdb c => exact absurd h (playChunk_keeps.calls src dest header data)
          | junk objData offset size => exact absurd h List.not_mem_nil
          | stream nr objData offset size =>
              simp only [playEntry] at h
              split at h
              · have hcalls := playStream_calls h
                exact ⟨⟨nr, objData, offset, size, rfl⟩, hcalls⟩
              · exact absurd h List.not_mem_nil

structure PairInv (file : List PlayChunk) (s : PlayRun) : Prop where
  kept : HeaderKept file s
  paired : ∀ e ∈ s.events, e.Paired file

theorem pairInv_ctrl {ctrl : PlayCtrl} (h : PairInv file run) :
    PairInv file ⟨playCtrl ctrl run.player,
      if ctrl.jump.isSome then .went :: run.events else run.events⟩ := by
  cases hjump : ctrl.jump with
  | some pos =>
      exact ⟨fun hlast => absurd hlast id, List.forall_mem_cons.mpr ⟨trivial, h.paired⟩⟩
  | none =>
      refine ⟨fun hlast => ?_, h.paired⟩
      have hpos : (playCtrl ctrl run.player).pos = run.player.pos := by simp [playCtrl, hjump]
      rw [hpos]
      exact h.kept hlast

theorem pairInv_read (h : PairInv file run)
    (hguard : FrameGuard file run (.read ans)) :
    PairInv file ⟨(playEntry opts ans file[run.player.pos]? run.player).player,
      .read run.player (playEntry opts ans file[run.player.pos]? run.player) ::
        run.events⟩ := by
  constructor
  · intro hlast
    obtain ⟨c, hchunk, htype, hpos, hoid, hbase⟩ := playEntry_kept hlast
    exact ⟨c, ⟨run.player.pos, hpos.symm, hchunk, htype⟩, hoid, hbase⟩
  · refine List.forall_mem_cons.mpr ⟨fun src dest header data hcall => ?_, h.paired⟩
    obtain ⟨hframe, hsrc, hne, hdest, hplayed, hheader⟩ := playEntry_calls hcall
    subst hsrc
    obtain ⟨c, hbefore, hoid, hbase⟩ := h.kept (hguard hframe hne (hdest ▸ hplayed))
    exact ⟨c, hbefore, hoid, by rw [hdest, hoid], hheader.trans hbase⟩

theorem pairInv_step {op : PlayOp} (h : PairInv file run) (hguard : FrameGuard file run op)
    (hstep : playOp opts file run op = some run') : PairInv file run' := by
  cases op with
  | ctrl ctrl =>
      rw [playOp] at hstep
      split at hstep
      · cases hstep
        exact pairInv_ctrl h
      · cases hstep
  | read ans =>
      rw [playOp] at hstep
      split at hstep
      · cases hstep
        exact pairInv_read h hguard
      · cases hstep
  | restart pos =>
      rw [playOp] at hstep
      split at hstep
      · cases hstep
        exact ⟨fun hlast => absurd hlast id, List.forall_mem_cons.mpr ⟨trivial, h.paired⟩⟩
      · cases hstep

/-- In every run in which no frame is read while the header of another one is remembered, each
frame is written with the object and the bytes of the header directly before it. -/
theorem writtenFrames_paired (h : (playLts opts file).Guarded (FrameGuard file) run) :
    ∀ e ∈ run.events, e.Paired file := by
  have hinv : PairInv file run := by
    refine Lts.Guarded.invariant (I := PairInv file) ?_
      (fun _ _ _ hinv hguard hstep => pairInv_step hinv hguard hstep) h
    rintro s ⟨flags, pos, rfl⟩
    exact ⟨fun hlast => absurd hlast id, fun e he => absurd he List.not_mem_nil⟩
  exact hinv.paired

/-! ## A recording -/

instance decidableHeaderLast : (events : List PlayEvent) → Decidable (HeaderLast events)
  | [] => isFalse id
  | .read _ done :: _ => inferInstanceAs (Decidable (done.kept = true))
  | .went :: _ => isFalse id
  | .restarted :: _ => isFalse id

instance decidableAtFrame (file : List PlayChunk) (pos : Nat) : Decidable (AtFrame file pos) :=
  match h : file[pos]? with
  | some (.entry (.stream nr objData offset size)) => isTrue ⟨nr, objData, offset, size, h⟩
  | some (.entry (.rtdb _)) => isFalse fun ⟨_, _, _, _, h'⟩ => by rw [h] at h'; cases h'
  | some (.entry (.junk ..)) => isFalse fun ⟨_, _, _, _, h'⟩ => by rw [h] at h'; cases h'
  | some .other => isFalse fun ⟨_, _, _, _, h'⟩ => by rw [h] at h'; cases h'
  | none => isFalse fun ⟨_, _, _, _, h'⟩ => by rw [h] at h'; cases h'

instance decidableFrameGuard (file : List PlayChunk) (s : PlayRun) :
    (op : PlayOp) → Decidable (FrameGuard file s op)
  | .ctrl _ => isTrue trivial
  | .read _ => inferInstanceAs (Decidable (_ → _))
  | .restart _ => isTrue trivial

def namedInfo (oid : ObjId) (name : String) : ObjInfo := { oid := oid, name := name.toList }

def addChunk (info : ObjInfo) : PlayChunk := .entry (.rtdb ⟨1, info.oid, .addobj, .info info⟩)

/-- The chunks of an update with `size` bytes. -/
def updateChunks (ts : Timestamp) (oid : ObjId) (d : Decision) (size : BitVec 32) :
    List PlayChunk :=
  (updateEntries { oid := oid, ts := ts, event := .updated, objSlot := 0, histSlot := 0 } d
    (Mem.zero.write32 20 size)).map .entry

/-- A raw object, and a camera whose frames are a stream. -/
def rawAndCamera : List PlayChunk :=
  [addChunk (namedInfo 1 "raw"), addChunk (namedInfo 2 "camera")] ++
    updateChunks 2 1 ⟨true, 0, true⟩ 26 ++ updateChunks 3 2 ⟨true, 1, false⟩ 50

theorem isRecording_rawAndCamera : IsRecording rawAndCamera := by
  intro pos h
  rcases pos with _ | _ | _ | _ | _ | _ | pos
  case succ.succ.succ.zero => exact ⟨_, 2, rfl, rfl, rfl⟩
  case succ.succ.succ.succ.succ.zero => exact ⟨_, 4, rfl, rfl, rfl⟩
  all_goals simp [rawAndCamera, addChunk, updateChunks, updateEntries] at h

/-- The camera's frame was written, as the object `src`. -/
def writesFrame (src : ObjId) : PlayEvent → Bool
  | .read before done => before.pos = 5 && done.calls.any fun
      | .writeframe src' _ _ _ => src' = src
      | _ => false
  | _ => false

theorem exists_of_writesFrame {src : ObjId} {e : PlayEvent} (h : writesFrame src e = true) :
    ∃ before done dest header data, e = .read before done ∧ before.pos = 5 ∧
      .writeframe src dest header data ∈ done.calls := by
  cases e with
  | went => cases h
  | restarted => cases h
  | read before done =>
      rw [writesFrame, Bool.and_eq_true, decide_eq_true_eq, List.any_eq_true] at h
      obtain ⟨hpos, call, hmem, hcall⟩ := h
      cases call with
      | insert src' info => cases hcall
      | delete src' dest => cases hcall
      | writedata src' dest data => cases hcall
      | writeframe src' dest header data =>
          rw [of_decide_eq_true hcall] at hmem
          exact ⟨before, done, dest, header, data, rfl, hpos, hmem⟩

def sixReads : List PlayOp := (List.range 6).map fun k => .read { destoid := 100 + k }

/-- With both objects, the frame is written as the camera. -/
theorem writtenFrames_paired_rawAndCamera :
    ∃ run, (playLts {} rawAndCamera).Guarded (FrameGuard rawAndCamera) run ∧
      (∃ e ∈ run.events, writesFrame 2 e = true) ∧ ∀ e ∈ run.events, e.Paired rawAndCamera := by
  obtain ⟨run, hrun, hwrites⟩ := Lts.exists_of_execGuarded
    (M := playLts {} rawAndCamera) (G := FrameGuard rawAndCamera)
    (g := fun s op => decide (FrameGuard rawAndCamera s op)) (fun _ _ h => of_decide_eq_true h)
    sixReads (fun run => run.events.any (writesFrame 2)) ⟨{}, none, rfl⟩ (by decide +kernel)
  exact ⟨run, hrun, List.any_eq_true.mp hwrites, writtenFrames_paired hrun⟩

/-- Without the camera, its frame is written as the raw object, whose header was the last one that
was kept. -/
theorem exists_not_paired :
    IsRecording rawAndCamera ∧
      ∃ run, (playLts { xnameList := ["camera".toList] } rawAndCamera).Reachable run ∧
        ∃ e ∈ run.events, ¬ e.Paired rawAndCamera := by
  refine ⟨isRecording_rawAndCamera, ?_⟩
  obtain ⟨run, hrun, hwrites⟩ := Lts.exists_of_exec
    (M := playLts { xnameList := ["camera".toList] } rawAndCamera) sixReads
    (fun run => run.events.any (writesFrame 1)) ⟨{}, none, rfl⟩ (by decide +kernel)
  obtain ⟨e, he, hwrites⟩ := List.any_eq_true.mp hwrites
  obtain ⟨before, done, dest, header, data, rfl, hpos, hcall⟩ := exists_of_writesFrame hwrites
  refine ⟨run, hrun, _, he, fun hpaired => ?_⟩
  obtain ⟨c, ⟨h, hbefore, hchunk, -⟩, hoid, -⟩ := hpaired 1 dest header data hcall
  obtain rfl : h = 4 := Nat.succ.inj (hbefore.trans hpos)
  cases hchunk
  cases hoid

end KogmoRtdb
