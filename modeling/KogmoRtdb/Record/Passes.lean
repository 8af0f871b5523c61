import KogmoRtdb.Record.Recorder

/-!
# The recorder, pass by pass

The recorder's loop with each pass as one step, and with its initial phase, in which it
records the objects that are there already. A pass sees the database as it is when the
recorder looks at it, and for an update as it is when the slot is checked again.

`olen`, `obj_data` and the list of known objects are variables of `main`: what a pass
leaves in them, the next ones find there.
-/

namespace KogmoRtdb

/-- One pass of the loop: an object of the initial list, or a message. A read of the
initial phase may search for ever, `none` after `fuel` steps. -/
inductive Pass where
  | initial (oid : ObjId) (ts : Timestamp) (db : Db) (now : Timestamp) (fuel : Nat)
  | traced (msg : TraceMsg) (freebuf : Int) (db db' : Db)

namespace Pass

/-- `oid`, `ts`, `event` and the slots. -/
def msg : Pass → TraceMsg
  | .initial oid ts _ _ _ =>
      { oid := oid, ts := ts, event := .updated, objSlot := -1, histSlot := -1 }
  | .traced msg _ _ _ => msg

/-- `kogmo_rtdb_obj_readinfo`. -/
def info : Pass → Option ObjInfo
  | .initial oid ts db _ _ => infoAt db oid ts
  | .traced msg _ db _ => infoAt db msg.oid msg.ts

def receiveFails : Pass → Bool
  | .initial .. => false
  | .traced _ freebuf _ _ => freebuf < 0

def lost : Pass → List FileEntry
  | .initial .. => []
  | .traced msg freebuf _ _ => if freebuf = 0 then [errorEntry msg.ts 0] else []

/-- `olen < 0` is an error, except for an initial object without data. -/
def failed (p : Pass) (olen : Int) : Bool :=
  match p with
  | .initial .. => olen < 0 && olen ≠ -Err.notFound.code
  | .traced .. => olen < 0

end Pass

def sizeOf : Result → Int
  | .ok size => size
  | .error e => -e.code

/-- `olen` and `obj_data` after the read of an update; `none` when it does not return. -/
def readUpdate [Rounding] (h : Handle) (objData : Mem) : Pass → Option (Int × Mem)
  | .initial oid ts db now fuel =>
      (readdata db h oid ts objData objDataBufSize now fuel).map fun out =>
        (sizeOf out.ret, out.buf)
  | .traced msg _ db db' =>
      match readdataslotPtr db .unchecked 0 msg.slot with
      | (.error e, _) => some (-e.code, objData)
      | (.ok (objDataP, olen), traceSlot) =>
          if 0 < olen then
            let n := if olen < objDataBufSize then olen else objDataBufSize
            some (olenOf (readdataslotPtr db' .checked 0 traceSlot).1,
              objData.copy 0 (db.heap.window objDataP) 0 n.toNat)
          else some (olen, objData)

def Pass.readSize [Rounding] (h : Handle) (p : Pass) : Option Int :=
  (readUpdate h Mem.zero p).map (·.1)

/-- The part of a pass that records the event: the entries, and the recorder unless it has
died. What a failing `fwrite` leaves of its entry in the file is not followed. -/
def recordRest (opts : RecOptions) (r : Recorder) (msg : TraceMsg) (info : ObjInfo) (d : Decision) :
    List FileEntry × Option Recorder :=
  match recordEvent opts r msg info d with
  | none => ([], none)
  | some (r', written) => (written, if r.Dies msg d then none else some r')

/-- The recorder after the read of an update, and the mark if it has failed. -/
def afterRead (r : Recorder) (p : Pass) (olen : Int) (objData : Mem) : Recorder × List FileEntry :=
  let r := { r with olen := if olen < 0 then 0 else olen, objData := objData }
  if p.failed olen then
    ({ r with lostMessages := r.lostMessages + 1 }, [errorEntry p.msg.ts p.msg.oid])
  else (r, [])

/-- A pass over an object whose metadata has been read. -/
def recordInfo [Rounding] (opts : RecOptions) (h : Handle) (r : Recorder) (p : Pass)
    (info : ObjInfo) : List FileEntry × Option Recorder :=
  let r := { r with eventsTotal := r.eventsTotal + 1 }
  let d := decideTrace opts p.msg.oid info
  if d.traceit = false ∧ opts.doLog = false then ([], some r)
  else if p.msg.event = .updated then
    match readUpdate h r.objData p with
    | none => ([], none)
    | some (olen, objData) =>
        let (r, error) := afterRead r p olen objData
        let (written, r') := recordRest opts r p.msg info d
        (error ++ written, r')
  else recordRest opts r p.msg info d

def recordPass [Rounding] (opts : RecOptions) (h : Handle) (r : Recorder) (p : Pass) :
    List FileEntry × Option Recorder :=
  if p.receiveFails then ([], none)
  else
    let r := if p.lost = [] then r else { r with lostMessages := r.lostMessages + 1 }
    match p.info with
    | none =>
        (p.lost ++ [errorEntry p.msg.ts p.msg.oid],
          some { r with lostMessages := r.lostMessages + 1 })
    | some info =>
        let (written, r') := recordInfo opts h r p info
        (p.lost ++ written, r')

/-- The loop: what it has written, and the recorder unless it has died. -/
def recordAll [Rounding] (opts : RecOptions) (h : Handle) :
    Recorder → List Pass → List FileEntry × Option Recorder
  | r, [] => ([], some r)
  | r, p :: ps =>
      match recordPass opts h r p with
      | (written, none) => (written, none)
      | (written, some r') =>
          let (later, r'') := recordAll opts h r' ps
          (written ++ later, r'')

/-- A recorder that has not read any data yet, with 64 KiB on the stack behind `obj_data`. -/
def freshRecorder : Recorder where
  stack := ⟨objDataBufSize + 0x10000, by decide⟩
  objData := .zero
  olen := 0
  knownid := []
  lostMessages := 0
  eventsTotal := 0
  eventsTotalWritten := 0

/-! ## What a pass leaves alone -/

variable {opts : RecOptions} {h : Handle} {r r' : Recorder} {p : Pass}
  {info : ObjInfo} {d : Decision} {msg : TraceMsg} {written : List FileEntry}

/-- `known_obj` with a negative oid, which only the log of a deletion calls. -/
def Recorder.forget (opts : RecOptions) (msg : TraceMsg) (r : Recorder) : Recorder :=
  if opts.doLog ∧ msg.event = .deleted then
    { r with knownid := r.knownid.filter (· ≠ msg.oid) } else r

theorem forget_olen (opts : RecOptions) (msg : TraceMsg) (r : Recorder) :
    (r.forget opts msg).olen = r.olen := by
  unfold Recorder.forget
  split <;> rfl

theorem forget_objData (opts : RecOptions) (msg : TraceMsg) (r : Recorder) :
    (r.forget opts msg).objData = r.objData := by
  unfold Recorder.forget
  split <;> rfl

theorem recordEvent_unselected (hd : d.traceit = false) :
    recordEvent opts r msg info d = some (r.forget opts msg, []) := if_pos hd

def selectedEntries (olen : Int) (objData : Mem) (msg : TraceMsg) (info : ObjInfo) (d : Decision)
    (isKnown : Bool) : List FileEntry :=
  (if isKnown then [] else
    [.rtdb { ts := msg.ts, oid := msg.oid, type := .rfrobj, data := .info info }]) ++
    if olen ≤ 0 then [] else eventEntries msg info d objData

theorem recordEvent_selected (hd : d.traceit = true) :
    recordEvent opts r msg info d =
      (if msg.event = .updated then knownObj (r.forget opts msg).knownid msg.oid
        else some (true, (r.forget opts msg).knownid)).map fun (isKnown, knownid) =>
          ({ r.forget opts msg with
              eventsTotalWritten := (r.forget opts msg).eventsTotalWritten + 1
              knownid := knownid },
            selectedEntries r.olen r.objData msg info d isKnown) := by
  rw [show r.olen = _ from (forget_olen opts msg r).symm,
    show r.objData = _ from (forget_objData opts msg r).symm]
  exact if_neg (by rw [hd]; decide)

theorem recordEvent_keeps (hr : recordEvent opts r msg info d = some (r', written)) :
    r'.olen = r.olen ∧ r'.objData = r.objData := by
  cases hd : d.traceit with
  | false =>
      rw [recordEvent_unselected hd] at hr
      cases hr
      exact ⟨forget_olen .., forget_objData ..⟩
  | true =>
      rw [recordEvent_selected hd] at hr
      obtain ⟨⟨isKnown, knownid⟩, -, heq⟩ := Option.map_eq_some_iff.mp hr
      cases heq
      exact ⟨forget_olen .., forget_objData ..⟩

/-- Only the read of an update sets `olen` and `obj_data`. -/
theorem recordRest_some (hr : (recordRest opts r msg info d).2 = some r') :
    r'.olen = r.olen ∧ r'.objData = r.objData := by
  unfold recordRest at hr
  split at hr
  · cases hr
  · rename_i r'' entries hevent
    dsimp only at hr
    split at hr
    · cases hr
    · cases hr
      exact recordEvent_keeps hevent

/-- What a read answers does not depend on the buffer it is given. -/
theorem readUpdate_size [Rounding] (h : Handle) (objData : Mem) (p : Pass) :
    (readUpdate h objData p).map (·.1) = p.readSize h := by
  unfold Pass.readSize readUpdate
  cases p with
  | initial oid ts db now fuel =>
      simp only [readdata, readdataMode, Option.map_map]
      congr 1
      funext res
      cases res with
      | error e => rfl
      | ok found =>
          simp only [Function.comp, copyOut]
          split
          · rfl
          · split <;> rfl
  | traced msg freebuf db db' =>
      dsimp only
      split
      · rfl
      · split <;> rfl

theorem afterRead_olen (r : Recorder) (p : Pass) (olen : Int) (objData : Mem) :
    (afterRead r p olen objData).1.olen = max 0 olen := by
  unfold afterRead
  dsimp only
  split <;> (dsimp only; split <;> omega)

theorem afterRead_objData (r : Recorder) (p : Pass) (olen : Int) (objData : Mem) :
    (afterRead r p olen objData).1.objData = objData := by
  unfold afterRead
  dsimp only
  split <;> rfl

theorem afterRead_knownid (r : Recorder) (p : Pass) (olen : Int) (objData : Mem) :
    (afterRead r p olen objData).1.knownid = r.knownid := by
  unfold afterRead
  dsimp only
  split <;> rfl

theorem afterRead_error (r : Recorder) (p : Pass) (olen : Int) (objData : Mem) :
    (afterRead r p olen objData).2 =
      if p.failed olen then [errorEntry p.msg.ts p.msg.oid] else [] := by
  unfold afterRead
  dsimp only
  split <;> rfl

/-- The recorder reads the data of the pass: an update of an object that it records or logs. -/
def Pass.reads (opts : RecOptions) (p : Pass) : Bool :=
  match p.info with
  | none => false
  | some info => p.msg.event = .updated && ((decideTrace opts p.msg.oid info).traceit || opts.doLog)

theorem recordInfo_skipped [Rounding] (hd : (decideTrace opts p.msg.oid info).traceit = false)
    (hlog : opts.doLog = false) :
    recordInfo opts h r p info = ([], some { r with eventsTotal := r.eventsTotal + 1 }) :=
  if_pos ⟨hd, hlog⟩

theorem recordInfo_update [Rounding] {olen : Int} {objData : Mem}
    (hd : (decideTrace opts p.msg.oid info).traceit = true ∨ opts.doLog = true)
    (hupdated : p.msg.event = .updated) (hread : readUpdate h r.objData p = some (olen, objData)) :
    recordInfo opts h r p info =
      let (r', error) := afterRead { r with eventsTotal := r.eventsTotal + 1 } p olen objData
      let (written, r'') := recordRest opts r' p.msg info (decideTrace opts p.msg.oid info)
      (error ++ written, r'') := by
  unfold recordInfo
  dsimp only
  rw [if_neg (by simpa only [not_and_or, Bool.not_eq_false] using hd), if_pos hupdated, hread]

theorem recordInfo_hangs [Rounding]
    (hd : (decideTrace opts p.msg.oid info).traceit = true ∨ opts.doLog = true)
    (hupdated : p.msg.event = .updated) (hread : readUpdate h r.objData p = none) :
    recordInfo opts h r p info = ([], none) := by
  unfold recordInfo
  dsimp only
  rw [if_neg (by simpa only [not_and_or, Bool.not_eq_false] using hd), if_pos hupdated, hread]

theorem recordInfo_event [Rounding]
    (hd : (decideTrace opts p.msg.oid info).traceit = true ∨ opts.doLog = true)
    (hne : p.msg.event ≠ .updated) :
    recordInfo opts h r p info = recordRest opts { r with eventsTotal := r.eventsTotal + 1 } p.msg
      info (decideTrace opts p.msg.oid info) := by
  unfold recordInfo
  dsimp only
  rw [if_neg (by simpa only [not_and_or, Bool.not_eq_false] using hd), if_neg hne]

/-- What a pass leaves in `olen` and `obj_data`: the record it has read, or else what has been
there before. -/
theorem recordPass_some [Rounding] (hr : (recordPass opts h r p).2 = some r') :
    (p.reads opts = true ∧ ∃ olen objData, readUpdate h r.objData p = some (olen, objData) ∧
      r'.olen = max 0 olen ∧ r'.objData = objData) ∨
      (p.reads opts = false ∧ r'.olen = r.olen ∧ r'.objData = r.objData) := by
  unfold recordPass at hr
  split at hr
  · cases hr
  have hlost : ∀ r0 : Recorder,
      r0 = (if p.lost = [] then r else { r with lostMessages := r.lostMessages + 1 }) →
        r0.olen = r.olen ∧ r0.objData = r.objData := by
    rintro r0 rfl
    split <;> exact ⟨rfl, rfl⟩
  dsimp only at hr
  generalize (if p.lost = [] then r else _) = r0 at hr hlost
  obtain ⟨holen, hdata⟩ := hlost r0 rfl
  rw [← holen, ← hdata]
  unfold Pass.reads
  cases hinfo : p.info with
  | none =>
      rw [hinfo] at hr
      cases hr
      exact Or.inr ⟨rfl, rfl, rfl⟩
  | some info =>
      rw [hinfo] at hr
      dsimp only at hr ⊢
      unfold recordInfo at hr
      dsimp only at hr
      by_cases hskip : (decideTrace opts p.msg.oid info).traceit = false ∧ opts.doLog = false
      · rw [if_pos hskip] at hr
        cases hr
        exact Or.inr ⟨by simp [hskip], rfl, rfl⟩
      rw [if_neg hskip] at hr
      by_cases hupdated : p.msg.event = .updated
      · rw [if_pos hupdated] at hr
        have hreads : (decide (p.msg.event = .updated) &&
            ((decideTrace opts p.msg.oid info).traceit || opts.doLog)) = true := by
          simp only [hupdated, decide_true, Bool.true_and, Bool.or_eq_true]
          by_contra hnone
          simp only [not_or, Bool.not_eq_true] at hnone
          exact hskip hnone
        split at hr
        · cases hr
        · rename_i olen objData hread
          obtain ⟨h1, h2⟩ := recordRest_some hr
          refine Or.inl ⟨hreads, olen, objData, hread, ?_, ?_⟩
          · rw [h1, afterRead_olen]
          · rw [h2, afterRead_objData]
      · rw [if_neg hupdated] at hr
        obtain ⟨h1, h2⟩ := recordRest_some hr
        exact Or.inr ⟨by simp [hupdated], h1, h2⟩

/-! ## The loop -/

theorem recordAll_cons_none [Rounding] {ps : List Pass} (hp : (recordPass opts h r p).2 = none) :
    recordAll opts h r (p :: ps) = ((recordPass opts h r p).1, none) := by
  rw [recordAll]
  split <;> rename_i heq <;> rw [heq] at hp ⊢
  cases hp

theorem recordAll_cons_some [Rounding] {ps : List Pass} (hp : (recordPass opts h r p).2 = some r') :
    recordAll opts h r (p :: ps) =
      ((recordPass opts h r p).1 ++ (recordAll opts h r' ps).1, (recordAll opts h r' ps).2) := by
  rw [recordAll]
  split <;> rename_i heq <;> rw [heq] at hp ⊢
  · cases hp
  · cases hp
    rfl

end KogmoRtdb
