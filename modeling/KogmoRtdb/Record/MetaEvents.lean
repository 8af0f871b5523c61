import KogmoRtdb.DataPath.HistSearch
import KogmoRtdb.Record.Passes

/-!
# Metadata events in the file

An insertion, a change or a deletion of a selected object is to leave a chunk with the
object's metadata. The recorder skips the event while `olen`, the size of the last record it
has read, is not positive: a test that is meant for updates, which are the only events to
set `olen`.
-/

namespace KogmoRtdb

def TraceEvent.metaType : TraceEvent → Option StreamType
  | .inserted => some .addobj
  | .changed => some .chgobj
  | .deleted => some .delobj
  | .updated => none

def FileEntry.isMeta : FileEntry → Bool
  | .rtdb chunk => chunk.type = .addobj || chunk.type = .chgobj || chunk.type = .delobj
  | _ => false

/-- The loop over `before` and then, if the recorder lives, the pass `p`: what this one has
written. -/
def writtenAt [Rounding] (opts : RecOptions) (h : Handle) (r : Recorder) (before : List Pass)
    (p : Pass) : List FileEntry :=
  match (recordAll opts h r before).2 with
  | none => []
  | some r' => (recordPass opts h r' p).1

/-- The pass is over a metadata event of a selected object. -/
structure Pass.IsMeta (opts : RecOptions) (p : Pass) (info : ObjInfo) (type : StreamType) :
    Prop where
  received : p.receiveFails = false
  info_eq : p.info = some info
  type_eq : p.msg.event.metaType = some type
  selected : (decideTrace opts p.msg.oid info).traceit = true

/-- Every metadata event of a selected object has its chunk in the file, and no other. -/
def MetaComplete [Rounding] (opts : RecOptions) (h : Handle) (r : Recorder)
    (ps : List Pass) : Prop :=
  ∀ before p after info type, ps = before ++ p :: after → p.IsMeta opts info type →
    (writtenAt opts h r before p).filter FileEntry.isMeta =
      [.rtdb { ts := p.msg.ts, oid := p.msg.oid, type := type, data := .info info }]

/-- The size of the last record read, 0 if it could not be read. -/
def lastSize [Rounding] (opts : RecOptions) (h : Handle) : Int → List Pass → Int
  | olen, [] => olen
  | olen, p :: ps =>
      lastSize opts h (if p.reads opts then max 0 ((p.readSize h).getD 0) else olen) ps

variable {opts : RecOptions} {h : Handle} {r r' : Recorder} {p : Pass} {ps before after : List Pass}
  {info : ObjInfo} {type : StreamType} {d : Decision} {msg : TraceMsg} {objData objData' : Mem}
  {written : List FileEntry}

/-! ## One pass -/

theorem Pass.lost_filter (p : Pass) : p.lost.filter FileEntry.isMeta = [] := by
  unfold Pass.lost
  split
  · rfl
  · split <;> rfl

theorem TraceEvent.ne_updated {event : TraceEvent} (htype : event.metaType = some type) :
    event ≠ .updated := by
  rintro rfl
  cases htype

/-- A metadata event of a selected object is skipped unless `olen` is positive. -/
theorem recordRest_meta (htype : msg.event.metaType = some type) (htrace : d.traceit = true) :
    (recordRest opts r msg info d).1 =
      if 0 < r.olen then
        [.rtdb { ts := msg.ts, oid := msg.oid, type := type, data := .info info }]
      else [] := by
  have hne := TraceEvent.ne_updated htype
  have hentries : eventEntries msg info d r.objData =
      [.rtdb { ts := msg.ts, oid := msg.oid, type := type, data := .info info }] := by
    unfold eventEntries
    cases hevent : msg.event with
    | updated => exact absurd hevent hne
    | inserted | changed | deleted =>
        rw [hevent] at htype
        cases htype
        rfl
  unfold recordRest recordEvent
  simp only [htrace, Bool.true_eq_false, if_false, if_neg hne, Option.map_some]
  by_cases hlog : opts.doLog = true ∧ msg.event = .deleted <;> by_cases holen : 0 < r.olen <;>
    simp [hlog, holen, hentries, Int.not_le.mpr, Int.not_lt.mp]

theorem recordPass_meta [Rounding] (hp : p.IsMeta opts info type) :
    (recordPass opts h r p).1.filter FileEntry.isMeta =
      if 0 < r.olen then
        [.rtdb { ts := p.msg.ts, oid := p.msg.oid, type := type, data := .info info }]
      else [] := by
  have hne := TraceEvent.ne_updated hp.type_eq
  have hmeta : type = .addobj ∨ type = .chgobj ∨ type = .delobj := by
    have htype := hp.type_eq
    cases hevent : p.msg.event <;> rw [hevent] at htype <;> cases htype <;> simp
  simp only [recordPass, hp.received, Bool.false_eq_true, if_false, hp.info_eq, recordInfo,
    hp.selected, false_and, if_neg hne, List.filter_append, p.lost_filter, List.nil_append,
    recordRest_meta hp.type_eq hp.selected, Bool.true_eq_false]
  split <;> split <;> rcases hmeta with rfl | rfl | rfl <;> simp_all [FileEntry.isMeta]

/-! ## The size of the last record read -/

/-- After a pass, `olen` is the size of the record it has read, if it has read one. -/
theorem recordPass_olen [Rounding] (hr : (recordPass opts h r p).2 = some r') :
    r'.olen = if p.reads opts then max 0 ((p.readSize h).getD 0) else r.olen := by
  rcases recordPass_some hr with ⟨hreads, olen, objData, hread, holen, -⟩ | ⟨hreads, holen, -⟩
  · have hsize : p.readSize h = some olen := by
      rw [← readUpdate_size h r.objData p, hread]
      rfl
    rw [if_pos hreads, holen, hsize]
    rfl
  · rw [if_neg (by rw [hreads]; decide), holen]

/-- After any number of passes, `olen` is the size of the last record read. -/
theorem recordAll_olen [Rounding] (hr : (recordAll opts h r ps).2 = some r') :
    r'.olen = lastSize opts h r.olen ps := by
  induction ps generalizing r with
  | nil =>
      cases hr
      rfl
  | cons p ps ih =>
      cases hp : (recordPass opts h r p).2 with
      | none =>
          rw [recordAll_cons_none hp] at hr
          cases hr
      | some r1 =>
          rw [recordAll_cons_some hp] at hr
          rw [lastSize, ← recordPass_olen hp]
          exact ih hr

/-! ## Runs -/

/-- The recorder is alive, and the last record it has read was not empty. -/
def MetaGuard [Rounding] (opts : RecOptions) (h : Handle) (r : Recorder)
    (before : List Pass) : Prop :=
  (recordAll opts h r before).2 ≠ none ∧ 0 < lastSize opts h r.olen before

theorem writtenAt_meta [Rounding] (hp : p.IsMeta opts info type) :
    (writtenAt opts h r before p).filter FileEntry.isMeta =
        [.rtdb { ts := p.msg.ts, oid := p.msg.oid, type := type, data := .info info }] ↔
      MetaGuard opts h r before := by
  unfold writtenAt MetaGuard
  cases hr : (recordAll opts h r before).2 with
  | none => simp
  | some r' =>
      dsimp only
      rw [recordPass_meta hp, recordAll_olen hr]
      split <;> simp_all

/-- An object of the database is announced as inserted. -/
def insertedPass : Pass :=
  .traced { oid := 5, ts := 1, event := .inserted, objSlot := 0, histSlot := -1 } 10
    historyDb historyDb

theorem insertedPass_isMeta :
    insertedPass.IsMeta { doAll := true } (historyDb.objmeta 0) .addobj where
  received := rfl
  info_eq := by
    change infoAt historyDb 5 1 = _
    rw [infoAt, historyDb_fresh.found]
    rfl
  type_eq := rfl
  selected := by decide

end KogmoRtdb
