import KogmoRtdb.DataPath.Waitnext

/-!
# Withholding stale data

With `withhold_stale` a reader should get no record that is older than the object's larger cycle
time. The age is tested at the end of the copying read, so that `kogmo_rtdb_obj_readdata` and the
waits, whose first read copies the header, keep old data back (`Withholds`). The pointer read
returns before the test, and the functions of `kogmo_rtdb_objdata_slot.c` have none.

What the flag is for is a statement about two runs of a call, in one database and in the same one
with the flag cleared.
-/

namespace KogmoRtdb

/-! ## The flag -/

/-- The metadata with `withhold_stale` cleared. -/
def ObjInfo.allowStale (info : ObjInfo) : ObjInfo :=
  { info with flags := { info.flags with withholdStale := false } }

def Db.allowStale (db : Db) : Db :=
  { db with objmeta := fun i => (db.objmeta i).allowStale }

def Surround.allowStale (s : Surround) : Surround :=
  { s with looks := fun k => (s.looks k).allowStale }

/-- The newest record of the object is older than its cycle times. -/
def Stale [Rounding] (db : Db) (oid : ObjId) (now : Timestamp) : Prop :=
  ∃ i, db.findmetaById oid = some i ∧ newestTs db.heap (db.objmeta i) ≠ invalidTs ∧
    (db.objmeta i).maxCycle <
      Rounding.float (diffSecs (newestTs db.heap (db.objmeta i)) now)

def Flagged (db : Db) (oid : ObjId) : Prop :=
  ∀ i, db.findmetaById oid = some i → (db.objmeta i).flags.withholdStale = true

variable {db : Db} {h : Handle} {oid : ObjId} {i fuel : Nat} {s : Surround} {now : Timestamp}
  {mode : Mode} {objslot : ObjSlot}

theorem findmetaById_allowStale (db : Db) (oid : ObjId) :
    db.allowStale.findmetaById oid = db.findmetaById oid := rfl

/-! ## Selecting a record -/

theorem scanLoop_allowStale (heap : Heap) (info : ObjInfo) (ts : Timestamp) (fuel : Nat)
    (currslot firstslot : Int) (kept : Option Probe) :
    scanLoop heap info.allowStale mode ts fuel currslot firstslot kept =
      scanLoop heap info mode ts fuel currslot firstslot kept := by
  induction fuel generalizing currslot firstslot kept with
  | zero => rfl
  | succ fuel ih =>
      have hprobe : probeAt heap info.allowStale mode currslot = probeAt heap info mode currslot :=
        rfl
      have hscan : histscan heap info.allowStale (-1) currslot firstslot =
          histscan heap info (-1) currslot firstslot := rfl
      simp only [scanLoop, hprobe, hscan, ih]

theorem select_allowStale (db : Db) (h : Handle) (mode : Mode) (oid : ObjId) (ts : Timestamp)
    (fuel : Nat) :
    select db.allowStale h mode oid ts fuel =
      (select db h mode oid ts fuel).map fun res => res.map fun r => (r.1.allowStale, r.2) := by
  unfold select
  rw [findmetaById_allowStale]
  cases db.findmetaById oid with
  | none => rfl
  | some i =>
      have hscan : histscan db.allowStale.heap (db.allowStale.objmeta i) 0 0 0 =
          histscan db.heap (db.objmeta i) 0 0 0 := rfl
      have hdenied : (db.allowStale.objmeta i).readDenied h = (db.objmeta i).readDenied h := rfl
      have hidx : (db.allowStale.objmeta i).bufferIdx = (db.objmeta i).bufferIdx := rfl
      have hdel : (db.allowStale.objmeta i).deletedTs = (db.objmeta i).deletedTs := rfl
      dsimp only
      rw [hscan, hdenied, hidx, hdel]
      split
      · rfl
      · split
        · rfl
        · split
          · rfl
          · split
            · rfl
            · have hloop := @scanLoop_allowStale mode db.heap (db.objmeta i) ts fuel
              simp only [Db.allowStale, hloop]
              cases scanLoop db.heap (db.objmeta i) mode ts fuel _ _ none with
              | none => rfl
              | some res => cases res <;> rfl

/-! ## Reading -/

/-- The end of a copying read of a record that is still there. -/
theorem copyOut_unchanged [Rounding] {heap : Heap} {info : ObjInfo} {p : Probe}
    (hp : slotTs heap info p.slot = p.ts) (size : Int) (buf : Mem) (now : Timestamp) :
    (tooOld info p.ts now = true → ∃ e, (copyOut heap info p size buf now).ret = .error e) ∧
      (tooOld info p.ts now = false →
        copyOut heap info.allowStale p size buf now = copyOut heap info p size buf now) := by
  have hfinal : (slotWindow heap info p.slot).read64 0 = p.ts := hp
  have hsame : ¬ (p.ts ≠ p.ts) := fun hne => hne rfl
  constructor
  · intro hold
    refine ⟨.tooFast, ?_⟩
    unfold copyOut
    dsimp only
    rw [hfinal, if_neg hsame, if_pos hold]
  · intro hfresh
    have hwindow : slotWindow heap info.allowStale = slotWindow heap info := rfl
    have hnever : tooOld info.allowStale p.ts now = false := rfl
    unfold copyOut
    dsimp only
    rw [hwindow, hfinal, hfresh, hnever]

theorem Offers.stale_iff [Rounding] (ho : Offers db h (db.objmeta i))
    (hfind : db.findmetaById oid = some i) : Stale db oid now ↔
      (db.objmeta i).maxCycle <
      Rounding.float (diffSecs (newestTs db.heap (db.objmeta i)) now) := by
  have hne : newestTs db.heap (db.objmeta i) ≠ invalidTs := fun h => ho.written (by rw [h])
  constructor
  · rintro ⟨j, hj, -, hold⟩
    rw [hfind] at hj
    cases hj
    exact hold
  · intro hold
    exact ⟨i, hfind, hne, hold⟩

theorem tooOld_flagged [Rounding] {info : ObjInfo} {ts : Timestamp}
    (hflag : info.flags.withholdStale = true) :
    tooOld info ts now = decide (info.maxCycle < Rounding.float (diffSecs ts now)) := by
  rw [tooOld, hflag, Bool.true_and]

/-- The copying read withholds stale data. -/
theorem readdata_stale [Rounding] {buf : Mem} {size : Int} {out : ReadOut} (hflag : Flagged db oid)
    (hstale : Stale db oid now)
    (hread : readdataMode db h .last oid 0 buf size now fuel = some out) :
    ∃ e, out.ret = .error e := by
  unfold readdataMode at hread
  obtain ⟨e, hsel, -⟩ | ⟨i, hfind, ho, hsel⟩ := select_latest db h oid fuel
  · rw [hsel] at hread
    cases hread
    exact ⟨e, rfl⟩
  · rw [hsel] at hread
    split at hread
    · cases hread
    · cases hread
      refine (copyOut_unchanged rfl size buf now).1 ?_
      exact (tooOld_flagged (hflag i hfind)).trans
        (decide_eq_true ((ho.stale_iff hfind).mp hstale))

/-- And reads other data as it would without the flag. -/
theorem readdata_fresh [Rounding] (hfresh : ¬ Stale db oid now) (buf : Mem) (size : Int)
    (fuel : Nat) : readdataMode db.allowStale h .last oid 0 buf size now fuel =
      readdataMode db h .last oid 0 buf size now fuel := by
  unfold readdataMode
  rw [select_allowStale]
  obtain ⟨e, hsel, -⟩ | ⟨i, hfind, ho, hsel⟩ := select_latest db h oid fuel
  · rw [hsel]
    rfl
  · rw [hsel]
    split
    · rfl
    · have hdec : decide ((db.objmeta i).maxCycle <
          Rounding.float (diffSecs (newestTs db.heap (db.objmeta i)) now)) = false :=
        decide_eq_false fun hold => hfresh ((ho.stale_iff hfind).mpr hold)
      have hnot : tooOld (db.objmeta i) (newestTs db.heap (db.objmeta i)) now = false := by
        rw [tooOld, hdec, Bool.and_false]
      exact congrArg some ((copyOut_unchanged rfl size buf now).2 hnot)

theorem readdataPtr_allowStale (db : Db) (h : Handle) (mode : Mode) (oid : ObjId) (ts : Timestamp)
    (fuel : Nat) :
    readdataModePtr db.allowStale h mode oid ts fuel = readdataModePtr db h mode oid ts fuel := by
  unfold readdataModePtr
  rw [select_allowStale]
  cases select db h mode oid ts fuel with
  | none => rfl
  | some res => cases res <;> rfl

/-! ## Waiting -/

section Wait

variable {oldTs wakeupTs : Timestamp} {noNotifies : Bool} {tick t : Nat} {res : Option Result}

theorem waitTurn_allowStale [Rounding] (s : Surround) (oldTs wakeupTs : Timestamp)
    (noNotifies : Bool) (i tick : Nat) (out : ReadOut) :
    waitTurn s.allowStale oldTs wakeupTs noNotifies i tick out =
      waitTurn s oldTs wakeupTs noNotifies i tick out := rfl

/-- A wait that finds nothing but stale data ends with an error. -/
theorem waitnextLoop_stale [Rounding] (hflag : ∀ k, Flagged (s.looks k) oid)
    (hloop : waitnextLoop s h oid oldTs wakeupTs noNotifies i fuel tick = some (res, t))
    (hstale : ∀ k, tick ≤ k → k < t → Stale (s.looks k) oid (s.now k)) :
    ∃ e, res = some (.error e) := by
  obtain ⟨k, fuel', out, hk, rfl, hread, hturn⟩ := waitnextLoop_last hloop
  obtain ⟨e, hret⟩ := readdata_stale (hflag k) (hstale k hk (by omega)) hread
  unfold waitTurn at hturn
  cases hj : waitnextJudge oldTs ((s.looks (k + 1)).objmeta i).deletedTs out with
  | some j =>
      rw [hj] at hturn
      cases j with
      | some e' => exact ⟨e', (Option.some.inj hturn).symm⟩
      | none =>
          unfold waitnextJudge at hj
          rw [hret] at hj
          cases e with
          | notFound =>
              dsimp only at hj
              split at hj
              · cases hj
              · cases hj
          | _ => cases hj
  | none =>
      rw [hj] at hturn
      dsimp only at hturn
      rw [waitnextTimeout_eq, hret] at hturn
      split at hturn
      · cases noNotifies with
        | true => exact ⟨e, (Option.some.inj hturn).symm⟩
        | false => exact ⟨.timeout, (Option.some.inj hturn).symm⟩
      · cases hturn

/-- A wait that finds no stale data ends as it would without the flag. -/
theorem waitnextLoop_fresh [Rounding]
    (hfresh : ∀ k, tick ≤ k → k < t → ¬ Stale (s.looks k) oid (s.now k)) :
    waitnextLoop s.allowStale h oid oldTs wakeupTs noNotifies i fuel tick = some (res, t) ↔
      waitnextLoop s h oid oldTs wakeupTs noNotifies i fuel tick = some (res, t) := by
  induction fuel generalizing tick with
  | zero => exact Iff.rfl
  | succ fuel ih =>
      by_cases hlt : tick < t
      · have hread : readdata (s.allowStale.looks tick) h oid 0 Mem.zero 24 (s.allowStale.now tick)
            fuel = readdata (s.looks tick) h oid 0 Mem.zero 24 (s.now tick) fuel :=
          readdata_fresh (hfresh tick (Nat.le_refl tick) hlt) Mem.zero 24 fuel
        rw [waitnextLoop_succ, waitnextLoop_succ, hread]
        cases readdata (s.looks tick) h oid 0 Mem.zero 24 (s.now tick) fuel with
        | none => exact Iff.rfl
        | some out =>
            rw [Option.bind_some, Option.bind_some, waitTurn_allowStale]
            cases waitTurn s oldTs wakeupTs noNotifies i tick out with
            | some res' => exact Iff.rfl
            | none => exact ih fun k hk hkt => hfresh k (by omega) hkt
      · constructor
        · intro hloop
          have := waitnextLoop_tick hloop
          omega
        · intro hloop
          have := waitnextLoop_tick hloop
          omega

theorem waitnext_tick [Rounding]
    (hwait : waitnext s h oid oldTs wakeupTs fuel tick = some (res, t)) :
    tick < t := by
  unfold waitnext at hwait
  split at hwait
  · cases hwait
    exact Nat.lt_succ_self tick
  · have := waitnextLoop_tick hwait
    omega

theorem waitnext_stale [Rounding] (hflag : ∀ k, Flagged (s.looks k) oid)
    (hwait : waitnext s h oid oldTs wakeupTs fuel tick = some (res, t))
    (hstale : ∀ k, tick ≤ k → k < t → Stale (s.looks k) oid (s.now k)) :
    ∃ e, res = some (.error e) := by
  unfold waitnext at hwait
  split at hwait
  · cases hwait
    exact ⟨_, rfl⟩
  · exact waitnextLoop_stale hflag hwait fun k hk hkt => hstale k (by omega) hkt

theorem waitnext_fresh [Rounding]
    (hfresh : ∀ k, tick ≤ k → k < t → ¬ Stale (s.looks k) oid (s.now k)) :
    waitnext s.allowStale h oid oldTs wakeupTs fuel tick = some (res, t) ↔
      waitnext s h oid oldTs wakeupTs fuel tick = some (res, t) := by
  have hfind : (s.allowStale.looks tick).findmetaById oid = (s.looks tick).findmetaById oid := rfl
  unfold waitnext
  rw [hfind]
  cases (s.looks tick).findmetaById oid with
  | none => exact Iff.rfl
  | some i => exact waitnextLoop_fresh fun k hk hkt => hfresh k (by omega) hkt

end Wait

/-! ## What a call keeps back -/

/-- The calls that read the latest data of an object. A call of mode 0 starts from the newest
record whatever its offset is. -/
inductive Latest (oid : ObjId) (r : Reader) : ReadCall → Prop where
  | readdata (buf : Mem) (size : Int) : Latest oid r (.readdata .last oid 0 buf size)
  | readdataPtr (buf : Mem) : Latest oid r (.readdataPtr .last oid 0 buf)
  | waitnext (oldTs wakeupTs : Timestamp) (buf : Mem) (size : Int) :
      Latest oid r (.waitnext oid oldTs wakeupTs buf size)
  | waitnextPtr (oldTs wakeupTs : Timestamp) (buf : Mem) :
      Latest oid r (.waitnextPtr oid oldTs wakeupTs buf)
  | slotInit (c : Nat) : Latest oid r (.slotInit c oid)
  | slotPtr (c : Nat) (offset : Int) (buf : Mem) (doPtr : Bool) :
      (r.cursors c).oid = oid → Latest oid r (.slotPtr c .init offset buf doPtr)

/-- The call fails while all it looks at is stale, and is answered as without the flag while
nothing is. -/
structure Withholds [Rounding] (s : Surround) (h : Handle) (fuel : Nat) (oid : ObjId) (r : Reader)
    (c : ReadCall) : Prop where
  stale : ∀ a r', r.call s h fuel c = some (a, r') →
    (∀ k, r.tick ≤ k → k < r'.tick → Stale (s.looks k) oid (s.now k)) → ∃ e, a.ret = .error e
  fresh : ∀ a r', (∀ k, r.tick ≤ k → k < r'.tick → ¬ Stale (s.looks k) oid (s.now k)) →
    (r.call s.allowStale h fuel c = some (a, r') ↔ r.call s h fuel c = some (a, r'))

/-- A call that does not test the age has a newest record to show. -/
def ShowsUntested (db : Db) (h : Handle) (oid : ObjId) : ReadCall → Prop
  | .readdataPtr _ _ _ _ => ∃ i, db.findmetaById oid = some i ∧ Offers db h (db.objmeta i)
  | .slotInit _ _ | .slotPtr _ _ _ _ _ =>
      ∃ i, db.findmetaById oid = some i ∧ 0 ≤ (db.objmeta i).historySlot
  | _ => False

section Calls

variable {r r' : Reader} {a : ReadAnswer} {c : ReadCall} {buf : Mem} {size : Int}
  {oldTs wakeupTs : Timestamp}

/-- The end of a wait: its own answer, or that of the last read. -/
def finishWait (r : Reader) (buf : Mem) (last : Nat → Option (ReadAnswer × Reader)) :
    Option Result × Nat → Option (ReadAnswer × Reader)
  | (some ret, t) => some ({ ret := ret, buf := buf, shown := none }, { r with tick := t })
  | (none, t) => last t

def lastRead [Rounding] (s : Surround) (h : Handle) (fuel : Nat) (oid : ObjId) (r : Reader)
    (buf : Mem) (size : Int) (t : Nat) : Option (ReadAnswer × Reader) :=
  (readdataMode (s.looks t) h .last oid 0 buf size (s.now t) fuel).map fun out =>
    ({ ret := out.ret, buf := out.buf, shown := none }, { r with tick := t + 1 })

def lastReadPtr (s : Surround) (h : Handle) (fuel : Nat) (oid : ObjId) (r : Reader) (buf : Mem)
    (t : Nat) : Option (ReadAnswer × Reader) :=
  (readdataModePtr (s.looks t) h .last oid 0 fuel).map fun ret =>
    (ptrAnswer (s.looks t).heap buf ret, { r with tick := t + 1 })

theorem call_waitnext [Rounding] (s : Surround) (h : Handle) (fuel : Nat) (r : Reader) :
    r.call s h fuel (.waitnext oid oldTs wakeupTs buf size) =
      (waitnext s h oid oldTs wakeupTs fuel r.tick).bind
        (finishWait r buf (lastRead s h fuel oid r buf size)) := by
  rw [Reader.call]
  cases waitnext s h oid oldTs wakeupTs fuel r.tick with
  | none => rfl
  | some w =>
      obtain ⟨res, t⟩ := w
      cases res <;> rfl

theorem call_waitnextPtr [Rounding] (s : Surround) (h : Handle) (fuel : Nat) (r : Reader) :
    r.call s h fuel (.waitnextPtr oid oldTs wakeupTs buf) =
      (waitnext s h oid oldTs wakeupTs fuel r.tick).bind
        (finishWait r buf (lastReadPtr s h fuel oid r buf)) := by
  rw [Reader.call]
  cases waitnext s h oid oldTs wakeupTs fuel r.tick with
  | none => rfl
  | some w =>
      obtain ⟨res, t⟩ := w
      cases res <;> rfl

/-- A wait does not come to its last read while all is stale. -/
theorem wait_stale [Rounding] {last : Nat → Option (ReadAnswer × Reader)}
    (hflag : ∀ k, Flagged (s.looks k) oid)
    (hlast : ∀ t a r', last t = some (a, r') → r'.tick = t + 1)
    (hcall : (waitnext s h oid oldTs wakeupTs fuel r.tick).bind (finishWait r buf last) =
      some (a, r'))
    (hstale : ∀ k, r.tick ≤ k → k < r'.tick → Stale (s.looks k) oid (s.now k)) :
    ∃ e, a.ret = .error e := by
  obtain ⟨⟨res, t⟩, hwait, hfinish⟩ := Option.bind_eq_some_iff.mp hcall
  cases res with
  | some ret =>
      cases hfinish
      obtain ⟨e, he⟩ := waitnext_stale hflag hwait hstale
      exact ⟨e, Option.some.inj he⟩
  | none =>
      have htick := hlast t a r' hfinish
      obtain ⟨e, he⟩ := waitnext_stale hflag hwait fun k hk hkt => hstale k hk (by omega)
      cases he

/-- A wait that finds nothing stale is answered as without the flag, if its last read is. -/
theorem wait_fresh [Rounding] {last last' : Nat → Option (ReadAnswer × Reader)}
    (hlast : ∀ t a r', last t = some (a, r') → r'.tick = t + 1)
    (hlast' : ∀ t a r', last' t = some (a, r') → r'.tick = t + 1)
    (heq : ∀ t, ¬ Stale (s.looks t) oid (s.now t) → last' t = last t)
    (hfresh : ∀ k, r.tick ≤ k → k < r'.tick → ¬ Stale (s.looks k) oid (s.now k)) :
    (waitnext s.allowStale h oid oldTs wakeupTs fuel r.tick).bind (finishWait r buf last') =
        some (a, r') ↔
      (waitnext s h oid oldTs wakeupTs fuel r.tick).bind (finishWait r buf last) =
        some (a, r') := by
  rw [Option.bind_eq_some_iff, Option.bind_eq_some_iff]
  refine exists_congr fun w => ?_
  obtain ⟨res, t⟩ := w
  cases res with
  | some ret =>
      refine and_congr_left fun hfinish => ?_
      cases hfinish
      exact waitnext_fresh hfresh
  | none =>
      have hstep (htick : r'.tick = t + 1) (hle : r.tick < t) :
          (waitnext s.allowStale h oid oldTs wakeupTs fuel r.tick = some (none, t) ↔
            waitnext s h oid oldTs wakeupTs fuel r.tick = some (none, t)) ∧ last' t = last t :=
        ⟨waitnext_fresh fun k hk hkt => hfresh k hk (by omega),
          heq t (hfresh t (by omega) (by omega))⟩
      constructor
      · rintro ⟨hwait, hfinish⟩
        obtain ⟨hiff, hsame⟩ := hstep (hlast' t a r' hfinish) (waitnext_tick hwait)
        exact ⟨hiff.mp hwait, hsame.symm.trans hfinish⟩
      · rintro ⟨hwait, hfinish⟩
        obtain ⟨hiff, hsame⟩ := hstep (hlast t a r' hfinish) (waitnext_tick hwait)
        exact ⟨hiff.mpr hwait, hsame.trans hfinish⟩

theorem lastRead_tick [Rounding] {t : Nat}
    (hread : lastRead s h fuel oid r buf size t = some (a, r')) :
    r'.tick = t + 1 := by
  obtain ⟨out, -, hout⟩ := Option.map_eq_some_iff.mp hread
  cases hout
  rfl

theorem lastReadPtr_tick {t : Nat} (hread : lastReadPtr s h fuel oid r buf t = some (a, r')) :
    r'.tick = t + 1 := by
  obtain ⟨out, -, hout⟩ := Option.map_eq_some_iff.mp hread
  cases hout
  rfl

theorem lastReadPtr_allowStale (t : Nat) :
    lastReadPtr s.allowStale h fuel oid r buf t = lastReadPtr s h fuel oid r buf t := by
  have hread : readdataModePtr (s.allowStale.looks t) h .last oid 0 fuel =
      readdataModePtr (s.looks t) h .last oid 0 fuel :=
    readdataPtr_allowStale (s.looks t) h .last oid 0 fuel
  unfold lastReadPtr
  rw [hread]
  rfl

/-- A cursor is set to the newest record, unless there is none. -/
theorem readdataslotPtr_init (db : Db) (offset : Int) (objslot : ObjSlot) :
    (∃ r, (readdataslotPtr db .init offset objslot).1 = .ok r) ↔
      ∃ i, db.findmetaById objslot.oid = some i ∧ 0 ≤ (db.objmeta i).historySlot ∧
        newestTs db.heap (db.objmeta i) ≠ invalidTs := by
  rw [readdataslotPtr]
  cases hfind : db.findmetaById objslot.oid with
  | none =>
      dsimp only
      constructor
      · rintro ⟨r, hr⟩
        cases hr
      · rintro ⟨i, hi, -⟩
        cases hi
  | some i =>
      dsimp only
      by_cases hneg : (db.objmeta i).historySlot < 0
      · rw [if_pos hneg]
        constructor
        · rintro ⟨r, hr⟩
          cases hr
        · rintro ⟨j, hj, hle, -⟩
          cases hj
          omega
      · rw [if_neg hneg]
        have hplace : slotPos (db.objmeta i).historySize (db.objmeta i).historySlot 0 =
            histPos (db.objmeta i).historySize (db.objmeta i).historySlot := by
          rw [slotPos, Int.zero_tmod, Int.add_zero, histPos]
        constructor
        · rintro ⟨r, hr⟩
          obtain ⟨hts, -⟩ := readSlot_ok hplace (Prod.ext hr rfl)
          exact ⟨i, rfl, by omega, hts⟩
        · rintro ⟨j, hj, -, hts⟩
          cases hj
          rw [readSlot_eq_ok hplace hts fun hm => by cases hm]
          exact ⟨_, rfl⟩

theorem withholds_of_look [Rounding]
    (htick : ∀ s a r', r.call s h fuel c = some (a, r') → r'.tick = r.tick + 1)
    (heq : ¬ Stale (s.looks r.tick) oid (s.now r.tick) →
      r.call s.allowStale h fuel c = r.call s h fuel c) :
    Withholds s h fuel oid r c ↔
      (Stale (s.looks r.tick) oid (s.now r.tick) →
        ∀ a r', r.call s h fuel c = some (a, r') → ∃ e, a.ret = .error e) := by
  constructor
  · intro hw hstale a r' hcall
    refine hw.stale a r' hcall fun k hk hkt => ?_
    have := htick s a r' hcall
    obtain rfl : k = r.tick := by omega
    exact hstale
  · intro hfails
    constructor
    · intro a r' hcall hstale
      have := htick s a r' hcall
      exact hfails (hstale r.tick (Nat.le_refl _) (by omega)) a r' hcall
    · intro a r' hfresh
      constructor
      · intro hcall
        have := htick s.allowStale a r' hcall
        rwa [← heq (hfresh r.tick (Nat.le_refl _) (by omega))]
      · intro hcall
        have := htick s a r' hcall
        rwa [heq (hfresh r.tick (Nat.le_refl _) (by omega))]

/-- A pointer is handed out if there is a newest record to show. -/
theorem call_readdataPtr_error [Rounding] (hfuel : 0 < fuel) :
    (∀ a r', r.call s h fuel (.readdataPtr .last oid 0 buf) = some (a, r') →
        ∃ e, a.ret = .error e) ↔
      ¬ ∃ i, (s.looks r.tick).findmetaById oid = some i ∧
        Offers (s.looks r.tick) h ((s.looks r.tick).objmeta i) := by
  rw [Reader.call]
  unfold readdataModePtr
  obtain ⟨e, hsel, hno⟩ | ⟨i, hfind, ho, hsel⟩ := select_latest (s.looks r.tick) h oid fuel
  · rw [hsel]
    constructor
    · rintro - ⟨i, hi, ho⟩
      exact hno i hi ho
    · intro _ a r' hcall
      cases hcall
      exact ⟨e, rfl⟩
  · rw [hsel, if_neg (Nat.ne_of_gt hfuel)]
    constructor
    · intro hall
      obtain ⟨e, he⟩ := hall _ _ rfl
      cases he
    · intro hno
      exact absurd ⟨i, hfind, ho⟩ hno

theorem slotAnswer_error (heap : Heap) (buf : Mem) {ret : Except Err (Int × Int)} (doPtr : Bool) :
    (∃ e, (if doPtr then ptrAnswer heap buf ret
        else { ret := ret.map (·.2), buf := buf, shown := none }).ret = .error e) ↔
      ∃ e, ret = .error e := by
  cases ret <;> cases doPtr <;> simp [ptrAnswer, Except.map]

/-- A cursor is set unless there is nothing to set it to. -/
theorem slotInit_error_iff [Rounding] {db : Db} (offset : Int) (objslot : ObjSlot) {now : Timestamp}
    (hstale : Stale db objslot.oid now) :
    (∃ e, (readdataslotPtr db .init offset objslot).1 = .error e) ↔
      ¬ ∃ i, db.findmetaById objslot.oid = some i ∧ 0 ≤ (db.objmeta i).historySlot := by
  obtain ⟨i, hi, hts, -⟩ := hstale
  have hiff := readdataslotPtr_init db offset objslot
  constructor
  · rintro ⟨e, he⟩ ⟨j, hj, hle⟩
    rw [hi] at hj
    cases hj
    obtain ⟨r, hr⟩ := hiff.mpr ⟨i, hi, hle, hts⟩
    rw [he] at hr
    cases hr
  · intro hno
    cases hret : (readdataslotPtr db .init offset objslot).1 with
    | error e => exact ⟨e, rfl⟩
    | ok r =>
        obtain ⟨j, hj, hle, -⟩ := hiff.mp ⟨r, hret⟩
        exact absurd ⟨j, hj, hle⟩ hno

/-- Stale data is kept back by the calls that copy, and by the others only where they have nothing
to show. -/
theorem withholds_iff [Rounding] (hflag : ∀ k, Flagged (s.looks k) oid) (hfuel : 0 < fuel)
    (hc : Latest oid r c) : Withholds s h fuel oid r c ↔
      ¬ (Stale (s.looks r.tick) oid (s.now r.tick) ∧ ShowsUntested (s.looks r.tick) h oid c) := by
  rw [not_and]
  cases hc with
  | readdata buf size =>
      refine (withholds_of_look (fun s a r' hcall => ?_) fun hfresh => ?_).trans ?_
      · obtain ⟨out, -, hout⟩ := Option.map_eq_some_iff.mp hcall
        cases hout
        rfl
      · exact congrArg
          (Option.map fun out : ReadOut => (({ ret := out.ret, buf := out.buf, shown := none } :
            ReadAnswer), ({ r with tick := r.tick + 1 } : Reader)))
          (readdata_fresh hfresh buf size fuel)
      · refine imp_congr_right fun hstale => ⟨fun _ hshows => hshows, fun _ a r' hcall => ?_⟩
        obtain ⟨out, hread, hout⟩ := Option.map_eq_some_iff.mp hcall
        cases hout
        exact readdata_stale (hflag r.tick) hstale hread
  | readdataPtr buf =>
      refine (withholds_of_look (fun s a r' hcall => ?_) fun _ => ?_).trans
        (imp_congr_right fun _ => call_readdataPtr_error hfuel)
      · obtain ⟨ret, -, hout⟩ := Option.map_eq_some_iff.mp hcall
        cases hout
        rfl
      · exact congrArg
          (Option.map fun ret => (ptrAnswer (s.looks r.tick).heap buf ret,
            ({ r with tick := r.tick + 1 } : Reader)))
          (readdataPtr_allowStale (s.looks r.tick) h .last oid 0 fuel)
  | waitnext oldTs wakeupTs buf size =>
      refine ⟨fun _ _ hshows => hshows, fun _ => ⟨fun a r' hcall hstale => ?_,
        fun a r' hfresh => ?_⟩⟩
      · rw [call_waitnext] at hcall
        exact wait_stale hflag (fun t a r' => lastRead_tick) hcall hstale
      · rw [call_waitnext, call_waitnext]
        exact wait_fresh (fun t a r' => lastRead_tick) (fun t a r' => lastRead_tick)
          (fun t hnot => congrArg _ (readdata_fresh hnot buf size fuel)) hfresh
  | waitnextPtr oldTs wakeupTs buf =>
      refine ⟨fun _ _ hshows => hshows, fun _ => ⟨fun a r' hcall hstale => ?_,
        fun a r' hfresh => ?_⟩⟩
      · rw [call_waitnextPtr] at hcall
        exact wait_stale hflag (fun t a r' => lastReadPtr_tick) hcall hstale
      · rw [call_waitnextPtr, call_waitnextPtr]
        exact wait_fresh (fun t a r' => lastReadPtr_tick) (fun t a r' => lastReadPtr_tick)
          (fun t _ => lastReadPtr_allowStale t) hfresh
  | slotInit c =>
      refine (withholds_of_look (fun s a r' hcall => ?_) fun _ => ?_).trans
        (imp_congr_right fun hstale => ?_)
      · cases hcall
        rfl
      · rfl
      · refine Iff.trans ⟨fun hall => ?_, fun herr a r' hcall => ?_⟩
          (slotInit_error_iff 0 { r.cursors c with oid := oid } hstale)
        · exact (slotAnswer_error (s.looks r.tick).heap Mem.zero false).mp (hall _ _ rfl)
        · cases hcall
          exact (slotAnswer_error (s.looks r.tick).heap Mem.zero false).mpr herr
  | slotPtr c offset buf doPtr hoid =>
      refine (withholds_of_look (fun s a r' hcall => ?_) fun _ => ?_).trans
        (imp_congr_right fun hstale => ?_)
      · cases hcall
        rfl
      · rfl
      · rw [← hoid] at hstale
        have hiff := slotInit_error_iff offset (r.cursors c) hstale
        rw [hoid] at hiff
        refine Iff.trans ⟨fun hall => ?_, fun herr a r' hcall => ?_⟩ hiff
        · exact (slotAnswer_error (s.looks r.tick).heap buf doPtr).mp (hall _ _ rfl)
        · cases hcall
          exact (slotAnswer_error (s.looks r.tick).heap buf doPtr).mpr herr

end Calls

attribute [local instance] Rounding.exact

/-- An object that withholds stale data, with one record. -/
def staleDb : Db :=
  (writedata
    (historyDb.setMeta 0 { historyDb.objmeta 0 with flags := { withholdStale := true } })
    ⟨1, false⟩ 5 historyRecord 0x100000005).db

def staleSurround : Surround where
  looks _ := staleDb
  now _ := 0x200000005
  timedOut _ := false

theorem staleDb_find : staleDb.findmetaById 5 = some 0 := by decide +kernel

theorem staleSurround_flagged (k : Nat) : Flagged (staleSurround.looks k) 5 := by
  intro i hi
  obtain rfl : i = 0 := Option.some.inj (hi.symm.trans staleDb_find)
  exact (by decide +kernel : (staleDb.objmeta 0).flags.withholdStale = true)

theorem staleSurround_stale (k : Nat) :
    Stale (staleSurround.looks k) 5 (staleSurround.now k) := by
  have hts : newestTs staleDb.heap (staleDb.objmeta 0) = 0x100000005 := by decide +kernel
  have hage : (staleDb.objmeta 0).maxCycle <
      Rounding.float (diffSecs 0x100000005 0x200000005) := by
    decide +kernel
  refine ⟨0, staleDb_find, ?_, ?_⟩
  · exact fun h0 => absurd (hts.symm.trans h0) (by decide)
  · rw [← hts] at hage
    exact hage

/-- The copying read keeps the record back. -/
theorem withholds_iff_copying :
    Withholds staleSurround ⟨1, false⟩ 1 5 newReader (.readdata .last 5 0 .zero 64) ↔
      ¬ (Stale (staleSurround.looks 0) 5 (staleSurround.now 0) ∧
        ShowsUntested (staleSurround.looks 0) ⟨1, false⟩ 5 (.readdata .last 5 0 .zero 64)) :=
  withholds_iff staleSurround_flagged Nat.one_pos (.readdata .zero 64)

/-- The pointer read and the cursor hand it out. -/
theorem exists_not_withholds :
    (∀ k, Flagged (staleSurround.looks k) 5) ∧
      Latest 5 newReader (.readdataPtr .last 5 0 .zero) ∧ Latest 5 newReader (.slotInit 0 5) ∧
      ¬ Withholds staleSurround ⟨1, false⟩ 1 5 newReader (.readdataPtr .last 5 0 .zero) ∧
      ¬ Withholds staleSurround ⟨1, false⟩ 1 5 newReader (.slotInit 0 5) := by
  refine ⟨staleSurround_flagged, .readdataPtr .zero, .slotInit 0, fun hw => ?_, fun hw => ?_⟩
  · have hret : ((newReader.call staleSurround ⟨1, false⟩ 1 (.readdataPtr .last 5 0 .zero)).map
        fun out => out.1.ret) = some (.ok 32) := by
      decide +kernel
    obtain ⟨⟨a, r'⟩, hcall, hok⟩ := Option.map_eq_some_iff.mp hret
    obtain ⟨e, herr⟩ := hw.stale a r' hcall fun k _ _ => staleSurround_stale k
    rw [hok] at herr
    cases herr
  · have hret : ((newReader.call staleSurround ⟨1, false⟩ 1 (.slotInit 0 5)).map
        fun out => out.1.ret) = some (.ok 32) := by
      decide +kernel
    obtain ⟨⟨a, r'⟩, hcall, hok⟩ := Option.map_eq_some_iff.mp hret
    obtain ⟨e, herr⟩ := hw.stale a r' hcall fun k _ _ => staleSurround_stale k
    rw [hok] at herr
    cases herr

end KogmoRtdb
