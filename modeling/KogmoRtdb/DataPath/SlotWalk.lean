import KogmoRtdb.Lib.Lts
import KogmoRtdb.DataPath.ObjdataSlot
import KogmoRtdb.DataPath.RingHistory

/-!
# Walking through the slots

A reader follows a writer with `kogmo_rtdb_obj_readdataslot_relative(+1)`: a checked step of
`kogmo_rtdb_obj_readdataslot_ptr` to the next slot, a copy, and the check again, each at a
moment of its own. A call that fails sets the reader's cursor to the newest record before
it returns, whatever the failure.

With `-HISTWRAP` the caller knows that records are lost. With `-TOOFAST` and `-NOTFOUND` the
cursor should stay where it is, and does so only if nothing has been committed since:
`StaysGuard`.
-/

namespace KogmoRtdb

/-! ## Reader and writer -/

/-- Where the reader is: before `kogmo_rtdb_obj_readdataslot_init`, between two calls, or
within a call of `kogmo_rtdb_obj_readdataslot_relative` with a buffer of `size` bytes. -/
inductive SlotReader where
  | closed
  | idle (objslot : ObjSlot)
  | copying (objslot : ObjSlot) (objdata realsize size : Int) (data : Mem)
  | checking (objslot : ObjSlot) (realsize size : Int) (data : Mem)
  | failing (objslot : ObjSlot) (olen : Err)

/-- The answer of a relative call. A successful one leaves the record's size, the caller's
buffer and the stamp in the cursor. -/
inductive SlotResult where
  | delivered (realsize size : Int) (data : Mem) (committedTs : Timestamp)
  | failed (olen : Err)

/-- The database with the commits so far, oldest first, and the reader with the number of
commits when it began and its results, newest first. -/
structure WalkState where
  db : Db
  commits : List Commit
  reader : SlotReader
  first : Nat
  results : List SlotResult

inductive WalkOp where
  | writer (op : WriterOp)
  | init (objslot : ObjSlot)
  | relative (size : Int) (data : Mem)
  | copy
  | recheck
  | reinit

/-- A step of the writer, whose commits have increasing stamps. -/
def writerStep [Rounding] (h : Handle) (oid : ObjId) (s : WalkState)
    (op : WriterOp) : Option WalkState :=
  match op.run h oid s.db, s.db.findmetaById oid with
  | some (db, false), _ => some { s with db := db }
  | some (db, true), some i =>
      match slotCommit db.heap (s.db.objmeta i) (s.db.objmeta i).next with
      | none => none
      | some c =>
          if Continues s.commits c then some { s with db := db, commits := s.commits ++ [c] }
          else none
  | _, _ => none

/-- A step of the writer or the reader, who goes on by one slot with each call. -/
def walkStep [Rounding] (h : Handle) (oid : ObjId) (s : WalkState) : WalkOp → Option WalkState
  | .writer op => writerStep h oid s op
  | .init objslot =>
      match s.reader with
      | .closed =>
          match readdataslotInit s.db objslot oid with
          | (.ok _, objslot) =>
              some { s with reader := .idle objslot, first := s.commits.length }
          | (.error _, _) => some s
      | _ => none
  | .relative size data =>
      match s.reader with
      | .idle objslot =>
          match readdataslotPtr s.db .checked 1 objslot with
          | (.ok (objdata, realsize), objslot) =>
              some { s with reader := .copying objslot objdata realsize size data }
          | (.error olen, objslot) => some { s with reader := .failing objslot olen }
      | _ => none
  | .copy =>
      match s.reader with
      | .copying objslot objdata realsize size data =>
          let n := if realsize < size then realsize else size
          some { s with
            reader := .checking objslot realsize size
              (data.copy 0 (s.db.heap.window objdata) 0 n.toNat) }
      | _ => none
  | .recheck =>
      match s.reader with
      | .checking objslot realsize size data =>
          match readdataslotPtr s.db .checked 0 objslot with
          | (.ok _, objslot) =>
              some { s with
                reader := .idle objslot
                results := .delivered realsize size data objslot.committedTs :: s.results }
          | (.error olen, objslot) => some { s with reader := .failing objslot olen }
      | _ => none
  | .reinit =>
      match s.reader with
      | .failing objslot olen =>
          some { s with
            reader := .idle (readdataslotPtr s.db .init 0 objslot).2
            results := .failed olen :: s.results }
      | _ => none

/-- An object with `n` slots and no records, and a reader that has not begun. -/
def walkLts [Rounding] (h : Handle) (oid : ObjId) (i n : Nat) : Lts WalkState WalkOp where
  init s := EmptyRing s.db oid i n ∧ s.commits = [] ∧ s.reader = .closed ∧ s.results = []
  step := walkStep h oid

/-! ## Walks without gaps -/

/-- The call has delivered the commit `c`. -/
def Delivers (realsize size : Int) (data : Mem) (committedTs : Timestamp) (c : Commit) : Prop :=
  realsize = c.size ∧ committedTs = c.stamp ∧
    ∀ b : Nat, (b : Int) < min (c.size : Int) size → data b = c.bytes b

/-- The results of a reader that begins before commit number `first` and has come to commit
number `k`: the commits in order, with a gap only where `-HISTWRAP` says so. -/
inductive Walk (cs : List Commit) (first : Nat) : List SlotResult → Nat → Prop where
  | nil : Walk cs first [] first
  | delivered {results : List SlotResult} {k : Nat} {realsize size : Int} {data : Mem}
      {committedTs : Timestamp} {c : Commit} :
      Walk cs first results k → cs[k]? = some c → Delivers realsize size data committedTs c →
      Walk cs first (.delivered realsize size data committedTs :: results) (k + 1)
  | failed {results : List SlotResult} {k : Nat} {olen : Err} :
      Walk cs first results k → Walk cs first (.failed olen :: results) k
  | histWrap {results : List SlotResult} {k k' : Nat} :
      Walk cs first results k → k ≤ k' → Walk cs first (.failed .histWrap :: results) k'

def latestTs (db : Db) (oid : ObjId) : Option Timestamp :=
  (db.findmetaById oid).map fun i =>
    slotTs db.heap (db.objmeta i) (db.objmeta i).historySlot

/-- A call that fails otherwise than with `-HISTWRAP` sets the cursor to the record that it
is at. -/
def StaysGuard (oid : ObjId) (s : WalkState) : WalkOp → Prop
  | .reinit =>
      match s.reader with
      | .failing objslot olen =>
          olen = .histWrap ∨ latestTs s.db oid = some objslot.committedTs
      | _ => True
  | _ => True

instance (oid : ObjId) (s : WalkState) : DecidablePred (StaysGuard oid s) := fun op => by
  cases op with
  | reinit =>
      unfold StaysGuard
      dsimp only
      split <;> infer_instance
  | _ => exact isTrue trivial

variable {db db' : Db} {h : Handle} {oid : ObjId} {i n k m first : Nat} {cs : List Commit}
  {c d : Commit} {info : ObjInfo} {objslot objslot' : ObjSlot} {results : List SlotResult}
  {s s' : WalkState} {op : WalkOp}

/-! ## Positions -/

theorem slotPos_one (m : Nat) (hn : 2 ≤ n) :
    slotPos n (m % n : Nat) 1 = ((m + 1) % n : Nat) := by
  have hone : (1 : Int).tmod n = 1 := Int.tmod_eq_of_lt (by decide) (by omega)
  have hsum : ((m % n : Nat) : Int) + 1 + n = ((m % n + 1 + n : Nat) : Int) := by omega
  rw [slotPos, hone, hsum, Int.tmod_eq_emod_of_nonneg (Int.natCast_nonneg _),
    ← Int.natCast_emod, Nat.add_mod_right, Nat.mod_add_mod]

theorem slotPos_zero (m : Nat) (hn : 0 < n) : slotPos n (m % n : Nat) 0 = (m % n : Nat) := by
  rw [slotPos, Int.zero_tmod, Int.add_zero, Ring.tmod_self_add (Nat.mod_lt m hn)]

/-! ## The cursor -/

/-- The cursor is at commit number `k`. -/
def CursorAt (oid : ObjId) (i n : Nat) (cs : List Commit) (objslot : ObjSlot) (k : Nat) : Prop :=
  objslot.oid = oid ∧ objslot.objectSlot = i ∧ objslot.historySlot = (k % n : Nat) ∧
    ∃ c, cs[k]? = some c ∧ objslot.committedTs = c.stamp

theorem CursorAt.append (hc : CursorAt oid i n cs objslot k) :
    CursorAt oid i n (cs ++ [d]) objslot k := by
  obtain ⟨h1, h2, h3, c, hk, hts⟩ := hc
  exact ⟨h1, h2, h3, c, lookup_append hk, hts⟩

theorem CursorAt.lt (hc : CursorAt oid i n cs objslot k) : k < cs.length := by
  obtain ⟨-, -, -, c, hk, -⟩ := hc
  exact lookup_lt hk

/-- A checked call looks at the slot `offset` places from the cursor. -/
theorem CursorAt.read_eq {offset : Int} (hr : RingHistory db oid i n cs)
    (hc : CursorAt oid i n cs objslot k) :
    readdataslotPtr db .checked offset objslot =
      readSlot db.heap (db.objmeta i) .checked offset objslot := by
  obtain ⟨hoid, hslot, -⟩ := hc
  have hfound := Db.findmetaById_some hr.found
  exact readdataslotPtr_eq hfound.1 hslot (hoid.trans hfound.2.symm) (by decide)

/-- A step forward that succeeds comes to the next commit. -/
theorem CursorAt.forward {r : Int × Int} (hr : RingHistory db oid i n cs) (hn : 2 ≤ n)
    (hc : CursorAt oid i n cs objslot k)
    (hread : readdataslotPtr db .checked 1 objslot = (.ok r, objslot')) :
    CursorAt oid i n cs objslot' (k + 1) ∧
      ∃ c, cs[k + 1]? = some c ∧
        r = ((db.objmeta i).slotAddr ((k + 1) % n : Nat), (c.size : Int)) := by
  rw [hc.read_eq hr] at hread
  obtain ⟨hoid, hslot, hpos, c, hk, hts⟩ := hc
  have hpos' : slotPos (db.objmeta i).historySize objslot.historySlot 1 = ((k + 1) % n : Nat) := by
    rw [hr.block.historySize, hpos, slotPos_one k hn]
  obtain ⟨hvalid, hr', hobj, hcheck⟩ := readSlot_ok hpos' hread
  obtain ⟨hfinal, hahead⟩ := checkSlots_none (hcheck rfl)
  have hahead := hahead (by decide)
  rw [hts, hpos] at hfinal
  -- the old record is still there, so the writer is less than a turn ahead
  obtain ⟨hlen, -⟩ := hr.holds_of_ts hk hfinal
  obtain ⟨m, d, hm, hmlen, hmod, hheld⟩ :=
    hr.occupied_of_ts (Nat.mod_lt (k + 1) hr.block.pos) hvalid
  have hdts : slotTs db.heap (db.objmeta i) ((k + 1) % n : Nat) = d.stamp := hheld.read64_stamp
  have hklt := lookup_lt hk
  have hmlt := lookup_lt hm
  have heq : m = k + 1 := by
    by_contra hne
    rcases Nat.lt_or_gt_of_ne hne with hlt | hlt
    · -- an older record: the step would have been too fast
      by_cases hmk : m = k
      · rw [hmk] at hmod
        exact Ring.mod_ne_of_lt (show k < k + 1 by omega) (by omega) hmod.symm
      · have hold := hr.stamp_lt hm hk (show m < k by omega)
        rw [hdts, hts] at hahead
        omega
    · exact Ring.mod_ne_of_lt hlt (by omega) hmod
  subst heq
  refine ⟨⟨?_, ?_, ?_, d, hm, ?_⟩, d, hm, ?_⟩
  · rw [hobj]
    exact hoid
  · rw [hobj]
    exact hslot
  · rw [hobj]
  · rw [hobj]
    exact hdts
  · rw [hr']
    exact congrArg (Prod.mk _) hheld.read32_size

/-- The check after the copy answers with the record that the cursor is at, while that
carries its stamp. -/
theorem CursorAt.recheck {r : Int × Int} (hr : RingHistory db oid i n cs)
    (hc : CursorAt oid i n cs objslot k) (hk : cs[k]? = some c)
    (hread : readdataslotPtr db .checked 0 objslot = (.ok r, objslot')) :
    CursorAt oid i n cs objslot' k ∧ objslot'.committedTs = c.stamp ∧
      slotTs db.heap (db.objmeta i) (k % n : Nat) = c.stamp := by
  rw [hc.read_eq hr] at hread
  obtain ⟨hoid, hslot, hpos, d, hk', hts⟩ := hc
  obtain rfl := Option.some.inj (hk.symm.trans hk')
  have hpos' : slotPos (db.objmeta i).historySize objslot.historySlot 0 = (k % n : Nat) := by
    rw [hr.block.historySize, hpos, slotPos_zero k hr.block.pos]
  obtain ⟨-, -, hobj, hcheck⟩ := readSlot_ok hpos' hread
  have hfinal := (checkSlots_none (hcheck rfl)).1
  rw [hts, hpos] at hfinal
  refine ⟨⟨?_, ?_, ?_, c, hk, ?_⟩, ?_, hfinal⟩
  · rw [hobj]
    exact hoid
  · rw [hobj]
    exact hslot
  · rw [hobj]
  · rw [hobj]
    exact hfinal
  · rw [hobj]
    exact hfinal

/-- If that check fails otherwise than with `-HISTWRAP`, the slot is being written again. -/
theorem CursorAt.recheck_error {olen : Err} (hr : RingHistory db oid i n cs)
    (hc : CursorAt oid i n cs objslot k)
    (hread : readdataslotPtr db .checked 0 objslot = (.error olen, objslot')) :
    olen = .histWrap ∨ k + n ≤ cs.length := by
  rw [hc.read_eq hr] at hread
  obtain ⟨-, -, hpos, c, hk, -⟩ := hc
  have hpos' : slotPos (db.objmeta i).historySize objslot.historySlot 0 = (k % n : Nat) := by
    rw [hr.block.historySize, hpos, slotPos_zero k hr.block.pos]
  have hklt := lookup_lt hk
  rcases (readSlot_error hpos' hread).2 with ⟨-, hts⟩ | ⟨-, hcheck⟩
  · right
    rcases hr.slots (k % n) (Nat.mod_lt k hr.block.pos) with ⟨-, hv⟩ | ⟨m, d, hm, -, hmod, hheld⟩
    · rcases hv with hle | heq
      · have := Nat.mod_le k n
        omega
      · by_contra hlt
        exact Ring.mod_ne_of_lt hklt (by omega) heq
    · have hstamp : slotTs db.heap (db.objmeta i) (k % n : Nat) = d.stamp := hheld.read64_stamp
      exact absurd (hstamp.symm.trans hts) (hr.valid_of_lookup hm)
  · left
    unfold checkSlots at hcheck
    split at hcheck
    · exact (Option.some.inj hcheck).symm
    · simp at hcheck

/-- A cursor that is set anew is at the newest commit. -/
theorem RingHistory.init_cursor (hr : RingHistory db oid i n cs) (hn : 2 ≤ n)
    (hm : cs[m]? = some c) (hlast : m + 1 = cs.length) (hoid : objslot.oid = oid) :
    ∃ r, readdataslotPtr db .init 0 objslot = (.ok r, (readdataslotPtr db .init 0 objslot).2) ∧
      CursorAt oid i n cs (readdataslotPtr db .init 0 objslot).2 m := by
  obtain ⟨hlatest, hheld⟩ := hr.latest_holds hn hm hlast
  have hts : slotTs db.heap (db.objmeta i) (m % n : Nat) = c.stamp := hheld.read64_stamp
  have hge : ¬ (db.objmeta i).historySlot < 0 := by
    rw [hlatest]
    omega
  have hread : readdataslotPtr db .init 0 objslot =
      readSlot db.heap (db.objmeta i) .init 0
        { objslot with
          objectSlot := i
          historySlot := (db.objmeta i).historySlot
          committedTs := invalidTs } := by
    rw [readdataslotPtr, hoid, hr.found]
    exact if_neg hge
  have hpos : slotPos (db.objmeta i).historySize (db.objmeta i).historySlot 0 = (m % n : Nat) := by
    rw [hr.block.historySize, hlatest, slotPos_zero m hr.block.pos]
  rw [hread]
  cases hread' : readSlot db.heap (db.objmeta i) .init 0
      { objslot with
        objectSlot := i, historySlot := (db.objmeta i).historySlot, committedTs := invalidTs } with
  | mk res o =>
      cases res with
      | error olen =>
          rcases (readSlot_error hpos hread').2 with ⟨-, hinv⟩ | ⟨hmode, -⟩
          · exact absurd (hts.symm.trans hinv) (hr.valid_of_lookup hm)
          · cases hmode
      | ok r =>
          obtain ⟨-, -, hobj, -⟩ := readSlot_ok hpos hread'
          refine ⟨r, rfl, ?_⟩
          rw [hobj]
          exact ⟨hoid, rfl, rfl, c, hm, hts⟩

/-! ## The walk in a run -/

theorem Walk.append (hw : Walk cs first results k) : Walk (cs ++ [d]) first results k := by
  induction hw with
  | nil => exact .nil
  | delivered _ hk hd ih => exact .delivered ih (lookup_append hk) hd
  | failed _ ih => exact .failed ih
  | histWrap _ hle ih => exact .histWrap ih hle

/-- The reader is to deliver commit number `k` next. Between the copy and its check the
buffer is right if the slot has kept the stamp, and a call that fails otherwise than with
`-HISTWRAP` has its cursor's stamp from the last commit delivered, or is to be seen to have
fallen behind. -/
def ReaderAt (db : Db) (oid : ObjId) (i n : Nat) (cs : List Commit) (k : Nat) :
    SlotReader → Prop
  | .closed => True
  | .idle objslot => ∃ j, k = j + 1 ∧ CursorAt oid i n cs objslot j
  | .copying objslot objdata realsize _ _ =>
      CursorAt oid i n cs objslot k ∧ ∃ c, cs[k]? = some c ∧
        objdata = (db.objmeta i).slotAddr (k % n : Nat) ∧ realsize = c.size
  | .checking objslot realsize size data =>
      CursorAt oid i n cs objslot k ∧ ∃ c, cs[k]? = some c ∧ realsize = c.size ∧
        (slotTs db.heap (db.objmeta i) (k % n : Nat) = c.stamp →
          ∀ b : Nat, (b : Int) < min (c.size : Int) size → data b = c.bytes b)
  | .failing objslot olen =>
      objslot.oid = oid ∧ 0 < cs.length ∧ k ≤ cs.length ∧
        (olen ≠ .histWrap → ∃ j c, cs[j]? = some c ∧ objslot.committedTs = c.stamp ∧
          (j + 1 = k ∨ j + 1 < cs.length))

structure WalkInv (oid : ObjId) (i n : Nat) (s : WalkState) : Prop where
  history : RingHistory s.db oid i n s.commits
  walk : ∃ k, Walk s.commits s.first s.results k ∧ ReaderAt s.db oid i n s.commits k s.reader
  fresh : s.reader = .closed → s.results = []

theorem ReaderAt.writer {reader : SlotReader} {cs' : List Commit}
    (hat : ReaderAt db oid i n cs k reader) (hcs : cs' = cs ∨ ∃ d, cs' = cs ++ [d])
    (haddr : (db'.objmeta i).slotAddr (k % n : Nat) = (db.objmeta i).slotAddr (k % n : Nat))
    (hts : ∀ c, cs[k]? = some c → slotTs db'.heap (db'.objmeta i) (k % n : Nat) = c.stamp →
      slotTs db.heap (db.objmeta i) (k % n : Nat) = c.stamp) :
    ReaderAt db' oid i n cs' k reader := by
  have hcursor {o : ObjSlot} {j : Nat} (hc : CursorAt oid i n cs o j) :
      CursorAt oid i n cs' o j := by
    rcases hcs with rfl | ⟨d, rfl⟩
    · exact hc
    · exact hc.append
  have hlookup {j : Nat} {c : Commit} (hj : cs[j]? = some c) : cs'[j]? = some c := by
    rcases hcs with rfl | ⟨d, rfl⟩
    · exact hj
    · exact lookup_append hj
  have hlen : cs.length ≤ cs'.length := by
    rcases hcs with rfl | ⟨d, rfl⟩
    · exact Nat.le_refl _
    · rw [List.length_append]
      exact Nat.le_add_right _ _
  cases reader with
  | closed => trivial
  | idle objslot =>
      obtain ⟨j, hk, hc⟩ := hat
      exact ⟨j, hk, hcursor hc⟩
  | copying objslot objdata realsize size data =>
      obtain ⟨hc, c, hk, hobj, hsize⟩ := hat
      exact ⟨hcursor hc, c, hlookup hk, hobj.trans haddr.symm, hsize⟩
  | checking objslot realsize size data =>
      obtain ⟨hc, c, hk, hsize, hdata⟩ := hat
      exact ⟨hcursor hc, c, hlookup hk, hsize, fun h => hdata (hts c hk h)⟩
  | failing objslot olen =>
      obtain ⟨hoid, hpos, hle, hstays⟩ := hat
      refine ⟨hoid, by omega, by omega, fun hne => ?_⟩
      obtain ⟨j, c, hj, hstamp, hnext⟩ := hstays hne
      exact ⟨j, c, hlookup hj, hstamp, hnext.imp_right fun h => by omega⟩

theorem walkInv_writer [Rounding] {wop : WriterOp} (hI : WalkInv oid i n s)
    (hs : writerStep h oid s wop = some s') : WalkInv oid i n s' := by
  obtain ⟨hr, ⟨k, hwalk, hat⟩, hfresh⟩ := hI
  unfold writerStep at hs
  cases hrun : wop.run h oid s.db with
  | none =>
      rw [hrun] at hs
      cases hs
  | some out =>
      obtain ⟨db, committed⟩ := out
      rw [hrun] at hs
      rcases WriterOp.run_cases hrun with ⟨rfl, rfl⟩ | ⟨j, hj, -, ⟨rfl, hp⟩ | ⟨rfl, hst⟩⟩
      · cases hs
        exact ⟨hr, ⟨k, hwalk, hat⟩, hfresh⟩
      · cases hs
        obtain rfl := Option.some.inj (hj.symm.trans hr.found)
        refine ⟨hr.prepares hp, ⟨k, hwalk, hat.writer (Or.inl rfl) ?_ fun c hk hts => ?_⟩, hfresh⟩
        · rw [hp.objmeta]
        · rw [hp.objmeta] at hts
          exact hr.ts_of_prepares hp hk hts
      · obtain rfl := Option.some.inj (hj.symm.trans hr.found)
        rw [hr.found] at hs
        obtain ⟨c, hc⟩ := hst.exists_slotCommit
        dsimp only at hs
        rw [hc] at hs
        dsimp only at hs
        split at hs
        · rename_i hcont
          cases hs
          have hinfo : db.objmeta j =
              { s.db.objmeta j with historySlot := (s.db.objmeta j).next } := by
            rw [hst.objmeta, Function.update_self]
          refine ⟨hr.stores hst hc hcont,
            ⟨k, hwalk.append, hat.writer (Or.inr ⟨c, rfl⟩) ?_ fun d hk hts => ?_⟩, hfresh⟩
          · rw [hinfo]
            rfl
          · rw [hinfo] at hts
            exact hr.ts_of_stores hst hc hcont hk hts
        · cases hs

theorem walkInv_init [Rounding] (hn : 2 ≤ n) (hI : WalkInv oid i n s)
    (hs : walkStep h oid s (.init objslot) = some s') : WalkInv oid i n s' := by
  have hr := hI.history
  unfold walkStep at hs
  dsimp only at hs
  split at hs
  · rename_i hclosed
    have hfresh := hI.fresh hclosed
    split at hs
    · rename_i r objslot' hinit
      cases hs
      refine ⟨hr, ?_, fun hcl => by cases hcl⟩
      -- the object has been written, and the cursor is at the newest commit
      obtain ⟨m, hlast⟩ : ∃ m, m + 1 = s.commits.length := by
        cases hcs : s.commits with
        | nil =>
            have hneg : (s.db.objmeta i).historySlot = -1 := by
              rw [hr.latest, hcs]
              rfl
            exfalso
            rw [readdataslotInit, readdataslotPtr, hr.found] at hinit
            dsimp only at hinit
            rw [hneg, if_pos (by decide)] at hinit
            cases hinit
        | cons c cs => exact ⟨cs.length, rfl⟩
      obtain ⟨c, hm⟩ : ∃ c, s.commits[m]? = some c :=
        ⟨_, List.getElem?_eq_getElem (by omega)⟩
      obtain ⟨r', -, hcur⟩ :=
        hr.init_cursor hn hm hlast (rfl : { objslot with oid := oid }.oid = oid)
      have hobj : objslot' = (readdataslotPtr s.db .init 0 { objslot with oid := oid }).2 :=
        (congrArg Prod.snd hinit).symm
      rw [hfresh, hobj]
      exact ⟨s.commits.length, .nil, m, hlast.symm, hcur⟩
    · cases hs
      exact hI
  · cases hs

theorem walkInv_relative [Rounding] {size : Int} {data : Mem} (hn : 2 ≤ n) (hI : WalkInv oid i n s)
    (hs : walkStep h oid s (.relative size data) = some s') : WalkInv oid i n s' := by
  obtain ⟨hr, ⟨k, hwalk, hat⟩, -⟩ := hI
  unfold walkStep at hs
  dsimp only at hs
  split at hs
  · rename_i objslot hreader
    rw [hreader] at hat
    obtain ⟨j, rfl, hcur⟩ := hat
    split at hs
    · rename_i objdata realsize objslot' hread
      cases hs
      obtain ⟨hcur', c, hk, hres⟩ := hcur.forward hr hn hread
      obtain ⟨hobj, hsize⟩ := Prod.mk.inj hres
      exact ⟨hr, ⟨j + 1, hwalk, hcur', c, hk, hobj, hsize⟩, fun hcl => by cases hcl⟩
    · rename_i olen objslot' hread
      cases hs
      have hlt := hcur.lt
      rw [hcur.read_eq hr] at hread
      obtain ⟨hobj, -⟩ := readSlot_error rfl hread
      obtain ⟨hoid, -, -, c, hk, hts⟩ := hcur
      refine ⟨hr,
        ⟨j + 1, hwalk, ?_, Nat.zero_lt_of_lt hlt, hlt, fun _ => ⟨j, c, hk, ?_, Or.inl rfl⟩⟩,
        fun hcl => by cases hcl⟩ <;> rw [hobj]
      · exact hoid
      · exact hts
  · cases hs

theorem walkInv_copy [Rounding] (hI : WalkInv oid i n s) (hs : walkStep h oid s .copy = some s') :
    WalkInv oid i n s' := by
  obtain ⟨hr, ⟨k, hwalk, hat⟩, -⟩ := hI
  unfold walkStep at hs
  dsimp only at hs
  split at hs
  · rename_i objslot objdata realsize size data hreader
    rw [hreader] at hat
    obtain ⟨hcur, c, hk, hobj, hsize⟩ := hat
    cases hs
    refine ⟨hr, ⟨k, hwalk, hcur, c, hk, hsize, fun hts b hb => ?_⟩, fun hcl => by cases hcl⟩
    -- the slot carries the stamp, so what was copied is the record
    obtain ⟨-, hheld⟩ := hr.holds_of_ts hk hts
    have hmin : (if realsize < size then realsize else size) = min (c.size : Int) size := by
      rw [hsize, Int.min_def]
      split <;> split <;> omega
    rw [hmin, hobj, Mem.copy_inside (Nat.zero_le b) (by omega), Nat.sub_zero, Nat.zero_add]
    exact hheld b (by omega)
  · cases hs

theorem walkInv_recheck [Rounding] (hn : 2 ≤ n) (hI : WalkInv oid i n s)
    (hs : walkStep h oid s .recheck = some s') : WalkInv oid i n s' := by
  obtain ⟨hr, ⟨k, hwalk, hat⟩, -⟩ := hI
  unfold walkStep at hs
  dsimp only at hs
  split at hs
  · rename_i objslot realsize size data hreader
    rw [hreader] at hat
    obtain ⟨hcur, c, hk, hsize, hdata⟩ := hat
    split at hs
    · rename_i r objslot' hread
      cases hs
      obtain ⟨hcur', hstamp, hts⟩ := hcur.recheck hr hk hread
      have hwalk' := hwalk.delivered hk ⟨hsize, hstamp, hdata hts⟩
      exact ⟨hr, ⟨k + 1, hwalk', k, rfl, hcur'⟩, fun hcl => by cases hcl⟩
    · rename_i olen objslot' hread
      cases hs
      have hlt := hcur.lt
      have hfail := hcur.recheck_error hr hread
      rw [hcur.read_eq hr] at hread
      obtain ⟨hobj, -⟩ := readSlot_error rfl hread
      obtain ⟨hoid, -, -, d, hk', hts⟩ := hcur
      refine ⟨hr, ⟨k, hwalk, ?_, Nat.zero_lt_of_lt hlt, hlt.le, fun hne =>
        ⟨k, d, hk', ?_, Or.inr ?_⟩⟩,
        fun hcl => by cases hcl⟩
      · rw [hobj]
        exact hoid
      · rw [hobj]
        exact hts
      · rcases hfail with heq | hle
        · exact absurd heq hne
        · have hbehind : k + 1 < s.commits.length := by omega
          exact hbehind
  · cases hs

theorem walkInv_reinit [Rounding] (hn : 2 ≤ n) (hI : WalkInv oid i n s)
    (hg : StaysGuard oid s .reinit)
    (hs : walkStep h oid s .reinit = some s') : WalkInv oid i n s' := by
  obtain ⟨hr, ⟨k, hwalk, hat⟩, -⟩ := hI
  unfold walkStep at hs
  dsimp only at hs
  split at hs
  · rename_i objslot olen hreader
    rw [hreader] at hat
    obtain ⟨hoid, hpos, hle, hstays⟩ := hat
    cases hs
    obtain ⟨m, hlast⟩ : ∃ m, m + 1 = s.commits.length := ⟨s.commits.length - 1, by omega⟩
    obtain ⟨c, hm⟩ : ∃ c, s.commits[m]? = some c := ⟨_, List.getElem?_eq_getElem (by omega)⟩
    obtain ⟨r, -, hcur⟩ := hr.init_cursor hn hm hlast hoid
    by_cases hwrap : olen = .histWrap
    · subst hwrap
      exact ⟨hr, ⟨m + 1, hwalk.histWrap (by omega), m, rfl, hcur⟩, fun hcl => by cases hcl⟩
    · -- the newest commit has the stamp of the cursor, so it is the last one delivered
      obtain ⟨j, d, hj, hstamp, hnext⟩ := hstays hwrap
      have hlatest : slotTs s.db.heap (s.db.objmeta i) (s.db.objmeta i).historySlot =
          objslot.committedTs := by
        unfold StaysGuard at hg
        dsimp only at hg
        rw [hreader, latestTs, hr.found] at hg
        exact Option.some.inj (hg.resolve_left hwrap)
      obtain ⟨hslot, hheld⟩ := hr.latest_holds hn hm hlast
      have hts : slotTs s.db.heap (s.db.objmeta i) (m % n : Nat) = c.stamp := hheld.read64_stamp
      rw [hslot, hts, hstamp] at hlatest
      have heq := hr.eq_of_stamp hm hj hlatest
      refine ⟨hr, ⟨k, hwalk.failed, m, by omega, hcur⟩, fun hcl => by cases hcl⟩
  · cases hs

theorem walkInv_step [Rounding] (hn : 2 ≤ n) (hI : WalkInv oid i n s) (hg : StaysGuard oid s op)
    (hs : walkStep h oid s op = some s') : WalkInv oid i n s' := by
  cases op with
  | writer wop => exact walkInv_writer hI hs
  | init objslot => exact walkInv_init hn hI hs
  | relative size data => exact walkInv_relative hn hI hs
  | copy => exact walkInv_copy hI hs
  | recheck => exact walkInv_recheck hn hI hs
  | reinit => exact walkInv_reinit hn hI hg hs

/-- The slot walk: for every history size from 2 on, in every run in which a call that fails
otherwise than with `-HISTWRAP` sets the cursor to the record that it is at, the successful
calls deliver the commits after the first one in order, without a gap and none twice, but
for the gaps that `-HISTWRAP` announces. -/
theorem walk_of_guarded [Rounding] (hn : 2 ≤ n)
    (hr : (walkLts h oid i n).Guarded (StaysGuard oid) s) :
    ∃ k, Walk s.commits s.first s.results k := by
  have hinv : WalkInv oid i n s := by
    refine hr.invariant (I := WalkInv oid i n) ?_ fun s op s' hI hg hs => walkInv_step hn hI hg hs
    rintro s ⟨hempty, hcs, hclosed, hnil⟩
    refine ⟨?_, ⟨s.first, ?_, ?_⟩, fun _ => hnil⟩
    · rw [hcs]
      exact hempty.history
    · rw [hnil]
      exact .nil
    · rw [hclosed]
      trivial
  obtain ⟨k, hwalk, -⟩ := hinv.walk
  exact ⟨k, hwalk⟩

def SlotResult.outcome : SlotResult → Except Err Timestamp
  | .delivered _ _ _ committedTs => .ok committedTs
  | .failed olen => .error olen

/-- The stamps of the records delivered, oldest first. -/
def deliveredTs (results : List SlotResult) : List Timestamp :=
  ((results.map SlotResult.outcome).filterMap Except.toOption).reverse

theorem deliveredTs_delivered {realsize size : Int} {data : Mem} {committedTs : Timestamp} :
    deliveredTs (.delivered realsize size data committedTs :: results) =
      deliveredTs results ++ [committedTs] := List.reverse_cons

theorem deliveredTs_failed {olen : Err} :
    deliveredTs (.failed olen :: results) = deliveredTs results := rfl

/-- Without `-HISTWRAP` a walk delivers the commits from its first on. -/
theorem Walk.deliveredTs (hw : Walk cs first results k) (hno : .failed .histWrap ∉ results) :
    ∃ j, k = first + j ∧
      KogmoRtdb.deliveredTs results = ((cs.drop first).take j).map Commit.stamp := by
  induction hw with
  | nil => exact ⟨0, rfl, rfl⟩
  | @delivered results k realsize size data committedTs c hw hk hd ih =>
      obtain ⟨j, rfl, hts⟩ := ih fun hmem => hno (List.mem_cons_of_mem _ hmem)
      refine ⟨j + 1, rfl, ?_⟩
      rw [deliveredTs_delivered, hts, List.take_add_one, List.getElem?_drop, hk, hd.2.1,
        List.map_append]
      rfl
  | failed hw ih =>
      obtain ⟨j, hk, hts⟩ := ih fun hmem => hno (List.mem_cons_of_mem _ hmem)
      exact ⟨j, hk, deliveredTs_failed.trans hts⟩
  | histWrap hw hle ih => exact absurd List.mem_cons_self hno

theorem historyDb_emptyRing : EmptyRing historyDb 5 0 2 where
  found := historyDb_fresh.found
  block := historyDb_fresh.block
  slot := rfl
  empty _ _ := (by decide : Mem.zero.read64 0 = invalidTs)

/-- The reader is told that there is nothing new, and then gets the next record. -/
theorem walk_of_guarded_next :
    ∃ s, (walkLts ⟨1, false⟩ 5 0 2).Guarded (StaysGuard 5) s ∧
      (∃ k, Walk s.commits s.first s.results k) ∧
      s.results.map SlotResult.outcome = [.ok 0x100000002, .error .notFound] := by
  obtain ⟨s, hr, hp⟩ := (walkLts ⟨1, false⟩ 5 0 2).exists_of_execGuarded (G := StaysGuard 5)
    (g := fun s op => decide (StaysGuard 5 s op)) (fun _ _ => of_decide_eq_true)
    [.writer (.writedata historyRecord 0x100000001), .init ⟨0, 0, 0, 0⟩, .relative 32 .zero,
      .reinit, .writer (.writedata historyRecord 0x100000002), .relative 32 .zero, .copy,
      .recheck]
    (fun s => decide
      (s.results.map SlotResult.outcome = [.ok 0x100000002, .error .notFound]))
    (s := ⟨historyDb, [], .closed, 0, []⟩) ⟨historyDb_emptyRing, rfl, rfl, rfl⟩
    (by decide +kernel)
  exact ⟨s, hr, walk_of_guarded (by decide) hr, of_decide_eq_true hp⟩

/-- The writer commits between the failing step, which finds no newer record, and the
setting of the cursor: that record is never delivered. -/
theorem exists_not_walk :
    ∃ s, (walkLts ⟨1, false⟩ 5 0 2).Reachable s ∧ .failed .histWrap ∉ s.results ∧
      ¬ ∃ k, Walk s.commits s.first s.results k := by
  obtain ⟨s, hr, hp⟩ := (walkLts ⟨1, false⟩ 5 0 2).exists_of_exec
    [.writer (.writedata historyRecord 0x100000001),
      .writer (.writedata historyRecord 0x100000002), .init ⟨0, 0, 0, 0⟩, .relative 32 .zero,
      .writer (.writedata historyRecord 0x100000003), .reinit,
      .writer (.writedata historyRecord 0x100000004), .relative 32 .zero, .copy, .recheck]
    (fun s => decide (s.first = 2 ∧ s.commits.map Commit.stamp =
        [0x100000001, 0x100000002, 0x100000003, 0x100000004] ∧
      s.results.map SlotResult.outcome = [.ok 0x100000004, .error .tooFast]))
    (s := ⟨historyDb, [], .closed, 0, []⟩) ⟨historyDb_emptyRing, rfl, rfl, rfl⟩
    (by decide +kernel)
  obtain ⟨hfirst, hstamps, hresults⟩ := of_decide_eq_true hp
  have hno : .failed .histWrap ∉ s.results := fun hmem => by
    have hmem' : Except.error .histWrap ∈ s.results.map SlotResult.outcome :=
      List.mem_map_of_mem hmem
    rw [hresults] at hmem'
    exact absurd hmem' (by decide)
  refine ⟨s, hr, hno, ?_⟩
  rintro ⟨k, hwalk⟩
  obtain ⟨j, -, hts⟩ := hwalk.deliveredTs hno
  rw [deliveredTs, hresults, hfirst, List.map_take, List.map_drop, hstamps] at hts
  cases j with
  | zero => exact absurd hts (by decide)
  | succ j =>
      rw [List.drop_succ_cons, List.drop_succ_cons, List.drop_zero, List.take_succ_cons] at hts
      exact absurd (List.head_eq_of_cons_eq hts) (by decide)

end KogmoRtdb
