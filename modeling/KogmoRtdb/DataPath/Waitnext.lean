import KogmoRtdb.DataPath.ReadDeny

/-!
# Waiting for new data

What `kogmo_rtdb_obj_readdata_waitnext_until` promises: an answer without an error is that of a
record newer than `old_ts`, in the caller's buffer, and giving up at `wakeup_ts` is told by
`-TIMEOUT`. One variable holds the answers of the header's read, of the wait and of the last read,
and where the wait polls it is the first of these that a wait given up returns
(`waitnextContract_iff`).
-/

namespace KogmoRtdb

/-! ## The newest record -/

/-- The stamp in the slot where a read looks for the newest record. -/
def newestTs (heap : Heap) (info : ObjInfo) : Timestamp :=
  slotTs heap info (histPos info.historySize info.historySlot)

/-- `kogmo_rtdb_obj_readdata__mode` has a newest record to show to the caller. -/
structure Offers (db : Db) (h : Handle) (info : ObjInfo) : Prop where
  block : info.bufferIdx ≠ 0
  allowed : info.readDenied h = false
  ring : info.historySize ≠ 0
  written : hiWord (newestTs db.heap info) ≠ hiWord invalidTs
  live : info.deletedTs = invalidTs

variable {db : Db} {h : Handle} {oid : ObjId} {i fuel tick t : Nat} {s : Surround}
  {oldTs wakeupTs now : Timestamp} {noNotifies : Bool} {res : Option Result} {buf : Mem}
  {size n : Int}

/-- The latest data is the record in the newest slot, or there is an error. -/
theorem select_latest (db : Db) (h : Handle) (oid : ObjId) (fuel : Nat) :
    (∃ e, select db h .last oid 0 fuel = some (.error e) ∧
        ∀ i, db.findmetaById oid = some i → ¬ Offers db h (db.objmeta i)) ∨
      ∃ i, db.findmetaById oid = some i ∧ Offers db h (db.objmeta i) ∧
        select db h .last oid 0 fuel = if fuel = 0 then none else
          some (.ok (db.objmeta i, probeAt db.heap (db.objmeta i) .last
            (histPos (db.objmeta i).historySize (db.objmeta i).historySlot))) := by
  unfold select
  cases hfind : db.findmetaById oid with
  | none => exact Or.inl ⟨_, rfl, fun i hi => by cases hi⟩
  | some i =>
      dsimp only
      have hno (hn : ¬ Offers db h (db.objmeta i)) :
          ∀ j, some i = some j → ¬ Offers db h (db.objmeta j) := fun j hj => by
        cases hj
        exact hn
      by_cases hidx : (db.objmeta i).bufferIdx = 0
      · rw [if_pos hidx]
        exact Or.inl ⟨_, rfl, hno fun ho => ho.block hidx⟩
      rw [if_neg hidx]
      by_cases hden : (db.objmeta i).readDenied h = true
      · rw [if_pos hden]
        exact Or.inl ⟨_, rfl, hno fun ho => absurd (ho.allowed.symm.trans hden) (by decide)⟩
      rw [if_neg hden]
      have hword : (slotWindow db.heap (db.objmeta i)
          (histPos (db.objmeta i).historySize (db.objmeta i).historySlot)).read32 4 =
            hiWord (newestTs db.heap (db.objmeta i)) :=
        (hiWord_ofWords ..).symm
      by_cases hsize : (db.objmeta i).historySize = 0
      · have hscan : histscan db.heap (db.objmeta i) 0 0 0 = none := if_pos hsize
        rw [hscan]
        exact Or.inl ⟨_, rfl, hno fun ho => ho.ring hsize⟩
      by_cases hts : hiWord (newestTs db.heap (db.objmeta i)) = hiWord invalidTs
      · have hscan : histscan db.heap (db.objmeta i) 0 0 0 = none := by
          unfold histscan
          rw [if_neg hsize]
          dsimp only
          rw [if_pos rfl, if_pos rfl, if_neg fun hc => hc.2 rfl, if_pos (hword.trans hts)]
        rw [hscan]
        exact Or.inl ⟨_, rfl, hno fun ho => ho.written hts⟩
      have hscan : histscan db.heap (db.objmeta i) 0 0 0 =
          some (histPos (db.objmeta i).historySize (db.objmeta i).historySlot,
            (db.objmeta i).historySlot) := by
        unfold histscan
        rw [if_neg hsize]
        dsimp only
        rw [if_pos rfl, if_pos rfl, if_neg fun hc => hc.2 rfl,
          if_neg fun hz => hts (hword.symm.trans hz)]
      rw [hscan]
      dsimp only
      by_cases hdel : (db.objmeta i).deletedTs = invalidTs
      · rw [if_neg fun hc => hc.2.2 hdel]
        refine Or.inr ⟨i, rfl, ⟨hidx, (Bool.not_eq_true _).mp hden, hsize, hts, hdel⟩, ?_⟩
        cases fuel <;> rfl
      · rw [if_pos ⟨rfl, rfl, hdel⟩]
        exact Or.inl ⟨_, rfl, hno fun ho => hdel ho.live⟩

/-- The caller's buffer has the object's newest record, which is newer than `oldTs`. -/
def Filled (db : Db) (oid : ObjId) (oldTs : Timestamp) (size n : Int) (buf : Mem) : Prop :=
  ∃ i, db.findmetaById oid = some i ∧
    oldTs.toInt < (newestTs db.heap (db.objmeta i)).toInt ∧
    buf.read64 0 = newestTs db.heap (db.objmeta i) ∧
    n = slotSize db.heap (db.objmeta i)
      (histPos (db.objmeta i).historySize (db.objmeta i).historySlot) ∧
    ∀ b : Nat, 8 ≤ b → (b : Int) < min n size → ¬ (20 ≤ b ∧ b < 24) →
      buf b = slotWindow db.heap (db.objmeta i)
        (histPos (db.objmeta i).historySize (db.objmeta i).historySlot) b

section

variable [Rounding]

theorem copyOut_buf (heap : Heap) (info : ObjInfo) (p : Probe) (size : Int) (buf : Mem)
    (now : Timestamp) :
    (copyOut heap info p size buf now).buf =
      ((buf.copy 0 (slotWindow heap info p.slot) 0
        (min (slotSize heap info p.slot) size).toNat).write32
        20 (BitVec.ofInt 32 (min (slotSize heap info p.slot) size))).write64 0
          (slotTs heap info p.slot) := by
  have hmin : min (slotSize heap info p.slot) size =
      if slotSize heap info p.slot ≤ size then slotSize heap info p.slot else size :=
    Int.min_def ..
  rw [hmin]
  unfold copyOut
  dsimp only
  split
  · rfl
  · split <;> rfl

theorem copyOut_ret_ok {heap : Heap} {info : ObjInfo} {p : Probe}
    (hret : (copyOut heap info p size buf now).ret = .ok n) :
    n = slotSize heap info p.slot ∧ slotTs heap info p.slot = p.ts := by
  unfold copyOut at hret
  dsimp only at hret
  split at hret
  · cases hret
  · rename_i hts
    split at hret
    · cases hret
    · cases hret
      exact ⟨rfl, not_not.mp hts⟩

/-- A copying read of the latest data that succeeds has filled the buffer. -/
theorem readdata_ok (oldTs : Timestamp) {out : ReadOut}
    (hread : readdataMode db h .last oid 0 buf size now fuel = some out) (hret : out.ret = .ok n) :
    ∃ i, db.findmetaById oid = some i ∧ Offers db h (db.objmeta i) ∧
      out.buf.read64 0 = newestTs db.heap (db.objmeta i) ∧
      (oldTs.toInt < (newestTs db.heap (db.objmeta i)).toInt →
        Filled db oid oldTs size n out.buf) := by
  unfold readdataMode at hread
  obtain ⟨e, hsel, -⟩ | ⟨i, hfind, ho, hsel⟩ := select_latest db h oid fuel
  · rw [hsel] at hread
    cases hread
    cases hret
  rw [hsel] at hread
  split at hread
  · cases hread
  cases hread
  obtain ⟨hn, -⟩ := copyOut_ret_ok hret
  dsimp only
  rw [copyOut_buf]
  have hstamp (m : Mem) : (m.write64 0 (newestTs db.heap (db.objmeta i))).read64 0 =
      newestTs db.heap (db.objmeta i) := Mem.read64_write64 ..
  refine ⟨i, hfind, ho, hstamp _, fun hnew => ⟨i, hfind, hnew, hstamp _, hn, fun b h8 hb hsz => ?_⟩⟩
  have hb : (b : Int) < min (slotSize db.heap (db.objmeta i)
      (histPos (db.objmeta i).historySize (db.objmeta i).historySlot)) size := hn ▸ hb
  rw [Mem.write64_outside (by omega), Mem.write32_outside (by omega),
    Mem.copy_inside (Nat.zero_le b) (by dsimp only [probeAt]; omega), Nat.sub_zero, Nat.zero_add]
  rfl

/-! ## The loop -/

/-- A turn of the loop: the answer with which it ends, if it does. -/
def waitTurn (s : Surround) (oldTs wakeupTs : Timestamp) (noNotifies : Bool) (i tick : Nat)
    (out : ReadOut) : Option (Option Result) :=
  match waitnextJudge oldTs ((s.looks (tick + 1)).objmeta i).deletedTs out with
  | some none => some none
  | some (some e) => some (some (.error e))
  | none =>
      (waitnextTimeout ((s.looks (tick + 1)).objmeta i) noNotifies (s.timedOut (tick + 1))
        (s.now (tick + 1)) wakeupTs out.ret).map some

theorem waitnextLoop_succ (s : Surround) (h : Handle) (oid : ObjId) (oldTs wakeupTs : Timestamp)
    (noNotifies : Bool) (i fuel tick : Nat) :
    waitnextLoop s h oid oldTs wakeupTs noNotifies i (fuel + 1) tick =
      (readdata (s.looks tick) h oid 0 Mem.zero 24 (s.now tick) fuel).bind fun out =>
        match waitTurn s oldTs wakeupTs noNotifies i tick out with
        | some res => some (res, tick + 2)
        | none => waitnextLoop s h oid oldTs wakeupTs noNotifies i fuel (tick + 2) := by
  rw [waitnextLoop]
  cases readdata (s.looks tick) h oid 0 Mem.zero 24 (s.now tick) fuel with
  | none => rfl
  | some out =>
      simp only [Option.bind_some, waitTurn]
      cases waitnextJudge oldTs ((s.looks (tick + 1)).objmeta i).deletedTs out with
      | some j => cases j <;> rfl
      | none =>
          dsimp only
          cases waitnextTimeout ((s.looks (tick + 1)).objmeta i) noNotifies
            (s.timedOut (tick + 1)) (s.now (tick + 1)) wakeupTs out.ret <;> rfl

/-- A loop that ends has come to the turn in which it does, or has gone on from its first. -/
theorem waitnextLoop_some
    (hloop : waitnextLoop s h oid oldTs wakeupTs noNotifies i (fuel + 1) tick = some (res, t)) :
    ∃ out, readdata (s.looks tick) h oid 0 Mem.zero 24 (s.now tick) fuel = some out ∧
      (waitTurn s oldTs wakeupTs noNotifies i tick out = some res ∧ t = tick + 2 ∨
        waitTurn s oldTs wakeupTs noNotifies i tick out = none ∧
          waitnextLoop s h oid oldTs wakeupTs noNotifies i fuel (tick + 2) = some (res, t)) := by
  rw [waitnextLoop_succ] at hloop
  obtain ⟨out, hread, hturn⟩ := Option.bind_eq_some_iff.mp hloop
  refine ⟨out, hread, ?_⟩
  cases hout : waitTurn s oldTs wakeupTs noNotifies i tick out with
  | some res' =>
      rw [hout] at hturn
      cases hturn
      exact Or.inl ⟨rfl, rfl⟩
  | none =>
      rw [hout] at hturn
      exact Or.inr ⟨rfl, hturn⟩

theorem waitnextLoop_tick
    (hloop : waitnextLoop s h oid oldTs wakeupTs noNotifies i fuel tick = some (res, t)) :
    tick + 2 ≤ t := by
  induction fuel generalizing tick with
  | zero => cases hloop
  | succ fuel ih =>
      obtain ⟨out, -, ⟨-, ht⟩ | ⟨-, hrest⟩⟩ := waitnextLoop_some hloop
      · omega
      · have := ih hrest
        omega

/-- Whatever a turn that ends the loop has read is what the loop ends with. -/
theorem waitnextLoop_last
    (hloop : waitnextLoop s h oid oldTs wakeupTs noNotifies i fuel tick = some (res, t)) :
    ∃ k fuel' out, tick ≤ k ∧ t = k + 2 ∧
      readdata (s.looks k) h oid 0 Mem.zero 24 (s.now k) fuel' = some out ∧
      waitTurn s oldTs wakeupTs noNotifies i k out = some res := by
  induction fuel generalizing tick with
  | zero => cases hloop
  | succ fuel ih =>
      obtain ⟨out, hread, ⟨hturn, ht⟩ | ⟨-, hrest⟩⟩ := waitnextLoop_some hloop
      · exact ⟨tick, fuel, out, Nat.le_refl tick, ht, hread, hturn⟩
      · obtain ⟨k, fuel', out', hk, hrest⟩ := ih hrest
        exact ⟨k, fuel', out', by omega, hrest⟩

omit [Rounding] in
/-- What is judged neither new data nor an error: there is none yet, or it is old. -/
theorem waitnextJudge_none {deletedTs : Timestamp} {out : ReadOut}
    (hjudge : waitnextJudge oldTs deletedTs out = none) :
    (∃ n, out.ret = .ok n) ∨ out.ret = .error .notFound := by
  unfold waitnextJudge at hjudge
  cases hret : out.ret with
  | ok n => exact Or.inl ⟨n, rfl⟩
  | error e =>
      rw [hret] at hjudge
      cases e with
      | notFound => exact Or.inr rfl
      | _ => cases hjudge

/-! ## Giving up -/

/-- `wakeup_ts` would be passed by going on. -/
def TimesUp (info : ObjInfo) (noNotifies timedOut : Bool) (now wakeupTs : Timestamp) : Prop :=
  if noNotifies then wakeupTs ≠ invalidTs ∧ wakeupTs.toInt < (addSecs now info.pollTime).toInt
  else timedOut = true

instance (info : ObjInfo) (noNotifies timedOut : Bool) (now wakeupTs : Timestamp) :
    Decidable (TimesUp info noNotifies timedOut now wakeupTs) := by
  unfold TimesUp
  infer_instance

/-- The loop gives up in some turn, in which it has found no new data. -/
def GivesUp (s : Surround) (h : Handle) (oid : ObjId) (oldTs wakeupTs : Timestamp)
    (noNotifies : Bool) (i : Nat) : Nat → Nat → Prop
  | 0, _ => False
  | fuel + 1, tick =>
      ∃ out, readdata (s.looks tick) h oid 0 Mem.zero 24 (s.now tick) fuel = some out ∧
        waitnextJudge oldTs ((s.looks (tick + 1)).objmeta i).deletedTs out = none ∧
        (TimesUp ((s.looks (tick + 1)).objmeta i) noNotifies (s.timedOut (tick + 1))
            (s.now (tick + 1)) wakeupTs ∨
          GivesUp s h oid oldTs wakeupTs noNotifies i fuel (tick + 2))

def WaitGivesUp (s : Surround) (h : Handle) (oid : ObjId) (oldTs wakeupTs : Timestamp)
    (fuel tick : Nat) : Prop :=
  ∃ i, (s.looks tick).findmetaById oid = some i ∧
    GivesUp s h oid oldTs wakeupTs
      (((s.looks tick).objmeta i).flags.noNotifies || (s.looks tick).noNotifies) i fuel (tick + 1)

def Polls (db : Db) (oid : ObjId) : Prop :=
  ∃ i, db.findmetaById oid = some i ∧
    ((db.objmeta i).flags.noNotifies || db.noNotifies) = true

theorem waitnextTimeout_eq (info : ObjInfo) (noNotifies timedOut : Bool) (now wakeupTs : Timestamp)
    (ret : Result) :
    waitnextTimeout info noNotifies timedOut now wakeupTs ret =
      if TimesUp info noNotifies timedOut now wakeupTs then
        some (if noNotifies then ret else .error .timeout)
      else none := by
  unfold waitnextTimeout TimesUp
  cases noNotifies <;> simp

/-- A loop that ends has given up, or ends with new data or an error. -/
theorem waitnextLoop_ends
    (hloop : waitnextLoop s h oid oldTs wakeupTs noNotifies i fuel tick = some (res, t)) :
    GivesUp s h oid oldTs wakeupTs noNotifies i fuel tick ∧
        (∃ ret, res = some ret ∧ (noNotifies = false → ret = .error .timeout) ∧
          (noNotifies = true → (∃ n, ret = .ok n) ∨ ret = .error .notFound)) ∨
      ¬ GivesUp s h oid oldTs wakeupTs noNotifies i fuel tick ∧
        (res = none ∨ ∃ e, res = some (.error e)) := by
  induction fuel generalizing tick with
  | zero => cases hloop
  | succ fuel ih =>
      obtain ⟨out, hread, hturn⟩ := waitnextLoop_some hloop
      -- a turn that is judged ends the loop, and it has not given up
      have hjudged {j : Option Err}
          (hj : waitnextJudge oldTs ((s.looks (tick + 1)).objmeta i).deletedTs out = some j) :
          ¬ GivesUp s h oid oldTs wakeupTs noNotifies i (fuel + 1) tick := by
        rintro ⟨out', hread', hnone, -⟩
        rw [hread] at hread'
        cases hread'
        rw [hj] at hnone
        cases hnone
      unfold waitTurn at hturn
      cases hj : waitnextJudge oldTs ((s.looks (tick + 1)).objmeta i).deletedTs out with
      | some j =>
          rw [hj] at hturn
          refine Or.inr ⟨hjudged hj, ?_⟩
          cases j with
          | none =>
              obtain ⟨hres, -⟩ | ⟨hres, -⟩ := hturn
              · exact Or.inl (Option.some.inj hres).symm
              · cases hres
          | some e =>
              obtain ⟨hres, -⟩ | ⟨hres, -⟩ := hturn
              · exact Or.inr ⟨e, (Option.some.inj hres).symm⟩
              · cases hres
      | none =>
          rw [hj] at hturn
          dsimp only at hturn
          rw [waitnextTimeout_eq] at hturn
          by_cases hup : TimesUp ((s.looks (tick + 1)).objmeta i) noNotifies
              (s.timedOut (tick + 1)) (s.now (tick + 1)) wakeupTs
          · rw [if_pos hup] at hturn
            obtain ⟨hres, -⟩ | ⟨hres, -⟩ := hturn
            · refine Or.inl ⟨⟨out, hread, hj, Or.inl hup⟩, _, (Option.some.inj hres).symm,
                fun hno => ?_, fun hpoll => ?_⟩
              · rw [hno]
                rfl
              · rw [hpoll]
                exact waitnextJudge_none hj
            · cases hres
          · rw [if_neg hup] at hturn
            obtain ⟨hres, -⟩ | ⟨-, hrest⟩ := hturn
            · cases hres
            · refine (ih hrest).imp (fun ⟨hgive, hret⟩ => ⟨⟨out, hread, hj, Or.inr hgive⟩, hret⟩)
                fun ⟨hnot, hres⟩ => ⟨?_, hres⟩
              rintro ⟨out', hread', -, hup' | hgive⟩
              · exact hup hup'
              · exact hnot hgive

theorem GivesUp.ends (hgive : GivesUp s h oid oldTs wakeupTs noNotifies i fuel tick) :
    ∃ res t, waitnextLoop s h oid oldTs wakeupTs noNotifies i fuel tick = some (res, t) := by
  induction fuel generalizing tick with
  | zero => exact hgive.elim
  | succ fuel ih =>
      obtain ⟨out, hread, hj, hgive⟩ := hgive
      rw [waitnextLoop_succ, hread, Option.bind_some]
      cases hturn : waitTurn s oldTs wakeupTs noNotifies i tick out with
      | some res => exact ⟨res, tick + 2, rfl⟩
      | none =>
          rcases hgive with hup | hgive
          · rw [waitTurn, hj] at hturn
            dsimp only at hturn
            rw [waitnextTimeout_eq, if_pos hup] at hturn
            cases hturn
          · exact ih hgive

/-! ## The contract -/

structure WaitContract (s : Surround) (h : Handle) (fuel : Nat) (r : Reader) (oid : ObjId)
    (oldTs wakeupTs : Timestamp) (buf : Mem) (size : Int) : Prop where
  filled : ∀ a r' n, r.call s h fuel (.waitnext oid oldTs wakeupTs buf size) = some (a, r') →
    a.ret = .ok n → ∃ k, r.tick ≤ k ∧ k < r'.tick ∧ Filled (s.looks k) oid oldTs size n a.buf
  timeout : ∀ a r', r.call s h fuel (.waitnext oid oldTs wakeupTs buf size) = some (a, r') →
    WaitGivesUp s h oid oldTs wakeupTs fuel r.tick → a.ret = .error .timeout

/-- The stamps of the object's newest records do not decrease. -/
def StampsGrow (s : Surround) (oid : ObjId) : Prop :=
  ∀ k k' i i', k ≤ k' → (s.looks k).findmetaById oid = some i →
    (s.looks k').findmetaById oid = some i' →
    newestTs (s.looks k').heap ((s.looks k').objmeta i') ≠ invalidTs →
    (newestTs (s.looks k).heap ((s.looks k).objmeta i)).toInt ≤
      (newestTs (s.looks k').heap ((s.looks k').objmeta i')).toInt

/-- New data is newer than `oldTs` at the look at which the loop has found it. -/
theorem waitnextLoop_new
    (hloop : waitnextLoop s h oid oldTs wakeupTs noNotifies i fuel tick = some (none, t)) :
    ∃ k j, tick ≤ k ∧ t = k + 2 ∧ (s.looks k).findmetaById oid = some j ∧
      oldTs.toInt < (newestTs (s.looks k).heap ((s.looks k).objmeta j)).toInt := by
  obtain ⟨k, fuel', out, hk, ht, hread, hturn⟩ := waitnextLoop_last hloop
  unfold waitTurn at hturn
  cases hj : waitnextJudge oldTs ((s.looks (k + 1)).objmeta i).deletedTs out with
  | none =>
      rw [hj] at hturn
      dsimp only at hturn
      obtain ⟨ret, -, hret⟩ := Option.map_eq_some_iff.mp hturn
      cases hret
  | some j =>
      rw [hj] at hturn
      cases j with
      | some e => cases hturn
      | none =>
          unfold waitnextJudge at hj
          cases hret : out.ret with
          | error e =>
              rw [hret] at hj
              cases e with
              | notFound =>
                  dsimp only at hj
                  split at hj
                  · cases hj
                  · cases hj
              | _ => cases hj
          | ok n =>
              rw [hret] at hj
              dsimp only at hj
              obtain ⟨j, hfind, -, hstamp, -⟩ := readdata_ok oldTs hread hret
              rw [hstamp] at hj
              split at hj
              · rename_i hnew
                exact ⟨k, j, hk, ht, hfind, hnew⟩
              · cases hj

theorem waitnext_found (hfind : (s.looks tick).findmetaById oid = some i) :
    waitnext s h oid oldTs wakeupTs fuel tick =
      waitnextLoop s h oid oldTs wakeupTs
        (((s.looks tick).objmeta i).flags.noNotifies || (s.looks tick).noNotifies) i fuel
        (tick + 1) := by
  rw [waitnext, hfind]

variable {r : Reader}

/-- `kogmo_rtdb_obj_readdata_waitnext_until` keeps its promise but where it polls and gives up. -/
theorem waitnextContract_iff (hgrow : StampsGrow s oid) :
    WaitContract s h fuel r oid oldTs wakeupTs buf size ↔
      ¬ (Polls (s.looks r.tick) oid ∧ WaitGivesUp s h oid oldTs wakeupTs fuel r.tick) := by
  constructor
  · rintro hcontract ⟨⟨i, hfind, hpoll⟩, j, hfind', hgive⟩
    rw [hfind] at hfind'
    cases hfind'
    obtain ⟨res, t, hloop⟩ := hgive.ends
    rcases waitnextLoop_ends hloop with ⟨-, ret, rfl, -, hret⟩ | ⟨hnot, -⟩
    · have hcall : r.call s h fuel (.waitnext oid oldTs wakeupTs buf size) =
          some ({ ret := ret, buf := buf, shown := none }, { r with tick := t }) := by
        rw [Reader.call, waitnext_found hfind, hloop]
      have htimeout : ret = .error .timeout := hcontract.timeout _ _ hcall ⟨i, hfind, hgive⟩
      rcases hret hpoll with ⟨n, hok⟩ | hnone
      · rw [hok] at htimeout
        cases htimeout
      · rw [hnone] at htimeout
        cases htimeout
    · exact hnot hgive
  · intro hcond
    constructor
    · intro a r' n hcall hret
      rw [Reader.call] at hcall
      cases hfind : (s.looks r.tick).findmetaById oid with
      | none =>
          rw [waitnext, hfind] at hcall
          cases hcall
          cases hret
      | some i =>
          rw [waitnext_found hfind] at hcall
          split at hcall
          · cases hcall
          · rename_i ret t hloop
            cases hcall
            rcases waitnextLoop_ends hloop with ⟨hgive, ret', hres, hno, -⟩ | ⟨-, hres | ⟨e, hres⟩⟩
            · cases hpoll : ((s.looks r.tick).objmeta i).flags.noNotifies ||
                  (s.looks r.tick).noNotifies with
              | true => exact absurd ⟨⟨i, hfind, hpoll⟩, i, hfind, hgive⟩ hcond
              | false =>
                  have htimeout := (Option.some.inj hres).trans (hno hpoll)
                  rw [htimeout] at hret
                  cases hret
            · cases hres
            · cases hres
              cases hret
          · rename_i t hloop
            obtain ⟨out, hread, hout⟩ := Option.map_eq_some_iff.mp hcall
            cases hout
            obtain ⟨k, j, hk, ht, hfindk, hnew⟩ := waitnextLoop_new hloop
            obtain ⟨j', hfindt, hoffers, -, hfilled⟩ := readdata_ok oldTs hread hret
            have hwritten : newestTs (s.looks t).heap ((s.looks t).objmeta j') ≠ invalidTs :=
              fun h0 => hoffers.written (by rw [h0])
            have hle := hgrow k t j j' (by omega) hfindk hfindt hwritten
            exact ⟨t, by omega, Nat.lt_succ_self t, hfilled (by omega)⟩
    · rintro a r' hcall ⟨i, hfind, hgive⟩
      obtain ⟨res, t, hloop⟩ := hgive.ends
      rcases waitnextLoop_ends hloop with ⟨-, ret, rfl, hno, -⟩ | ⟨hnot, -⟩
      · rw [Reader.call, waitnext_found hfind, hloop] at hcall
        cases hcall
        cases hpoll : ((s.looks r.tick).objmeta i).flags.noNotifies ||
            (s.looks r.tick).noNotifies with
        | true => exact absurd ⟨⟨i, hfind, hpoll⟩, i, hfind, hgive⟩ hcond
        | false => exact hno hpoll
      · exact absurd hgive hnot

end

/-- One record of an object, in a database without notifications. -/
def polledDb : Db :=
  (writedata { historyDb with noNotifies := true } ⟨1, false⟩ 5 historyRecord 0x100000005).db

def polledSurround : Surround where
  looks _ := polledDb
  now _ := 0x100000006
  timedOut _ := false

theorem polledSurround_grow : StampsGrow polledSurround 5 := by
  intro k k' i i' _ hi hi' _
  obtain rfl : i = i' := Option.some.inj (hi.symm.trans hi')
  exact Int.le_refl _

def newReader : Reader where
  cursors _ := ⟨0, 0, 0, 0⟩
  tick := 0

/-- A wait for newer data than nothing. -/
theorem waitnextContract_iff_new :
    WaitContract polledSurround ⟨1, false⟩ 3 newReader 5 0 1 .zero 64 ↔
      ¬ (Polls (polledSurround.looks 0) 5 ∧
        WaitGivesUp polledSurround ⟨1, false⟩ 5 0 1 3 0) :=
  waitnextContract_iff polledSurround_grow

/-- A wait that polls until its wake-up time answers with the size of the old record, and the
buffer is as it was. -/
theorem exists_not_waitContract :
    StampsGrow polledSurround 5 ∧
      (∃ a r', newReader.call polledSurround ⟨1, false⟩ 3 (.waitnext 5 0x100000005 1 .zero 64) =
        some (a, r') ∧ a.ret = .ok 32) ∧
      ¬ WaitContract polledSurround ⟨1, false⟩ 3 newReader 5 0x100000005 1 .zero 64 := by
  have hret : ((newReader.call polledSurround ⟨1, false⟩ 3
      (.waitnext 5 0x100000005 1 .zero 64)).map fun out => out.1.ret) = some (.ok 32) := by
    decide +kernel
  obtain ⟨⟨a, r'⟩, hcall, hok⟩ := Option.map_eq_some_iff.mp hret
  refine ⟨polledSurround_grow, ⟨a, r', hcall, hok⟩, fun hcontract => ?_⟩
  obtain ⟨k, -, -, i, hfind, hnew, -⟩ := hcontract.filled a r' 32 hcall hok
  have hslot : polledDb.findmetaById 5 = some 0 := by decide +kernel
  obtain rfl : i = 0 := Option.some.inj (hfind.symm.trans hslot)
  have hts : newestTs polledDb.heap (polledDb.objmeta 0) = 0x100000005 := by decide +kernel
  have hnew : (0x100000005 : Timestamp).toInt <
      (newestTs polledDb.heap (polledDb.objmeta 0)).toInt := hnew
  rw [hts] at hnew
  exact Int.lt_irrefl _ hnew

end KogmoRtdb
