import KogmoRtdb.Notify.Placement

/-!
# No wakeup is lost

As long as nothing is deleted, nobody waits for what is already there. Whoever is blocked in
`kogmo_rtdb_obj_readdata_waitnext` although its object has a newer record is going to be
woken by a thread that has committed one, and whoever is blocked in
`kogmo_rtdb_obj_searchinfo_wait` although its search would succeed by a thread that has inserted an
object (`NoLostWakeup`). Deletes have a module of their own.

The lock that a waiter holds from its look to the wait keeps committers out, but a record in its
slot can become invalid at any time, and words of its stamp can be from two records. What the
look has seen so far (`LoopKnows`) allows for this.
-/

namespace KogmoRtdb

/-! ## The statement -/

/-- The history slot of the latest record of the object in slot `i`. -/
def Db.latest (db : Db) (i : Nat) : Int :=
  histPos (db.objmeta i).historySize (db.objmeta i).historySlot

def Db.latestRecord (db : Db) (i : Nat) : Mem :=
  slotWindow db.heap (db.objmeta i) (db.latest i)

/-- The object in slot `i` has a record that is newer than `oldTs`. -/
structure Db.HasNews (db : Db) (i : Nat) (oldTs : Timestamp) : Prop where
  live : (db.objmeta i).deletedTs = 0
  buffer : (db.objmeta i).bufferIdx ≠ 0
  history : (db.objmeta i).historySize ≠ 0
  valid : (db.latestRecord i).read32 4 ≠ hiWord invalidTs
  newer : oldTs.toInt < ((db.latestRecord i).read64 0).toInt

instance (db : Db) (i : Nat) (oldTs : Timestamp) : Decidable (db.HasNews i oldTs) :=
  decidable_of_iff ((db.objmeta i).deletedTs = 0 ∧ (db.objmeta i).bufferIdx ≠ 0 ∧
      (db.objmeta i).historySize ≠ 0 ∧ (db.latestRecord i).read32 4 ≠ hiWord invalidTs ∧
      oldTs.toInt < ((db.latestRecord i).read64 0).toInt)
    ⟨fun ⟨h1, h2, h3, h4, h5⟩ => ⟨h1, h2, h3, h4, h5⟩,
      fun h => ⟨h.live, h.buffer, h.history, h.valid, h.newer⟩⟩

/-- The record's stamp is being completed, or it is, and the broadcast is still to come. -/
def PutPc.owes : PutPc → Bool
  | .valHigh | .publish | .unlockObj | .broadcast => true
  | _ => false

/-- Nobody is blocked for what is already there, but for the broadcast that is about to come. -/
structure NoLostWakeup (env : Env) (t : Threads) : Prop where
  data : ∀ p c l timedOut, t.pc p = .waitnext c (.loop l (.blocked timedOut)) → c.oid ≠ 0 →
    (t.shared.changenotify l.i).waiting p = true → t.shared.db.HasNews l.i c.oldTs →
    ∃ q w wc pc, t.pc q = .write w (.put wc pc) ∧ wc.i = l.i ∧ wc.noNotifies = false ∧
      pc.owes = true
  search : ∀ p c timedOut, t.pc p = .searchWait c (.blocked timedOut) →
    t.shared.objmetaLock.waiting p = true →
    c.answer env t.shared.db ≠ -Err.notFound.code →
    ∃ q d oid, t.pc q = .insert d (.broadcast oid)

/-! ## What a search sees -/

/-- A search sees no difference between the two entries. -/
def ObjInfo.SearchedAlike (info info' : ObjInfo) : Prop :=
  info.Alike info' ∨ info.oid = 0 ∧ info'.oid = 0

section Search

variable {db db' : Db} {env : Env} {info info' : ObjInfo}

theorem ObjInfo.SearchedAlike.oid (h : info.SearchedAlike info') : info'.oid = info.oid := by
  rcases h with h | ⟨h, h'⟩
  · exact h.oid
  · rw [h, h']

theorem ObjInfo.SearchedAlike.matches (h : info.SearchedAlike info') (test : NameTest)
    (otype parentOid procOid : Int) (ts : Timestamp) (includedeleted : Bool) :
    info'.matches test otype parentOid procOid ts includedeleted =
      info.matches test otype parentOid procOid ts includedeleted := by
  rcases h with h | ⟨h, h'⟩
  · unfold ObjInfo.Alike at h
    rw [h]
    rfl
  · simp [ObjInfo.matches, h, h']

theorem searchTable_congr (h : ∀ i, (db.objmeta i).SearchedAlike (db'.objmeta i))
    (test : NameTest) (otype parentOid procOid : Int) (ts : Timestamp) (nth : Int)
    (includedeleted : Bool) :
    searchTable db' test otype parentOid procOid ts nth includedeleted =
      searchTable db test otype parentOid procOid ts nth includedeleted := by
  have hfound : ∀ is : List Nat, ((is.map db'.objmeta).filter fun info =>
        info.matches test otype parentOid procOid ts includedeleted).map (·.oid) =
      ((is.map db.objmeta).filter fun info =>
        info.matches test otype parentOid procOid ts includedeleted).map (·.oid) := by
    intro is
    induction is with
    | nil => rfl
    | cons i is ih =>
        simp only [List.map_cons, List.filter_cons, (h i).matches]
        split
        · rw [List.map_cons, List.map_cons, ih, (h i).oid]
        · exact ih
  unfold searchTable
  rw [hfound]

theorem noMatch_congr (h : ∀ i, (db.objmeta i).SearchedAlike (db'.objmeta i)) (parentOid : ObjId)
    (ts : Timestamp) : noMatch db' parentOid ts = noMatch db parentOid ts := by
  unfold noMatch
  split
  · rfl
  · rename_i h0
    have hfound : db'.findmetaById parentOid = db.findmetaById parentOid :=
      Db.findmetaById_congr fun i => (h i).oid
    rw [hfound]
    cases hfind : db.findmetaById parentOid with
    | none => rfl
    | some i =>
        have hoid := (Db.findmetaById_some hfind).2
        rcases h i with halike | ⟨hfree, -⟩
        · dsimp only
          rw [halike.deletedTs]
        · exact absurd (hoid.symm.trans hfree) h0

theorem searchDb_congr (h : ∀ i, (db.objmeta i).SearchedAlike (db'.objmeta i))
    (name : Option ObjName) (otype : Int) (parentOid procOid : ObjId) (ts : Timestamp)
    (idlist : Option IdList) (nth : Int) :
    searchDb env db' name otype parentOid procOid ts idlist nth =
      searchDb env db name otype parentOid procOid ts idlist nth := by
  have hfind (oid : ObjId) : db'.findmetaById oid = db.findmetaById oid :=
    Db.findmetaById_congr fun i => (h i).oid
  unfold searchDb
  split
  · rfl
  · unfold searchDirect
    rw [hfind]
  · unfold searchAnswer
    rw [searchTable_congr h, noMatch_congr h]

/-- The answer of a search that waits depends on nothing else. -/
theorem SearchWait.answer_congr (c : SearchWait)
    (h : ∀ i, (db.objmeta i).SearchedAlike (db'.objmeta i)) :
    c.answer env db' = c.answer env db := by
  unfold SearchWait.answer
  rw [searchDb_congr h]

end Search

/-! ## What a waiter has seen -/

/-- The stamp is no newer than `ts`. -/
def StampFrom (m : Mem) (ts : Timestamp) : Prop :=
  m.read32 4 = hiWord invalidTs ∨
    m.read32 4 = hiWord ts ∧ (m.read32 0).toNat ≤ (loWord ts).toNat

/-- What the look for new data in slot `i` has seen so far. -/
def LoopKnows (db : Db) (c : Waitnext) (i : Nat) : LoopPc → Prop
  | .checks j => j = i
  | .histSlot j => j = i ∧ (db.objmeta i).bufferIdx ≠ 0
  | .test j k | .deletedTs j k | .scanHi j k =>
      j = i ∧ (db.objmeta i).bufferIdx ≠ 0 ∧ k = db.latest i
  | .scanLo j k hi => j = i ∧ (db.objmeta i).bufferIdx ≠ 0 ∧ k = db.latest i ∧
      ((db.latestRecord i).read32 4 = hiWord invalidTs ∨ (db.latestRecord i).read32 4 = hi)
  | .finLo j k ts | .finHi j k ts _ | .stale j k ts | .retSize j k ts =>
      j = i ∧ (db.objmeta i).bufferIdx ≠ 0 ∧ k = db.latest i ∧ StampFrom (db.latestRecord i) ts
  | .deletedTest | .wait _ => ¬ db.HasNews i c.oldTs
  | _ => True

structure SlotKnows (db : Db) (c : Waitnext) (i : Nat) : Prop where
  lt : i < objMax
  oid : (db.objmeta i).oid = c.oid

/-- What a call that waits for the object `c.oid` knows. -/
def WaitKnows (db : Db) (c : Waitnext) : WaitPc → Prop
  | .flags i => SlotKnows db c i
  | .loop l pc => SlotKnows db c l.i ∧
      l.noNotifies = ((db.objmeta l.i).flags.noNotifies || db.noNotifies) ∧
      (l.noNotifies = false → LoopKnows db c l.i pc) ∧
      ∀ timedOut, pc = .blocked timedOut → l.noNotifies = false
  | _ => True

/-- The object in slot `i` gets no newer record. -/
structure CalmAt (i : Nat) (db db' : Db) : Prop where
  entry : db'.objmeta i = db.objmeta i
  fades : (db.objmeta i).bufferIdx ≠ 0 → Fades (db.latestRecord i) (db'.latestRecord i)

section Waiter

variable {db db' : Db} {c : Waitnext} {i : Nat} {m m' : Mem} {ts : Timestamp} {pc : LoopPc}

theorem StampFrom.fades (h : StampFrom m ts) (hf : Fades m m') : StampFrom m' ts := by
  rcases hf.stamp with h0 | ⟨hhi, hlo⟩
  · exact Or.inl h0
  · unfold StampFrom
    rw [hhi]
    exact h.imp_right fun hts => ⟨hts.1, Nat.le_trans hlo hts.2⟩

theorem StampFrom.toInt_le (h : StampFrom m ts) (hvalid : m.read32 4 ≠ hiWord invalidTs) :
    (m.read64 0).toInt ≤ ts.toInt := by
  obtain ⟨hhi, hlo⟩ := h.resolve_left hvalid
  rw [Mem.read64, toInt_ofWords, toInt_eq_words ts, Nat.zero_add, hhi]
  omega

theorem CalmAt.latest (h : CalmAt i db db') : db'.latest i = db.latest i := by
  unfold Db.latest
  rw [h.entry]

theorem CalmAt.hasNews (h : CalmAt i db db') {oldTs : Timestamp} (hnews : db'.HasNews i oldTs) :
    db.HasNews i oldTs := by
  obtain ⟨hlive, hbuffer, hhistory, hvalid, hnewer⟩ := hnews
  rw [h.entry] at hlive hbuffer hhistory
  have hfades := h.fades hbuffer
  obtain ⟨hhi, hlo⟩ := hfades.stamp.resolve_left hvalid
  refine ⟨hlive, hbuffer, hhistory, by rwa [← hhi], Int.lt_of_lt_of_le hnewer ?_⟩
  rw [Mem.read64, Mem.read64, toInt_ofWords, toInt_ofWords, Nat.zero_add, hhi]
  omega

theorem LoopKnows.kept (h : LoopKnows db c i pc) (hc : CalmAt i db db') :
    LoopKnows db' c i pc := by
  cases pc with
  | checks j => exact h
  | histSlot j | test j k | deletedTs j k | scanHi j k =>
      unfold LoopKnows at h ⊢
      rw [hc.entry]
      first
        | exact h
        | rwa [hc.latest]
  | scanLo j k hi =>
      obtain ⟨hj, hidx, hk, hhi⟩ := h
      refine ⟨hj, by rwa [hc.entry], by rwa [hc.latest], ?_⟩
      rcases (hc.fades hidx).stamp with h0 | ⟨heq, -⟩
      · exact Or.inl h0
      · rwa [heq]
  | finLo j k ts | finHi j k ts lo | stale j k ts | retSize j k ts =>
      obtain ⟨hj, hidx, hk, hts⟩ := h
      exact ⟨hj, by rwa [hc.entry], by rwa [hc.latest], hts.fades (hc.fades hidx)⟩
  | deletedTest | wait ret => exact fun hnews => h (hc.hasNews hnews)
  | _ => trivial

theorem LoopKnows.of_unlocked (h : pc.locked = false) : LoopKnows db c i pc := by
  cases pc <;> trivial

theorem LoopKnows.look [Rounding] {now : Timestamp} (h : LoopKnows db c i pc)
    (hs : SlotKnows db c i) (hunique : ∀ j, (db.objmeta j).oid = c.oid → j = i)
    (hring : (db.objmeta i).bufferIdx ≠ 0 → StoredRing db.heap (db.objmeta i)) :
    LoopKnows db c i (c.look db now pc) := by
  have hleave {e : Err} (he : e ≠ .notFound) : LoopKnows db c i (c.fail e) := by
    rw [c.fail_of_ne he]
    trivial
  have hnone (hno : ¬ db.HasNews i c.oldTs) : LoopKnows db c i (c.fail .notFound) := by
    rw [c.fail_notFound]
    exact hno
  cases pc with
  | lookup =>
      simp only [Waitnext.look]
      split
      · rename_i hnot
        exact absurd hs.oid (fun heq => List.find?_eq_none.mp hnot i (List.mem_range.mpr hs.lt)
          (decide_eq_true heq))
      · rename_i j hj
        exact hunique j (Db.findmetaById_some hj).2
  | checks j =>
      obtain rfl : j = i := h
      simp only [Waitnext.look]
      split
      · rename_i hidx
        exact hnone fun hnews => hnews.buffer hidx
      · split
        · exact hleave (by decide)
        · rename_i hidx _
          exact ⟨rfl, hidx⟩
  | histSlot j =>
      obtain ⟨rfl, hidx⟩ := h
      simp only [Waitnext.look]
      split
      · rename_i hsize
        exact hnone fun hnews => hnews.history hsize
      · exact ⟨rfl, hidx, rfl⟩
  | test j k =>
      obtain ⟨rfl, hidx, rfl⟩ := h
      simp only [Waitnext.look]
      split
      · rename_i hinvalid
        exact hnone fun hnews => hnews.valid hinvalid
      · exact ⟨rfl, hidx, rfl⟩
  | deletedTs j k =>
      obtain ⟨rfl, hidx, rfl⟩ := h
      simp only [Waitnext.look]
      split
      · rename_i hdel
        exact hnone fun hnews => hdel hnews.live
      · exact ⟨rfl, hidx, rfl⟩
  | scanHi j k =>
      obtain ⟨rfl, hidx, rfl⟩ := h
      exact ⟨rfl, hidx, rfl, Or.inr rfl⟩
  | scanLo j k hi =>
      obtain ⟨rfl, hidx, rfl, hhi⟩ := h
      refine ⟨rfl, hidx, rfl, hhi.imp_right fun heq => ⟨?_, ?_⟩⟩
      · rw [hiWord_ofWords, heq]
      · rw [loWord_ofWords]
        exact Nat.le_refl _
  | finLo j k ts => exact h
  | finHi j k ts lo =>
      simp only [Waitnext.look]
      split
      · exact hleave (by decide)
      · exact h
  | stale j k ts =>
      simp only [Waitnext.look]
      split
      · exact hleave (by decide)
      · exact h
  | retSize j k ts =>
      obtain ⟨rfl, hidx, rfl, hts⟩ := h
      have hpos : 0 ≤ slotSize db.heap (db.objmeta j) (db.latest j) :=
        (hring hidx).sizes _ (hring hidx).inRing
      simp only [Waitnext.look, Waitnext.judge]
      split
      · trivial
      · rename_i hnot
        rw [if_neg fun hneg => absurd hneg.1 (Int.not_lt.mpr hpos)]
        split
        · rename_i heq
          rw [heq] at hpos
          exact absurd hpos (by decide)
        · intro hnews
          have hle := hts.toInt_le hnews.valid
          exact hnot ⟨hpos, Int.lt_of_lt_of_le hnews.newer hle⟩
  | _ => exact h

theorem Waitnext.judge_ne_blocked (c : Waitnext) (ret : Int) (ts : Timestamp) (timedOut : Bool) :
    c.judge ret ts ≠ .blocked timedOut := by
  rcases c.judge_cases ret ts with ⟨r, h⟩ | h | h <;> rw [h] <;> exact LoopPc.noConfusion

theorem Waitnext.look_ne_blocked [Rounding] {now : Timestamp} (hpc : ∀ b, pc ≠ .blocked b)
    (timedOut : Bool) : c.look db now pc ≠ .blocked timedOut := by
  have hfail (e : Err) : c.fail e ≠ .blocked timedOut := c.judge_ne_blocked _ _ _
  cases pc with
  | retSize j k ts => exact c.judge_ne_blocked _ _ _
  | blocked b => exact absurd rfl (hpc b)
  | _ =>
      simp only [Waitnext.look]
      repeat' split
      all_goals first
        | exact hfail _
        | exact LoopPc.noConfusion

theorem Waitnext.waitKnows [Rounding] {s s' : Shared} {p : Pid} {now : Timestamp} {pc pc' : WaitPc}
    (hunique : ∀ i j, (s.db.objmeta i).oid = c.oid → (s.db.objmeta j).oid = c.oid → j = i)
    (hring : ∀ i, (s.db.objmeta i).bufferIdx ≠ 0 → StoredRing s.db.heap (s.db.objmeta i))
    (hk : WaitKnows s.db c pc) (h : c.step p s now pc = some (s', pc')) :
    WaitKnows s.db c pc' := by
  cases pc with
  | find =>
      simp only [Waitnext.step] at h
      split at h <;> cases h
      · trivial
      · rename_i i hi
        exact ⟨(Db.findmetaById_some hi).1, (Db.findmetaById_some hi).2⟩
  | flags i =>
      cases h
      exact ⟨hk, rfl, fun _ => trivial, fun _ hb => by cases hb⟩
  | final =>
      cases h
      trivial
  | done ret => cases h
  | loop l pc =>
      obtain ⟨hs, hno, hloop, hblocked⟩ := hk
      -- the loop goes on with the same slot
      have hnext {l' : WaitLoop} {pc' : LoopPc} (hi : l'.i = l.i)
          (hno' : l'.noNotifies = l.noNotifies)
          (hpc : l.noNotifies = false → LoopKnows s.db c l.i pc')
          (hb : ∀ timedOut, pc' = .blocked timedOut → l.noNotifies = false) :
          WaitKnows s.db c (.loop l' pc') := by
        refine ⟨by rwa [hi], by rwa [hno', hi], fun h => ?_, fun timedOut heq => ?_⟩
        · rw [hi]
          exact hpc (by rwa [hno'] at h)
        · rw [hno']
          exact hb timedOut heq
      cases pc with
      | prepare =>
          simp only [Waitnext.step, Waitnext.loopStep] at h
          split at h
          · cases h
            exact hnext rfl rfl (fun _ => trivial) fun _ hb => by cases hb
          · obtain ⟨t, -, heq⟩ := Option.map_eq_some_iff.mp h
            cases heq
            exact hnext rfl rfl (fun _ => trivial) fun _ hb => by cases hb
      | deletedTest =>
          simp only [Waitnext.step, Waitnext.loopStep] at h
          split at h <;> cases h
          · exact hnext rfl rfl (fun _ => trivial) fun _ hb => by cases hb
          · exact hnext rfl rfl hloop fun _ hb => by cases hb
      | leave ret =>
          simp only [Waitnext.step, Waitnext.loopStep] at h
          cases ret <;> cases h <;> trivial
      | wait ret =>
          simp only [Waitnext.step, Waitnext.loopStep] at h
          split at h
          · split at h <;> cases h
            · exact hnext rfl rfl (fun _ => trivial) fun _ hb => by cases hb
            · exact hnext rfl rfl (fun _ => trivial) fun _ hb => by cases hb
          · rename_i hnotify
            obtain ⟨t, -, heq⟩ := Option.map_eq_some_iff.mp h
            cases heq
            exact hnext rfl rfl (fun _ => trivial) fun _ _ => by simpa using hnotify
      | blocked timedOut =>
          simp only [Waitnext.step, Waitnext.loopStep] at h
          split at h
          · cases h
          · obtain ⟨t, -, heq⟩ := Option.map_eq_some_iff.mp h
            cases heq
            exact hnext rfl rfl (fun _ => trivial) fun _ hb => by cases hb
      | woken timedOut =>
          cases h
          exact hnext rfl rfl (fun _ => trivial) fun _ hb => by cases hb
      | unlocked timedOut =>
          simp only [Waitnext.step, Waitnext.loopStep] at h
          split at h <;> cases h <;>
            exact hnext rfl rfl (fun _ => trivial) fun _ hb => by cases hb
      | timedOut ret =>
          cases h
          trivial
      | _ =>
          cases h
          refine hnext rfl rfl (fun hno => (hloop hno).look hs (fun j => hunique _ j hs.oid)
            (hring l.i)) fun timedOut hb => ?_
          exact absurd hb (c.look_ne_blocked (by rintro b hb; cases hb) timedOut)

end Waiter

/-! ## The steps of others -/

/-- The slot of the object whose latest record the next step makes newer. -/
def Pc.tells : Pc → Option Nat
  | .write _ (.put w .valLow) | .write _ (.put w .valHigh) | .write _ (.put w .publish) => some w.i
  | _ => none

theorem ObjInfo.Alike.flags {info info' : ObjInfo} (h : info.Alike info') :
    info'.flags = info.flags := by
  unfold ObjInfo.Alike at h
  rw [h]

/-- Two threads do not hold the lock of a slot at once. -/
theorem LocksInv.eq_of_locksNotify {t : Threads} {p q : Pid} {i : Nat} (h : LocksInv t)
    (hp : (t.pc p).locksNotify = some i) (hq : (t.pc q).locksNotify = some i) : p = q := by
  have hheld := (h.holds p).notify i hp
  rw [(h.holds q).notify i hq] at hheld
  exact (Option.some.inj hheld).symm

section Others

variable {env : Env} {limit : Int} {t : Threads} {s' : Shared} {l : Label} {pc' : Pc} {i : Nat}
  {p q : Pid}

namespace Interleaved

theorem storedRing (h : Interleaved limit t) (hidx : (t.shared.db.objmeta i).bufferIdx ≠ 0) :
    StoredRing t.shared.db.heap (t.shared.db.objmeta i) := h.placed.ring (.slot i) hidx

/-- The slot that an insert is filling is not an object's. -/
theorem ne_of_target (h : Interleaved limit t) {c : InsertCall} {pc : InsertPc} {j : Nat}
    (hpc : t.pc p = .insert c pc) (hj : pc.target = some j)
    (hoid : (t.shared.db.objmeta i).oid ≠ 0) : i ≠ j := by
  rintro rfl
  exact hoid ((h.inserts p c pc hpc).free i hj).2

theorem alike (h : Interleaved limit t) (hs : StepsRings t (t.pc l.pid) s')
    (hoid : (t.shared.db.objmeta i).oid ≠ 0) :
    (t.shared.db.objmeta i).Alike (s'.db.objmeta i) := by
  have hsame (heq : s'.db.objmeta i = t.shared.db.objmeta i) :
      (t.shared.db.objmeta i).Alike (s'.db.objmeta i) := by
    rw [heq]
    exact .refl _
  cases hs.ring with
  | calm htable hfade => exact hsame (by rw [htable])
  | raise hpc hwpc htable hfade hsize => exact hsame (by rw [htable])
  | @publish c w hpc htable hheap =>
      rw [htable]
      by_cases hi : i = w.i
      · rw [hi, Function.update_self]
        rfl
      · rw [Function.update_of_ne hi]
        exact .refl _
  | enter hpc htable hheap =>
      exact hsame (by rw [htable, Function.update_of_ne (h.ne_of_target hpc rfl hoid)])
  | setOid hpc htable hheap =>
      exact hsame (by rw [htable, Function.update_of_ne (h.ne_of_target hpc rfl hoid)])

theorem calmAt (h : Interleaved limit t) (hs : StepsRings t (t.pc l.pid) s')
    (hoid : (t.shared.db.objmeta i).oid ≠ 0) (htells : (t.pc l.pid).tells ≠ some i) :
    CalmAt i t.shared.db s'.db := by
  -- the entry is the same, and the latest record has faded at most
  have hcalm (hentry : s'.db.objmeta i = t.shared.db.objmeta i)
      (hfade : (t.shared.db.objmeta i).bufferIdx ≠ 0 → Fades
        (slotWindow t.shared.db.heap (t.shared.db.objmeta i) (t.shared.db.latest i))
        (slotWindow s'.db.heap (t.shared.db.objmeta i) (t.shared.db.latest i))) :
      CalmAt i t.shared.db s'.db := by
    refine ⟨hentry, fun hidx => ?_⟩
    unfold Db.latestRecord Db.latest at hfade ⊢
    rw [hentry]
    exact hfade hidx
  have hheap (heq : s'.db.heap = t.shared.db.heap) : (t.shared.db.objmeta i).bufferIdx ≠ 0 → Fades
      (slotWindow t.shared.db.heap (t.shared.db.objmeta i) (t.shared.db.latest i))
      (slotWindow s'.db.heap (t.shared.db.objmeta i) (t.shared.db.latest i)) := by
    rw [heq]
    exact fun _ => .refl _
  cases hs.ring with
  | calm htable hfade =>
      exact hcalm (by rw [htable]) fun hidx => hfade (.slot i) _ hidx (h.storedRing hidx).inRing
  | @raise c w wpc hpc hwpc htable hfade hsize =>
      refine hcalm (by rw [htable]) fun hidx =>
        hfade (.slot i) _ hidx (h.storedRing hidx).inRing fun heq => htells ?_
      rw [hpc, Owner.slot.inj heq.1]
      rcases hwpc with rfl | rfl <;> rfl
  | @publish c w hpc htable heq =>
      have hi : i ≠ w.i := by
        rintro rfl
        exact htells (by rw [hpc]; rfl)
      exact hcalm (by rw [htable, Function.update_of_ne hi]) (hheap heq)
  | enter hpc htable heq =>
      exact hcalm (by rw [htable, Function.update_of_ne (h.ne_of_target hpc rfl hoid)]) (hheap heq)
  | setOid hpc htable heq =>
      exact hcalm (by rw [htable, Function.update_of_ne (h.ne_of_target hpc rfl hoid)]) (hheap heq)

/-- A thread that makes an object's record newer tells its waiters as they expect it. -/
theorem noNotifies_of_tells (h : Interleaved limit t) (htells : (t.pc p).tells = some i) :
    ∃ c w pc, t.pc p = .write c (.put w pc) ∧ w.i = i ∧ pc.locked = true ∧
      w.noNotifies = ((t.shared.db.objmeta i).flags.noNotifies || t.shared.db.noNotifies) := by
  have hk := h.writers p
  unfold Pc.tells at htells
  split at htells <;> cases htells <;> rename_i hpc <;> rw [hpc] at hk <;>
    exact ⟨_, _, _, hpc, rfl, rfl, PutKnows.notifies hk⟩

theorem waitKnows_kept (h : Interleaved limit t) (hs : StepsRings t (t.pc l.pid) s')
    {c : Waitnext} {pc : WaitPc} (hq : q ≠ l.pid) (hpc : t.pc q = .waitnext c pc) (h0 : c.oid ≠ 0)
    (hk : WaitKnows t.shared.db c pc) : WaitKnows s'.db c pc := by
  have hslot {i : Nat} (hk : SlotKnows t.shared.db c i) :
      SlotKnows s'.db c i ∧ (s'.db.objmeta i).flags = (t.shared.db.objmeta i).flags := by
    have halike := h.alike hs (i := i) (by rwa [hk.oid])
    exact ⟨⟨hk.lt, halike.oid.trans hk.oid⟩, halike.flags⟩
  cases pc with
  | flags i => exact (hslot hk).1
  | loop w pc =>
      obtain ⟨hk, hno, hloop, hblocked⟩ := hk
      obtain ⟨hk', hflags⟩ := hslot hk
      refine ⟨hk', by rwa [hflags, hs.noNotifies], fun hnotify => ?_, hblocked⟩
      cases hlocked : pc.locked with
      | false => exact .of_unlocked hlocked
      | true =>
          refine (hloop hnotify).kept (h.calmAt hs (by rwa [hk.oid]) fun htells => hq ?_)
          obtain ⟨d, v, pc₁, hd, hi, hlocked', hno'⟩ := h.noNotifies_of_tells htells
          refine h.locks.eq_of_locksNotify (i := w.i) ?_ ?_
          · rw [hpc]
            simp [Pc.locksNotify, hlocked, hnotify]
          · rw [hd]
            rw [← hno, hnotify] at hno'
            simp [Pc.locksNotify, hlocked', hno', hi]
  | _ => trivial

end Interleaved

end Others

/-! ## The wakeup -/

namespace Threads

/-- The thread goes by the slot, and its object has a newer record than it waits for. -/
def NewsAt (t : Threads) (i : Nat) (p : Pid) : Prop :=
  ∃ c l pc, t.pc p = .waitnext c (.loop l pc) ∧ l.i = i ∧ c.oid ≠ 0 ∧ t.shared.db.HasNews i c.oldTs

/-- Thread `q` has made a record newer and will wake the waiters of the slot. -/
def TellsAt (t : Threads) (i : Nat) (q : Pid) : Prop :=
  ∃ c w pc, t.pc q = .write c (.put w pc) ∧ w.i = i ∧ w.noNotifies = false ∧ pc.owes = true

def FoundFor (env : Env) (t : Threads) (p : Pid) : Prop :=
  ∃ c pc, t.pc p = .searchWait c pc ∧ c.answer env t.shared.db ≠ -Err.notFound.code

/-- Thread `q` has inserted an object and will wake all who search. -/
def AnnouncesMeta (t : Threads) (q : Pid) : Prop := ∃ c oid, t.pc q = .insert c (.broadcast oid)

end Threads

def Pc.SearchKnows (env : Env) (db : Db) : Pc → Prop
  | .searchWait c .wait => c.answer env db = -Err.notFound.code
  | _ => True

/-- What holds in every state of a run whose steps meet the condition. -/
structure WakeupInv (env : Env) (limit : Int) (t : Threads) : Prop where
  base : Interleaved limit t
  waiters : ∀ p c pc, t.pc p = .waitnext c pc → c.oid ≠ 0 → WaitKnows t.shared.db c pc
  searchers : ∀ p, (t.pc p).SearchKnows env t.shared.db
  data : ∀ i, (t.shared.changenotify i).Attended (fun _ => False) (t.NewsAt i)
    fun q _ => t.TellsAt i q
  search : t.shared.objmetaLock.Attended (fun _ => False) (t.FoundFor env)
    fun q _ => t.AnnouncesMeta q

section Wakeup

variable {env : Env} {limit : Int} {t : Threads} {s' : Shared} {l : Label} {pc' : Pc} {i : Nat}
  {p q r : Pid}

theorem LocksInv.blockedAt (h : LocksInv t) (hw : (t.shared.changenotify i).waiting q = true) :
    ∃ c w, t.pc q = .waitnext c (.loop w (.blocked false)) ∧ w.i = i := by
  have hblocked := (h.blocked q).notify i hw
  unfold Pc.blockedOn at hblocked
  split at hblocked <;> cases hblocked
  exact ⟨_, _, ‹_›, rfl⟩

theorem LocksInv.blockedMeta (h : LocksInv t) (hw : t.shared.objmetaLock.waiting q = true) :
    ∃ c, t.pc q = .searchWait c (.blocked false) := by
  have hblocked := (h.blocked q).objmeta hw
  unfold Pc.blockedMeta at hblocked
  split at hblocked
  · exact ⟨_, ‹_›⟩
  · cases hblocked

/-- A thread that writes and is not done takes its next step. -/
theorem Label.put_step [Rounding] {s : Shared} {c : WriteCall} {w : Put} {pc : PutPc}
    (hm : l.move env s (.write c (.put w pc)) = some (s', pc')) :
    ∃ pc₁, pc' = .write c pc₁ ∧ w.step l.pid s pc = some (s', pc₁) := by
  cases l with
  | start p call now => cases hm
  | next p now =>
      obtain ⟨⟨u, pc₁⟩, hstep, heq⟩ := Option.map_eq_some_iff.mp hm
      cases heq
      exact ⟨pc₁, rfl, hstep⟩
  | wake p timedOut => cases hm
  | fill p n v => cases hm

theorem Put.owes_step {s : Shared} {w : Put} {pc : PutPc} {pc₁ : WritePc} (howes : pc.owes = true)
    (hne : pc ≠ .broadcast) (hno : w.noNotifies = false) (h : w.step p s pc = some (s', pc₁)) :
    ∃ pc₂, pc₁ = .put w pc₂ ∧ pc₂.owes = true := by
  cases pc with
  | valHigh =>
      cases h
      exact ⟨.publish, rfl, rfl⟩
  | publish =>
      cases h
      exact ⟨.unlockObj, rfl, rfl⟩
  | unlockObj =>
      simp only [Put.step, hno, Option.some.injEq, Prod.mk.injEq] at h
      obtain ⟨-, rfl⟩ := h
      exact ⟨.broadcast, rfl, rfl⟩
  | broadcast => exact absurd rfl hne
  | _ => cases howes

/-- A step that makes a record newer leaves the wakeup to be done. -/
theorem Put.owes_of_tells {s : Shared} {w : Put} {pc : PutPc} {pc₁ : WritePc}
    (hpc : pc = .valLow ∨ pc = .valHigh ∨ pc = .publish) (h : w.step p s pc = some (s', pc₁)) :
    ∃ pc₂, pc₁ = .put w pc₂ ∧ pc₂.owes = true := by
  rcases hpc with rfl | rfl | rfl <;> cases h <;> exact ⟨_, rfl, rfl⟩

theorem Waitnext.wait_of_blocked [Rounding] {s : Shared} {c : Waitnext} {now : Timestamp}
    {w : WaitLoop} {pc : WaitPc} (h : c.step p s now pc = some (s', .loop w (.blocked false))) :
    ∃ ret, pc = .loop w (.wait ret) ∧ w.noNotifies = false := by
  cases pc with
  | find =>
      simp only [Waitnext.step] at h
      split at h <;> cases h
  | flags i => cases h
  | final => cases h
  | done ret => cases h
  | loop w₀ pc =>
      cases pc with
      | prepare =>
          simp only [Waitnext.step, Waitnext.loopStep] at h
          split at h
          · cases h
          · obtain ⟨t, -, heq⟩ := Option.map_eq_some_iff.mp h
            cases heq
      | deletedTest | unlocked timedOut =>
          simp only [Waitnext.step, Waitnext.loopStep] at h
          split at h <;> cases h
      | leave ret =>
          simp only [Waitnext.step, Waitnext.loopStep] at h
          cases ret <;> cases h
      | wait ret =>
          simp only [Waitnext.step, Waitnext.loopStep] at h
          split at h
          · split at h <;> cases h
          · rename_i hno
            obtain ⟨t, -, heq⟩ := Option.map_eq_some_iff.mp h
            cases heq
            exact ⟨ret, rfl, by simpa using hno⟩
      | blocked timedOut =>
          simp only [Waitnext.step, Waitnext.loopStep] at h
          split at h
          · cases h
          · obtain ⟨t, -, heq⟩ := Option.map_eq_some_iff.mp h
            cases heq
      | woken timedOut | timedOut ret => cases h
      | _ =>
          simp only [Waitnext.step, Waitnext.loopStep, Option.some.injEq, Prod.mk.injEq,
            WaitPc.loop.injEq] at h
          exact absurd h.2.2 (c.look_ne_blocked (by rintro b hb; cases hb) false)

theorem Label.blocked_waitnext [Rounding] {c : Waitnext} {w : WaitLoop}
    (hm : l.move env t.shared (t.pc l.pid) = some (s', .waitnext c (.loop w (.blocked false))))
    (hw : (s'.changenotify w.i).waiting l.pid = true) :
    s'.db = t.shared.db ∧ w.noNotifies = false ∧
      ∃ ret, t.pc l.pid = .waitnext c (.loop w (.wait ret)) := by
  generalize t.pc l.pid = pc at hm
  cases l with
  | start p call now =>
      simp only [Label.move] at hm
      split at hm
      · cases call <;> cases hm
      · cases hm
  | next p now =>
      cases pc with
      | idle => cases hm
      | waitnext c₀ pc =>
          obtain ⟨⟨u, pc₁⟩, hstep, heq⟩ := Option.map_eq_some_iff.mp hm
          have honly := c₀.onlyLocks hstep
          cases heq
          obtain ⟨ret, rfl, hno⟩ := Waitnext.wait_of_blocked hstep
          exact ⟨honly.db, hno, ret, rfl⟩
      | _ =>
          obtain ⟨u, -, heq⟩ := Option.map_eq_some_iff.mp hm
          cases heq
  | wake p timedOut =>
      simp only [Label.move, Pc.wake] at hm
      split at hm
      · split at hm <;> cases hm
        simp [Label.pid, Shared.wakeNotify, Shared.setNotify] at hw
      · split at hm <;> cases hm
      · cases hm
  | fill p n v =>
      cases pc with
      | write c pc =>
          obtain ⟨u, -, heq⟩ := Option.map_eq_some_iff.mp hm
          cases heq
      | _ => cases hm

theorem Label.blocked_searchWait [Rounding] {c : SearchWait}
    (hm : l.move env t.shared (t.pc l.pid) = some (s', .searchWait c (.blocked false)))
    (hw : s'.objmetaLock.waiting l.pid = true) :
    s'.db = t.shared.db ∧ t.pc l.pid = .searchWait c .wait := by
  generalize t.pc l.pid = pc at hm
  cases l with
  | start p call now =>
      simp only [Label.move] at hm
      split at hm
      · cases call <;> cases hm
      · cases hm
  | next p now =>
      cases pc with
      | idle => cases hm
      | searchWait c₀ pc =>
          obtain ⟨⟨u, pc₁⟩, hstep, heq⟩ := Option.map_eq_some_iff.mp hm
          have honly := c₀.onlyLocks hstep
          cases heq
          refine ⟨honly.db, ?_⟩
          cases pc with
          | wait => rfl
          | prepare =>
              obtain ⟨u, -, heq⟩ := Option.map_eq_some_iff.mp hstep
              cases heq
          | search =>
              simp only [SearchWait.step, Option.some.injEq, Prod.mk.injEq] at hstep
              obtain ⟨-, heq⟩ := hstep
              split at heq <;> cases heq
          | blocked timedOut =>
              simp only [SearchWait.step] at hstep
              split at hstep
              · cases hstep
              · obtain ⟨u, -, heq⟩ := Option.map_eq_some_iff.mp hstep
                cases heq
          | unlocked timedOut => cases timedOut <;> cases hstep
          | _ => cases hstep
      | _ =>
          obtain ⟨u, -, heq⟩ := Option.map_eq_some_iff.mp hm
          cases heq
  | wake p timedOut =>
      simp only [Label.move, Pc.wake] at hm
      split at hm
      · split at hm <;> cases hm
      · split at hm <;> cases hm
        simp [Label.pid, Shared.wakeObjmeta] at hw
      · cases hm
  | fill p n v =>
      cases pc with
      | write c pc =>
          obtain ⟨u, -, heq⟩ := Option.map_eq_some_iff.mp hm
          cases heq
      | _ => cases hm

theorem tells_moved [Rounding] (hm : l.move env t.shared (t.pc l.pid) = some (s', pc'))
    (hne : ∀ c w, t.pc l.pid = .write c (.put w .broadcast) → w.i ≠ i) (ho : t.TellsAt i r) :
    (t.moved l s' pc').TellsAt i r := by
  obtain ⟨c, w, pc, hpc, hi, hno, howes⟩ := ho
  by_cases hr : r = l.pid
  · subst hr
    rw [hpc] at hm
    obtain ⟨pc₁, rfl, hstep⟩ := l.put_step hm
    have hbc : pc ≠ .broadcast := fun hbc => hne c w (by rw [hpc, hbc]) hi
    obtain ⟨pc₂, rfl, howes'⟩ := Put.owes_step howes hbc hno hstep
    exact ⟨c, w, pc₂, Threads.moved_pc_self, hi, hno, howes'⟩
  · exact ⟨c, w, pc, by rw [Threads.moved_pc_of_ne hr, hpc], hi, hno, howes⟩

theorem announces_moved (hne : ∀ c oid, t.pc l.pid ≠ .insert c (.broadcast oid))
    (ho : t.AnnouncesMeta r) :
    (t.moved l s' pc').AnnouncesMeta r := by
  obtain ⟨c, oid, hpc⟩ := ho
  have hr : r ≠ l.pid := by
    rintro rfl
    exact hne c oid hpc
  exact ⟨c, oid, by rw [Threads.moved_pc_of_ne hr, hpc]⟩

namespace WakeupInv

/-- News are made by a thread that will tell the waiters. -/
theorem news [Rounding] (h : WakeupInv env limit t) (hs : StepsRings t (t.pc l.pid) s')
    (hm : l.move env t.shared (t.pc l.pid) = some (s', pc')) (hq : q ≠ l.pid)
    (hw : (t.shared.changenotify i).waiting q = true) (hnews : (t.moved l s' pc').NewsAt i q) :
    t.NewsAt i q ∨ (t.moved l s' pc').TellsAt i l.pid := by
  obtain ⟨c, w, hpc, rfl⟩ := h.base.locks.blockedAt hw
  obtain ⟨c', w', pc₁, hpc₁, -, h0, hnews⟩ := hnews
  rw [Threads.moved_pc_of_ne hq, hpc] at hpc₁
  cases hpc₁
  obtain ⟨hk, hno, -, hblocked⟩ := h.waiters q c _ hpc h0
  by_cases htells : (t.pc l.pid).tells = some w.i
  · obtain ⟨d, v, pc, hd, hi, -, hno'⟩ := h.base.noNotifies_of_tells htells
    rw [← hno, hblocked false rfl] at hno'
    rw [hd] at hm htells
    obtain ⟨pc₁, rfl, hstep⟩ := l.put_step hm
    have hpc₁ : pc = .valLow ∨ pc = .valHigh ∨ pc = .publish := by
      cases pc <;> first
        | exact Or.inl rfl
        | exact Or.inr (Or.inl rfl)
        | exact Or.inr (Or.inr rfl)
        | cases htells
    obtain ⟨pc₂, rfl, howes⟩ := Put.owes_of_tells hpc₁ hstep
    exact Or.inr ⟨d, v, pc₂, Threads.moved_pc_self, hi, hno', howes⟩
  · have hcalm := h.base.calmAt hs (by rwa [hk.oid]) htells
    exact Or.inl ⟨c, w, _, hpc, rfl, h0, hcalm.hasNews hnews⟩

theorem data_move [Rounding] (h : WakeupInv env limit t) (hs : StepsRings t (t.pc l.pid) s')
    (hm : l.move env t.shared (t.pc l.pid) = some (s', pc')) (i : Nat) :
    (s'.changenotify i).Attended (fun _ => False) ((t.moved l s' pc').NewsAt i)
      fun q _ => (t.moved l s' pc').TellsAt i q := by
  by_cases hb : ∃ c w, t.pc l.pid = .write c (.put w .broadcast) ∧ w.i = i
  · obtain ⟨c, w, hpc, rfl⟩ := hb
    rw [hpc] at hm
    obtain ⟨pc₁, rfl, hstep⟩ := l.put_step hm
    cases hstep
    refine .quiet (fun p => ?_) fun _ hd => hd
    simp [Shared.broadcastNotify, Shared.setNotify, Monitor.broadcast]
  · refine (h.data i).step ((h.base.locks.locksBy hm).notify i) (fun _ _ hd => hd.elim)
      (fun q hq hw hnews => h.news hs hm hq (hw.resolve_right id) hnews)
      (fun r q _ ho => tells_moved hm (fun c w hpc hi => hb ⟨c, w, hpc, hi⟩) ho)
      (fun hd => hd.elim) fun hw hnews => ?_
    -- whoever has just come to be blocked has seen no news
    have hw := hw.resolve_right id
    obtain ⟨c, w, hpc', rfl⟩ := (h.base.locks.move hm).blockedAt hw
    obtain ⟨c', w', pc₁, hpc₁, -, h0, hnews⟩ := hnews
    rw [hpc'] at hpc₁
    cases hpc₁
    rw [Threads.moved_pc_self] at hpc'
    subst hpc'
    obtain ⟨hdb, hno, ret, hpc⟩ := l.blocked_waitnext hm hw
    obtain ⟨-, -, hloop, -⟩ := h.waiters l.pid c _ hpc h0
    rw [Threads.moved_shared, hdb] at hnews
    exact absurd hnews (hloop hno)

/-- A search sees a difference only where an insert sets an oid. -/
theorem searchedAlike (h : WakeupInv env limit t) (hs : StepsRings t (t.pc l.pid) s')
    (hset : ∀ c i oid, t.pc l.pid ≠ .insert c (.setOid i oid)) (i : Nat) :
    (t.shared.db.objmeta i).SearchedAlike (s'.db.objmeta i) := by
  have hsame (heq : s'.db.objmeta i = t.shared.db.objmeta i) :
      (t.shared.db.objmeta i).SearchedAlike (s'.db.objmeta i) := by
    rw [heq]
    exact Or.inl (.refl _)
  cases hs.ring with
  | calm htable hfade => exact hsame (by rw [htable])
  | raise hpc hwpc htable hfade hsize => exact hsame (by rw [htable])
  | @publish c w hpc htable hheap =>
      rw [htable]
      by_cases hi : i = w.i
      · rw [hi, Function.update_self]
        exact Or.inl rfl
      · rw [Function.update_of_ne hi]
        exact Or.inl (.refl _)
  | @enter c j hpc htable hheap =>
      by_cases hi : i = j
      · subst hi
        have hk := h.base.inserts l.pid c _ hpc
        rw [htable, Function.update_self]
        exact Or.inr ⟨(hk.free i rfl).2, hk.fresh.1⟩
      · exact hsame (by rw [htable, Function.update_of_ne hi])
  | setOid hpc htable hheap => exact absurd hpc (hset _ _ _)

theorem search_move [Rounding] (h : WakeupInv env limit t) (hs : StepsRings t (t.pc l.pid) s')
    (hm : l.move env t.shared (t.pc l.pid) = some (s', pc')) :
    s'.objmetaLock.Attended (fun _ => False) ((t.moved l s' pc').FoundFor env)
      fun q _ => (t.moved l s' pc').AnnouncesMeta q := by
  by_cases hb : ∃ c oid, t.pc l.pid = .insert c (.broadcast oid)
  · obtain ⟨c, oid, hpc⟩ := hb
    rw [hpc] at hm
    obtain ⟨c', pc₁, rfl, hstep⟩ := l.insert_step rfl hm
    cases hstep
    exact .quiet (fun _ => rfl) fun _ hd => hd
  · refine h.search.step (h.base.locks.locksBy hm).objmeta (fun _ _ hd => hd.elim)
      (fun q hq hw hfound => ?_)
      (fun r q _ ho => announces_moved (fun c oid hpc => hb ⟨c, oid, hpc⟩) ho)
      (fun hd => hd.elim) fun hw hfound => ?_
    · obtain ⟨c, hpc⟩ := h.base.locks.blockedMeta (hw.resolve_right id)
      obtain ⟨c', pc₁, hpc₁, hfound⟩ := hfound
      rw [Threads.moved_pc_of_ne hq, hpc] at hpc₁
      cases hpc₁
      by_cases hset : ∃ d i oid, t.pc l.pid = .insert d (.setOid i oid)
      · obtain ⟨d, i, oid, hd⟩ := hset
        rw [hd] at hm
        obtain ⟨d', pc₂, rfl, hstep⟩ := l.insert_step rfl hm
        cases hstep
        exact Or.inr ⟨d, oid, Threads.moved_pc_self⟩
      · refine Or.inl ⟨c, _, hpc, ?_⟩
        rwa [← c.answer_congr (h.searchedAlike hs fun d i oid hd => hset ⟨d, i, oid, hd⟩)]
    · -- whoever has just come to be blocked has found nothing
      have hw := hw.resolve_right id
      obtain ⟨c, hpc'⟩ := (h.base.locks.move hm).blockedMeta hw
      obtain ⟨c', pc₁, hpc₁, hfound⟩ := hfound
      rw [hpc'] at hpc₁
      cases hpc₁
      rw [Threads.moved_pc_self] at hpc'
      subst hpc'
      obtain ⟨hdb, hpc⟩ := l.blocked_searchWait hm hw
      have hk := h.searchers l.pid
      rw [hpc] at hk
      rw [Threads.moved_shared, hdb] at hfound
      exact absurd hk hfound

/-- What a search that waits knows after its own step. -/
theorem searchKnows_move [Rounding] (hm : l.move env t.shared (t.pc l.pid) = some (s', pc')) :
    pc'.SearchKnows env s'.db := by
  generalize t.pc l.pid = pc at hm
  cases l with
  | start p call now =>
      simp only [Label.move] at hm
      split at hm <;> cases hm
      cases call <;> trivial
  | next p now =>
      cases pc with
      | idle => cases hm
      | searchWait c pc =>
          obtain ⟨⟨u, pc₁⟩, hstep, heq⟩ := Option.map_eq_some_iff.mp hm
          cases heq
          cases pc with
          | prepare =>
              obtain ⟨u, -, heq⟩ := Option.map_eq_some_iff.mp hstep
              cases heq
              trivial
          | wait =>
              obtain ⟨u, -, heq⟩ := Option.map_eq_some_iff.mp hstep
              cases heq
              trivial
          | search =>
              simp only [SearchWait.step, Option.some.injEq, Prod.mk.injEq] at hstep
              obtain ⟨rfl, rfl⟩ := hstep
              split
              · assumption
              · trivial
          | blocked timedOut =>
              simp only [SearchWait.step] at hstep
              split at hstep
              · cases hstep
              · obtain ⟨u, -, heq⟩ := Option.map_eq_some_iff.mp hstep
                cases heq
                trivial
          | unlocked timedOut =>
              cases hstep
              cases timedOut <;> trivial
          | done ret => cases hstep
          | _ =>
              cases hstep
              trivial
      | _ =>
          obtain ⟨u, -, heq⟩ := Option.map_eq_some_iff.mp hm
          cases heq
          trivial
  | wake p timedOut =>
      simp only [Label.move, Pc.wake] at hm
      split at hm
      · split at hm <;> cases hm
        trivial
      · split at hm <;> cases hm
        trivial
      · cases hm
  | fill p n v =>
      cases pc with
      | write c pc =>
          obtain ⟨u, -, heq⟩ := Option.map_eq_some_iff.mp hm
          cases heq
          trivial
      | _ => cases hm

theorem waitKnows_move [Rounding] {c : Waitnext} {pc : WaitPc} (h : WakeupInv env limit t)
    (hm : l.move env t.shared (t.pc l.pid) = some (s', .waitnext c pc)) (h0 : c.oid ≠ 0) :
    WaitKnows s'.db c pc := by
  have hk := h.waiters l.pid
  have hunique (i j : Nat) (hi : (t.shared.db.objmeta i).oid = c.oid)
      (hj : (t.shared.db.objmeta j).oid = c.oid) : j = i :=
    h.base.numbered.unique j i (by rwa [hj]) (hj.trans hi.symm)
  generalize t.pc l.pid = qc at hk hm
  cases l with
  | start p call now =>
      simp only [Label.move] at hm
      split at hm
      · cases call <;> cases hm
        trivial
      · cases hm
  | next p now =>
      cases qc with
      | idle => cases hm
      | waitnext c₀ pc₀ =>
          obtain ⟨⟨u, pc₁⟩, hstep, heq⟩ := Option.map_eq_some_iff.mp hm
          have honly := c₀.onlyLocks hstep
          cases heq
          rw [honly.db]
          exact Waitnext.waitKnows hunique (fun i hi => h.base.storedRing hi) (hk _ _ rfl h0) hstep
      | _ =>
          obtain ⟨u, -, heq⟩ := Option.map_eq_some_iff.mp hm
          cases heq
  | wake p timedOut =>
      simp only [Label.move, Pc.wake] at hm
      split at hm
      · split at hm <;> cases hm
        obtain ⟨hs, hno, -, hblocked⟩ := hk _ _ rfl h0
        exact ⟨hs, hno, fun _ => trivial, fun _ _ => hblocked false rfl⟩
      · split at hm <;> cases hm
      · cases hm
  | fill p n v =>
      cases qc with
      | write c pc =>
          obtain ⟨u, -, heq⟩ := Option.map_eq_some_iff.mp hm
          cases heq
      | _ => cases hm

theorem move [Rounding] (h : WakeupInv env limit t) (hf : AllocSound limit env.alloc)
    (hr : RefusesNegative env.alloc) (hlimit : limit < 2 ^ 31) (hg : t.Keeps l)
    (hm : l.move env t.shared (t.pc l.pid) = some (s', pc')) :
    WakeupInv env limit (t.moved l s' pc') := by
  have hs := h.base.stepsRings hf hr hm
  refine ⟨h.base.move hf hr hlimit hg hm, fun q c pc hq h0 => ?_, fun q => ?_, h.data_move hs hm,
    h.search_move hs hm⟩
  · by_cases hql : q = l.pid
    · rw [hql, Threads.moved_pc_self] at hq
      subst hq
      exact h.waitKnows_move hm h0
    · rw [Threads.moved_pc_of_ne hql] at hq
      exact h.base.waitKnows_kept hs hql hq h0 (h.waiters q c pc hq h0)
  · by_cases hql : q = l.pid
    · rw [hql, Threads.moved_pc_self]
      exact searchKnows_move hm
    · rw [Threads.moved_pc_of_ne hql]
      have hk := h.searchers q
      unfold Pc.SearchKnows at hk ⊢
      split
      · rename_i c hq
        rw [hq] at hk
        rw [Threads.moved_shared, c.answer_congr (h.searchedAlike hs fun d i oid hd => hql ?_)]
        · exact hk
        · refine h.base.locks.eq_of_locksObjmeta ?_ ?_
          · rw [hq]
            rfl
          · rw [hd]
            rfl
      · trivial

theorem initial [Rounding] {heapSize : Int} (hf : AllocSound limit env.alloc)
    (hinit : (threadsLts env heapSize).init t) : WakeupInv env limit t := by
  have hbase := Interleaved.initial hf hinit
  cases hinit
  exact ⟨hbase, (fun p c pc hp => by cases hp), fun p => trivial,
    fun i => .free fun _ hd => hd, .free fun _ hd => hd⟩

theorem noLostWakeup (h : WakeupInv env limit t) : NoLostWakeup env t where
  data p c l timedOut hpc h0 hw hnews := by
    obtain ⟨q, w, wc, pc, hq, hi, hno, howes⟩ :=
      (h.data l.i).owed p (Or.inl hw) ⟨c, l, _, hpc, rfl, h0, hnews⟩
    exact ⟨q, w, wc, pc, hq, hi, hno, howes⟩
  search p c timedOut hpc hw hfound := by
    obtain ⟨q, d, oid, hq⟩ := h.search.owed p (Or.inl hw) ⟨c, _, hpc, hfound⟩
    exact ⟨q, d, oid, hq⟩

end WakeupInv

end Wakeup

/-- In every run that deletes nothing, whatever the interleaving, no wakeup is lost. -/
theorem noLostWakeup_of_guarded [Rounding] {env : Env} {limit heapSize : Int} {t : Threads}
    (hf : AllocSound limit env.alloc) (hr : RefusesNegative env.alloc) (hlimit : limit < 2 ^ 31)
    (h : (threadsLts env heapSize).Guarded Threads.Keeps t) : NoLostWakeup env t := by
  suffices hinv : WakeupInv env limit t from hinv.noLostWakeup
  refine h.invariant (fun _ => WakeupInv.initial hf) fun u l u' hI hg hs => ?_
  obtain ⟨s', pc', hm, rfl⟩ := threadsLts_step hs
  exact hI.move hf hr hlimit hg hm

/-- One thread waits for data of an object, another one for an object that is not there. The data
are committed and the object is inserted, up to the broadcasts. -/
def wakeupSchedule : List Label :=
  [.start 0 (.insert ⟨2, false⟩ anObject) 1] ++ Label.steps 0 1 12 ++
    [.start 1 (.waitnext aWaiter) 2] ++ Label.steps 1 2 9 ++
    [.start 2 (.searchWait ⟨some ['b'], 0, 0, 0, 0⟩) 3] ++ Label.steps 2 3 3 ++
    [.start 0 (.writedata ⟨2, false⟩ 1 (Mem.zero.write32 20 24)) 5000000000] ++
    Label.steps 0 5000000000 20 ++
    [.start 3 (.insert ⟨2, false⟩ { anObject with name := ['b'] }) 6000000000] ++
    Label.steps 3 6000000000 10

theorem noLostWakeup_of_guarded_blocked :
    ∃ t, (threadsLts (exampleEnv 4096) 4096).Guarded Threads.Keeps t ∧
      NoLostWakeup (exampleEnv 4096) t ∧ (t.pc 1).blockedOn = some 0 ∧
      (t.shared.changenotify 0).waiting 1 = true ∧ t.shared.db.HasNews 0 aWaiter.oldTs ∧
      t.shared.objmetaLock.waiting 2 = true := by
  obtain ⟨t, hr, hp⟩ := (threadsLts (exampleEnv 4096) 4096).exists_of_execGuarded
    (G := Threads.Keeps) (g := fun t l => decide (t.Keeps l)) (fun _ _ => of_decide_eq_true)
    wakeupSchedule
    (fun t => decide ((t.pc 1).blockedOn = some 0 ∧ (t.shared.changenotify 0).waiting 1 = true ∧
      t.shared.db.HasNews 0 aWaiter.oldTs ∧ t.shared.objmetaLock.waiting 2 = true))
    (s := ⟨.initial (exampleEnv 4096) 4096, fun _ => .idle, []⟩) rfl (by decide +kernel)
  exact ⟨t, hr, noLostWakeup_of_guarded (bumpAlloc_sound 4096) (bumpAlloc_refusesNegative 4096)
    (by decide) hr, of_decide_eq_true hp⟩

end KogmoRtdb
