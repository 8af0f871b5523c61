import KogmoRtdb.DataPath.HistSearch
import KogmoRtdb.Meta.Visibility

/-!
# Data without its object

`readinfo` asks whether the object exists at a time, by `created_ts` and `deleted_ts`;
`readdata` asks for the latest record up to that time, by the stamps in the history, and looks
at `deleted_ts` only when the time is 0. `dataVisible_iff` says when data is read of an object
that is not there: at another time than 0, whenever the history has a record for it.
-/

namespace KogmoRtdb

open Prog

/-- The slots that a search for the latest record up to `ts` loads: back from the latest one
while the stamps are later. -/
inductive LooksAt (heap : Heap) (info : ObjInfo) (ts : Timestamp) : Int → Int → Prop where
  | latest {slot firstslot : Int} :
      histscan heap info 0 0 0 = some (slot, firstslot) → LooksAt heap info ts slot firstslot
  | back {slot firstslot slot' firstslot' : Int} :
      LooksAt heap info ts slot firstslot → ts.toInt < (slotTs heap info slot).toInt →
        histscan heap info (-1) slot firstslot = some (slot', firstslot') →
          LooksAt heap info ts slot' firstslot'

/-- The history has a record for `ts` that the process may read, and that is not withheld. -/
def HasRecord [Rounding] (db : Db) (h : Handle) (i : Nat) (ts now : Timestamp) : Prop :=
  (db.objmeta i).bufferIdx ≠ 0 ∧ (db.objmeta i).readDenied h = false ∧
    ∃ slot firstslot, LooksAt db.heap (db.objmeta i) ts slot firstslot ∧
      (slotTs db.heap (db.objmeta i) slot).toInt ≤ ts.toInt ∧
      tooOld (db.objmeta i) (slotTs db.heap (db.objmeta i) slot) now = false ∧
      0 ≤ slotSize db.heap (db.objmeta i) slot

/-- If `readdata` returns a size, `readinfo` succeeds for the same object and time. -/
def DataVisible [Rounding] (env : Env) (w : World) (h : Handle) (oid : ObjId) (ts : Timestamp)
    (buf : Mem) (size : Int) (now : Timestamp) : Prop :=
  (∃ fuel out n, readdata w.db h oid ts buf size now fuel = some out ∧ out.ret = .ok n ∧ 0 ≤ n) →
    ReadinfoOk env w oid ts

variable {heap : Heap} {info : ObjInfo} {ts now : Timestamp} {slot firstslot : Int} {db : Db}
  {h : Handle} {oid : ObjId} {buf : Mem} {size : Int} {i : Nat}

theorem verdict_last (hts : ts ≠ 0) (p : Probe) :
    Mode.last.verdict ts none p = if ts.toInt < p.ts.toInt then .back none else .take p := by
  have hts : ¬ ts = 0#64 := hts
  unfold Mode.verdict
  by_cases hlt : ts.toInt < p.ts.toInt <;>
    simp [Mode.goesBack, Mode.key, Mode.usesDataTs, Mode.keepsNewer, invalidTs, hts, hlt]

theorem probeAt_slotTs (heap : Heap) (info : ObjInfo) (mode : Mode) (slot : Int) :
    (probeAt heap info mode slot).ts = slotTs heap info slot := rfl

/-- What the loop takes is a record up to `ts`. -/
theorem scanLoop_takes (hts : ts ≠ 0) {fuel : Nat} {p : Probe}
    (hlook : LooksAt heap info ts slot firstslot)
    (hrun : scanLoop heap info .last ts fuel slot firstslot none = some (.ok p)) :
    p = probeAt heap info .last p.slot ∧ (∃ first, LooksAt heap info ts p.slot first) ∧
      p.ts.toInt ≤ ts.toInt := by
  induction fuel generalizing slot firstslot with
  | zero => cases hrun
  | succ fuel ih =>
      rw [scanLoop, verdict_last hts, probeAt_slotTs] at hrun
      by_cases hlt : ts.toInt < (slotTs heap info slot).toInt
      · rw [if_pos hlt] at hrun
        dsimp only at hrun
        cases hscan : histscan heap info (-1) slot firstslot with
        | none =>
            rw [hscan] at hrun
            cases hrun
        | some next =>
            rw [hscan] at hrun
            exact ih (hlook.back hlt hscan) hrun
      · rw [if_neg hlt] at hrun
        cases hrun
        exact ⟨rfl, ⟨firstslot, hlook⟩, Int.not_lt.mp hlt⟩

theorem scanLoop_comes (hts : ts ≠ 0) (hlook : LooksAt heap info ts slot firstslot) {fuel : Nat}
    {res : Except Err Probe}
    (hrun : scanLoop heap info .last ts fuel slot firstslot none = some res) :
    ∃ slot₀ first₀ fuel', histscan heap info 0 0 0 = some (slot₀, first₀) ∧
      scanLoop heap info .last ts fuel' slot₀ first₀ none = some res := by
  induction hlook generalizing fuel with
  | latest hscan => exact ⟨_, _, fuel, hscan, hrun⟩
  | back hlook hlt hscan ih =>
      refine @ih (fuel + 1) ?_
      rw [scanLoop, verdict_last hts, probeAt_slotTs, if_pos hlt]
      dsimp only
      rw [hscan]
      exact hrun

/-- A read returns the size of the record it has selected, if that is not withheld. -/
theorem copyOut_ok_iff [Rounding] {p : Probe} {n : Int} (hp : p = probeAt heap info .last p.slot) :
    (copyOut heap info p size buf now).ret = .ok n ↔
      tooOld info (slotTs heap info p.slot) now = false ∧ n = slotSize heap info p.slot := by
  have hts : p.ts = slotTs heap info p.slot := congrArg Probe.ts hp
  unfold copyOut
  dsimp only
  rw [if_neg (fun hne => hne hts.symm)]
  change (if tooOld info (slotTs heap info p.slot) now = true then _ else _ : ReadOut).ret = _ ↔ _
  cases tooOld info (slotTs heap info p.slot) now with
  | true => simp
  | false =>
      simp only [Bool.false_eq_true, if_false, Except.ok.injEq, true_and]
      exact eq_comm

/-- `readdata` at a time returns a size if there is a record for it. -/
theorem readdata_ok_iff [Rounding] (hts : ts ≠ 0) (hfind : db.findmetaById oid = some i) :
    (∃ fuel out n, readdata db h oid ts buf size now fuel = some out ∧ out.ret = .ok n ∧ 0 ≤ n) ↔
      HasRecord db h i ts now := by
  have hnow : ¬ (True ∧ ts = invalidTs ∧ (db.objmeta i).deletedTs ≠ invalidTs) :=
    fun hc => hts hc.2.1
  unfold readdata readdataMode select HasRecord
  rw [hfind]
  dsimp only
  by_cases hblock : (db.objmeta i).bufferIdx = 0
  · simp only [if_pos hblock]
    constructor
    · rintro ⟨fuel, out, n, hout, hret, -⟩
      cases hout
      cases hret
    · rintro ⟨hne, -⟩
      exact absurd hblock hne
  simp only [if_neg hblock]
  cases hdeny : (db.objmeta i).readDenied h with
  | true =>
      simp only [if_true]
      constructor
      · rintro ⟨fuel, out, n, hout, hret, -⟩
        cases hout
        cases hret
      · rintro ⟨-, hno, -⟩
        cases hno
  | false =>
      simp only [Bool.false_eq_true, if_false]
      cases hscan : histscan db.heap (db.objmeta i) 0 0 0 with
      | none =>
          constructor
          · rintro ⟨fuel, out, n, hout, hret, -⟩
            cases hout
            cases hret
          · rintro ⟨-, -, slot, first, hlook, -⟩
            have hnone : ∀ slot first, ¬ LooksAt db.heap (db.objmeta i) ts slot first := by
              intro slot first hlook
              induction hlook with
              | latest hfirst =>
                  rw [hscan] at hfirst
                  cases hfirst
              | back _ _ _ ih => exact ih
            exact absurd hlook (hnone slot first)
      | some first =>
          dsimp only
          simp only [if_neg hnow]
          constructor
          · rintro ⟨fuel, out, n, hout, hret, hn⟩
            obtain ⟨res, hres, hout⟩ := Option.map_eq_some_iff.mp hout
            obtain ⟨res, hloop, rfl⟩ := Option.map_eq_some_iff.mp hres
            cases res with
            | error e =>
                cases hout
                cases hret
            | ok p =>
                cases hout
                obtain ⟨hp, ⟨first', hlook⟩, hle⟩ := scanLoop_takes hts (.latest hscan) hloop
                obtain ⟨hfresh, rfl⟩ := (copyOut_ok_iff hp).mp hret
                rw [congrArg Probe.ts hp, probeAt_slotTs] at hle
                exact ⟨hblock, trivial, p.slot, first', hlook, hle, hfresh, hn⟩
          · rintro ⟨-, -, slot, first', hlook, hle, hfresh, hsize⟩
            have htake : scanLoop db.heap (db.objmeta i) .last ts 1 slot first' none =
                some (.ok (probeAt db.heap (db.objmeta i) .last slot)) := by
              rw [scanLoop, verdict_last hts, probeAt_slotTs, if_neg (Int.not_lt.mpr hle)]
            obtain ⟨slot₀, first₀, fuel, hscan', hrun⟩ := scanLoop_comes hts hlook htake
            rw [hscan] at hscan'
            cases hscan'
            refine ⟨fuel, copyOut db.heap (db.objmeta i)
              (probeAt db.heap (db.objmeta i) .last slot) size buf now,
              slotSize db.heap (db.objmeta i) slot, ?_, ?_, hsize⟩
            · rw [hrun]
              rfl
            · exact (copyOut_ok_iff rfl).mpr ⟨hfresh, rfl⟩

theorem deletedTs_of_readdata [Rounding] (hfind : db.findmetaById oid = some i) {fuel : Nat}
    {out : ReadOut}
    {n : Int} (hrun : readdata db h oid 0 buf size now fuel = some out) (hret : out.ret = .ok n) :
    (db.objmeta i).deletedTs = 0 := by
  by_contra hdeleted
  have hnow : Mode.last = .last ∧ (0 : Timestamp) = invalidTs ∧
      (db.objmeta i).deletedTs ≠ invalidTs := ⟨rfl, rfl, hdeleted⟩
  unfold readdata readdataMode select at hrun
  rw [hfind] at hrun
  dsimp only at hrun
  split at hrun
  · cases hrun
    cases hret
  · split at hrun
    · cases hrun
      cases hret
    · split at hrun
      · cases hrun
        cases hret
      · cases hrun
        cases hret

/-- Data is read of objects that are there only, but for those that do not exist at a time for
which they have a record. -/
theorem dataVisible_iff [Rounding] (env : Env) (w : World) (h : Handle) (oid : ObjId)
    (ts : Timestamp) (buf : Mem) (size : Int) (now : Timestamp) :
    DataVisible env.atomic w h oid ts buf size now ↔
      ts = 0 ∨ ∀ i, w.db.findmetaById oid = some i →
        (w.db.objmeta i).hidden ts = false ∨ ¬ HasRecord w.db h i ts now := by
  unfold DataVisible
  rw [readinfoOk_iff]
  cases hfind : w.db.findmetaById oid with
  | none =>
      refine iff_of_true ?_ (Or.inr fun i hi => by cases hi)
      rintro ⟨fuel, out, n, hout, hret, -⟩
      unfold readdata readdataMode select at hout
      rw [hfind] at hout
      cases hout
      cases hret
  | some i =>
      have hi : (∀ j, some i = some j → (w.db.objmeta j).hidden ts = false ∨
          ¬ HasRecord w.db h j ts now) ↔
          (w.db.objmeta i).hidden ts = false ∨ ¬ HasRecord w.db h i ts now := by simp
      rw [findmeta_shown hfind, hi]
      by_cases hts : ts = 0
      · subst hts
        refine iff_of_true ?_ (Or.inl rfl)
        rintro ⟨fuel, out, n, hout, hret, -⟩
        have hlive := deletedTs_of_readdata hfind hout hret
        simp [ObjInfo.hidden, hlive]
      · rw [readdata_ok_iff hts hfind]
        constructor
        · intro hvisible
          refine Or.inr ?_
          by_cases hrec : HasRecord w.db h i ts now
          · exact Or.inl (hvisible hrec)
          · exact Or.inr hrec
        · rintro (h0 | hvisible | hnone) hrec
          · exact absurd h0 hts
          · exact hvisible
          · exact absurd hrec hnone

/-- A record is committed to an object, which is then deleted. Later the object is not there, and
its data is. -/
theorem exists_not_dataVisible :
    ∃ s, (apiLts (exampleEnv 4096) 4096).Reachable s ∧ ∃ ts now,
      ¬ DataVisible (exampleEnv 4096).atomic s.world aProcess 1 ts (fun _ => 0) 100 now := by
  obtain ⟨s, hr, hp⟩ := (apiLts (exampleEnv 4096) 4096).exists_of_exec
    [.insert aProcess anObject, .writedata aProcess 1 historyRecord,
      .deleteImm aProcess { anObject with oid := 1 } false 1]
    (fun s => decide (s.world.db.findmetaById 1 = some 0 ∧
      (s.world.db.objmeta 0).hidden 20000000000 = true) &&
      Option.any (fun out : ReadOut => decide (out.ret = .ok 32))
        (readdata s.world.db aProcess 1 20000000000 (fun _ => 0) 100 0 2))
    (s := ⟨World.initial (exampleEnv 4096).atomic 4096, []⟩) rfl (by decide +kernel)
  obtain ⟨hmeta, hread⟩ := Bool.and_eq_true_iff.mp hp
  obtain ⟨hfind, hhidden⟩ := of_decide_eq_true hmeta
  obtain ⟨out, hout, hret⟩ := (Option.any_eq_true _ _).mp hread
  refine ⟨s, hr, 20000000000, 0, fun hv => ?_⟩
  have hok := hv ⟨2, out, 32, hout, of_decide_eq_true hret, by decide⟩
  rw [readinfoOk_iff, findmeta_shown hfind, hhidden] at hok
  cases hok

end KogmoRtdb
