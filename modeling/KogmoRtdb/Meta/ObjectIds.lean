import KogmoRtdb.Meta.Accounting
import KogmoRtdb.Meta.DeleteTree

/-!
# Object ids

`objmeta_oid_next` is a `uint64_t`, an oid an `int32_t`. The test for exhaustion looks at
the truncated value, so it strikes while the counter is between 2^31 and 2^32, and
after that the small oids come round again. Until then every oid is the counter
itself, and so has not been returned before.
-/

namespace KogmoRtdb

open Prog

variable {env : Env} {h : Handle} {ts : Timestamp} {m : ObjInfo} {w w' : World}

/-- The oids that inserts have returned, newest first. -/
def insertedOids (log : List ApiEvent) : List ObjId :=
  log.filterMap fun
    | .inserted oid => some oid
    | .committed .. => none

/-- The oids that were returned are positive and pairwise distinct. -/
def OidsUnique (log : List ApiEvent) : Prop :=
  (∀ oid ∈ insertedOids log, 0 < oid) ∧ (insertedOids log).Nodup

/-! ## The counter and an insert -/

/-- The insert comes to the place where it takes an oid. -/
def TakesOid [Rounding] (env : Env) (h : Handle) (metadata : ObjInfo) (w : World) : Prop :=
  let ts := env.now w.tick
  let m := initMetadata env h ts metadata
  metadata.refused = false ∧ w.db.notUniq m = false ∧
    (findReusable w.db h m ts ≠ none ∨ FindsFree env m w)

instance [Rounding] {metadata : ObjInfo} : Decidable (TakesOid env h metadata w) := by
  unfold TakesOid
  infer_instance

@[simp] theorem release_objmetaOidNext (idx : Int) (m : ObjInfo) (w : World) :
    (w.release idx m).db.objmetaOidNext = w.db.objmetaOidNext := by
  unfold World.release
  split <;> rfl

/-- With a slot in hand and past the uniqueness check, the insert takes an oid. -/
theorem takesOid_of_slot [Rounding] {metadata m' : ObjInfo} {i : Nat} {newIdx : Int} {w₁ : World}
    (href : metadata.refused = false)
    (hs : SlotSearch env.atomic h (env.now w.tick) (initMetadata env h (env.now w.tick) metadata)
      (w.ask.lock env.atomic) (some i) newIdx m' w₁) (hu : w₁.db.notUniq m' = false) :
    TakesOid env h metadata w := by
  have hfound := hs.found
  have huniq := hs.notUniq_eq
  rw [atomic_lock_db] at huniq
  rw [findsFree_lock, atomic_lock_db] at hfound
  refine ⟨href, huniq.symm.trans hu, ?_⟩
  rcases hfound with ⟨hi, -⟩ | ⟨-, -, hfinds, -⟩
  · exact Or.inl fun hno => Option.some_ne_none i (hi.symm.trans hno)
  · exact Or.inr hfinds

theorem oidTaken_objmetaOidNext (i : Nat) (m : ObjInfo) (w : World) :
    (w.write (·.setMeta i m)).oidTaken.db.objmetaOidNext = (w.db.objmetaOidNext + 1) % 2 ^ 64 :=
  rfl

/-- The counter moves when an insert takes an oid, and the insert returns the oid if it is
positive. -/
theorem insert_oid [Rounding] {metadata : ObjInfo} {r : Result × ObjInfo}
    (hrun : insert env.atomic h metadata w = some (r, w')) :
    (w'.db.objmetaOidNext = w.db.objmetaOidNext ∧ ∃ e, r.1 = .error e) ∨
      (TakesOid env h metadata w ∧
        w'.db.objmetaOidNext = (w.db.objmetaOidNext + 1) % 2 ^ 64 ∧
        (w.db.nextOid ≤ 0 ∧ (∃ e, r.1 = .error e) ∨
          0 < w.db.nextOid ∧ r.1 = .ok w.db.nextOid)) := by
  rcases insert_some hrun with ⟨-, rfl, rfl⟩ | ⟨href, foundSlot, newIdx, m', w₁, hs, hfin⟩
  · exact Or.inl ⟨rfl, _, rfl⟩
  have hdb : (w.ask.lock env.atomic).db = w.db := atomic_lock_db w.ask
  have hnext := hs.db_eq.2.1
  rw [hdb] at hnext
  have hnextOid : w₁.db.nextOid = w.db.nextOid := congrArg (fun n : Nat => wrap32 n) hnext
  cases hfin with
  | notUniq hu => exact Or.inl ⟨(release_objmetaOidNext ..).trans hnext, _, rfl⟩
  | noSlot hu => exact Or.inl ⟨hnext, _, rfl⟩
  | @noOid i hu hle =>
      have hnone : w.db.nextOid ≤ 0 := hnextOid.symm.trans_le hle
      refine Or.inr ⟨takesOid_of_slot href hs hu, ?_, Or.inl ⟨hnone, _, rfl⟩⟩
      have htaken := oidTaken_objmetaOidNext i m' w₁
      rw [hnext] at htaken
      have hrel := release_objmetaOidNext m'.bufferIdx m' (w₁.write (·.setMeta i m')).oidTaken
      exact hrel.trans htaken
  | @entered i oid hu hoid hpos =>
      have hoid' : oid = w.db.nextOid := hoid.trans hnextOid
      have hnew : 0 < w.db.nextOid := hpos.trans_eq hoid'
      refine Or.inr ⟨takesOid_of_slot href hs hu, ?_, Or.inr ⟨hnew, ?_⟩⟩
      · have htaken := oidTaken_objmetaOidNext i m' w₁
        rw [hnext] at htaken
        exact htaken
      · rw [hoid']

theorem keepsEffects_oidNext {next : Nat} :
    KeepsEffects env False fun w => w.db.objmetaOidNext = next where
  idle w w' hw hdb _ := by rw [hdb, hw]
  mark _ _ _ _ hw _ := hw
  purge _ _ hw _ := (release_objmetaOidNext ..).trans hw

/-! ## Runs -/

/-- What holds until the oids come round: the counter is above all of them. -/
structure OidsBelow (next : Nat) (log : List ApiEvent) : Prop where
  pos : 1 ≤ next
  le : next ≤ 2 ^ 32 + 1
  below : ∀ oid ∈ insertedOids log, 0 < oid ∧ oid < next
  nodup : (insertedOids log).Nodup

theorem wrap32_pos {n : Nat} (hn : n ≤ 2 ^ 32) (hpos : 0 < wrap32 n) : wrap32 n = n := by
  unfold wrap32 at hpos ⊢
  rw [Int.bmod_def] at hpos ⊢
  split at hpos <;> omega

/-- The steps of a run in which the oids do not come round: no insert takes one when the
counter has passed 2^32. -/
def OidGuard [Rounding] (env : Env) (s : RunState) : Op → Prop
  | .insert h metadata =>
      TakesOid env h metadata s.world → s.world.db.objmetaOidNext ≤ 2 ^ 32
  | _ => True

instance [Rounding] (s : RunState) : DecidablePred (OidGuard env s)
  | .insert h metadata => inferInstanceAs (Decidable
      (TakesOid env h metadata s.world → s.world.db.objmetaOidNext ≤ 2 ^ 32))
  | .deleteImm .. | .purgeObjs | .changeinfo .. | .writedata .. => isTrue trivial

namespace OidsBelow

variable {next : Nat} {log log' : List ApiEvent}

theorem congr (hb : OidsBelow next log) (hlog : insertedOids log' = insertedOids log) :
    OidsBelow next log' := by
  obtain ⟨h1, h2, h3, h4⟩ := hb
  rw [← hlog] at h3 h4
  exact ⟨h1, h2, h3, h4⟩

theorem succ (hb : OidsBelow next log) (hle : next ≤ 2 ^ 32) : OidsBelow (next + 1) log := by
  refine ⟨by omega, by omega, fun oid hmem => ?_, hb.nodup⟩
  obtain ⟨hpos, hlt⟩ := hb.below oid hmem
  exact ⟨hpos, hlt.trans (Int.ofNat_lt.mpr (Nat.lt_succ_self next))⟩

theorem inserted (hb : OidsBelow next log) (hle : next ≤ 2 ^ 32) (hpos : 0 < wrap32 next) :
    OidsBelow (next + 1) (.inserted (wrap32 next) :: log) := by
  have heq := wrap32_pos hle hpos
  have hsucc := hb.succ hle
  refine ⟨hsucc.pos, hsucc.le, fun oid hmem => ?_, ?_⟩
  · rcases List.mem_cons.mp hmem with hnew | hmem
    · rw [hnew]
      exact ⟨hpos, heq.trans_lt (Int.ofNat_lt.mpr (Nat.lt_succ_self next))⟩
    · exact hsucc.below oid hmem
  · refine List.nodup_cons.mpr ⟨fun hmem => ?_, hb.nodup⟩
    have hlt := (hb.below _ hmem).2
    exact absurd heq hlt.ne

end OidsBelow

theorem oidsBelow_insert [Rounding] {metadata : ObjInfo} {r : Result × ObjInfo}
    {log : List ApiEvent} (hb : OidsBelow w.db.objmetaOidNext log)
    (hg : TakesOid env h metadata w → w.db.objmetaOidNext ≤ 2 ^ 32)
    (hrun : insert env.atomic h metadata w = some (r, w')) :
    OidsBelow w'.db.objmetaOidNext (insertEvents r.1 ++ log) := by
  rcases insert_oid hrun with ⟨hsame, e, hr⟩ | ⟨htakes, hnext, hoid⟩
  · rw [hr, hsame]
    exact hb
  have hle := hg htakes
  have hsucc : w'.db.objmetaOidNext = w.db.objmetaOidNext + 1 := by
    rw [hnext]
    exact Nat.mod_eq_of_lt (by omega)
  rw [hsucc]
  rcases hoid with ⟨-, e, hr⟩ | ⟨hpos, hr⟩ <;> rw [hr]
  · exact hb.succ hle
  · exact hb.inserted hle hpos

theorem insertedOids_writeEvents (h : Handle) (oid : ObjId) (data : Mem) (stamp : Timestamp)
    (ret : Result) (log : List ApiEvent) :
    insertedOids (writeEvents h oid data stamp ret ++ log) = insertedOids log := by
  cases ret <;> rfl

theorem oidsBelow_step [Rounding] {heapSize : Int} {s s' : RunState} {op : Op}
    (hb : OidsBelow s.world.db.objmetaOidNext s.log) (hg : OidGuard env s op)
    (hs : (apiLts env heapSize).step s op = some s') :
    OidsBelow s'.world.db.objmetaOidNext s'.log := by
  obtain ⟨events, hrun, hlog⟩ := apiLts_step hs
  rw [hlog]
  rcases op_cases_keeps keepsEffects_oidNext (fun _ _ _ _ _ _ hw _ _ _ => hw)
    (fun hk => hk.elim) rfl hrun with
    ⟨h, metadata, r, rfl, hins, rfl⟩ | ⟨h, oid, data, out, rfl, hout, hw, rfl⟩ | ⟨hsame, rfl⟩
  · exact oidsBelow_insert hb hg hins
  · have hnext : s'.world.db.objmetaOidNext = s.world.db.objmetaOidNext := by
      rw [hw]
      rcases writedata_cases hout with ⟨e, -, hdb⟩ | ⟨i, -, -, -, -, -, hdb⟩ <;> rw [hdb]
      rfl
    rw [hnext]
    exact hb.congr (insertedOids_writeEvents ..)
  · rw [hsame]
    exact hb

/-- Object ids are unique: in every run of calls in which no insert takes an oid from a
counter past 2^32, the oids returned are positive and pairwise distinct. -/
theorem oidsUnique_of_guarded [Rounding] {heapSize : Int} {s : RunState}
    (h : (apiLts env heapSize).Guarded (OidGuard env) s) : OidsUnique s.log := by
  have hinv : OidsBelow s.world.db.objmetaOidNext s.log := by
    refine h.invariant (I := fun s => OidsBelow s.world.db.objmetaOidNext s.log) ?_
      fun s op s' hI hg hs => oidsBelow_step hI hg hs
    rintro s rfl
    rw [initial_objmetaOidNext]
    exact ⟨by decide, by decide, fun _ hmem => (nomatch hmem), List.nodup_nil⟩
  exact ⟨fun oid hmem => (hinv.below oid hmem).1, hinv.nodup⟩

theorem oidsUnique_of_guarded_delete :
    ∃ s, (apiLts (exampleEnv 4096) 4096).Guarded (OidGuard (exampleEnv 4096)) s ∧
      OidsUnique s.log ∧ insertedOids s.log = [2, 1] := by
  obtain ⟨s, hr, hp⟩ := (apiLts (exampleEnv 4096) 4096).exists_of_execGuarded
    (G := OidGuard (exampleEnv 4096))
    (g := fun s op => decide (OidGuard (exampleEnv 4096) s op)) (fun _ _ => of_decide_eq_true)
    ownerSchedule (fun s => decide (insertedOids s.log = [2, 1]))
    (s := ⟨World.initial (exampleEnv 4096).atomic 4096, []⟩) rfl (by decide +kernel)
  exact ⟨s, hr, oidsUnique_of_guarded hr, of_decide_eq_true hp⟩

/-! ## The oids come round -/

theorem insert_total [Rounding] : Total (insert env h m) := by
  have hlock : Total (objmetaLock env) := fun w => ⟨_, _, rfl⟩
  have hunlock : Total objmetaUnlock := fun w => ⟨_, _, rfl⟩
  have hread : Total readDb := fun w => ⟨_, _, rfl⟩
  have hnow : Total (timestampNow env) := fun w => ⟨_, _, rfl⟩
  have htake : Total takeOid := fun w => ⟨_, _, rfl⟩
  have hwrite {f : Db → Db} : Total (writeDb f) := fun w => ⟨_, _, rfl⟩
  have hfree {idx : Int} {m : ObjInfo} : Total (Prog.when (idx ≠ 0) (memFree idx m.blockSize)) :=
    Total.when fun _ w => ⟨_, _, rfl⟩
  have halloc {size : Int} : Total (memAlloc env size) := by
    intro w
    unfold memAlloc
    split
    · exact ⟨_, _, rfl⟩
    · split <;> exact ⟨_, _, rfl⟩
  have hslot {newIdx : Int} {m : ObjInfo} : Total (findFreeSlot false newIdx m) := by
    refine .bind hread fun db => ?_
    cases db.findmetaById 0 with
    | some i => exact .bind hwrite fun _ => .pure
    | none => exact .pure
  have hbody {m : ObjInfo} : Total (retryBody env false m) := by
    refine .bind .pure fun _ => .ite (fun _ => ?_) fun _ => hslot
    exact .bind hunlock fun _ => .bind halloc fun idx =>
      .ite (fun _ => .bind hlock fun _ => .pure) fun _ => .bind hlock fun _ => hslot
  have henter {i : Nat} {m : ObjInfo} : Total (enterTable i m) :=
    .bind hwrite fun _ => .bind htake fun oid => .ite
      (fun _ => .bind hfree fun _ => .bind hunlock fun _ => .pure)
      fun _ => .bind hwrite fun _ => .bind hunlock fun _ => .pure
  have hfinish {foundSlot : Option Nat} {newIdx : Int} {m : ObjInfo} :
      Total (finishInsert foundSlot newIdx m) := by
    refine .bind hread fun db => .ite
      (fun _ => .bind hunlock fun _ => .bind hfree fun _ => .pure) fun _ => ?_
    cases foundSlot with
    | none => exact .pure
    | some i => exact henter
  refine .bind hnow fun ts => .ite (fun _ => .pure) fun _ => .bind hlock fun _ =>
    .bind hread fun db => ?_
  cases findReusable db h (initMetadata env h ts m) ts with
  | some i => exact hfinish
  | none =>
      refine .bind hbody fun e => ?_
      cases e with
      | ret e m => exact .pure
      | left foundSlot newIdx m => exact hfinish

/-! ### A table that is empty or has one object -/

def Vacant (t : Nat → ObjInfo) : Prop := ∀ i, (t i).oid = 0

/-- Only slot `i` is occupied, by an object of the process `h`. -/
structure Lone (h : Handle) (o : ObjId) (i : Nat) (t : Nat → ObjInfo) : Prop where
  lt : i < objMax
  oid : (t i).oid = o
  other : ∀ j, j ≠ i → (t j).oid = 0
  proc : (t i).createdProc = h.procOid
  parent : (t i).parentOid ≠ o

theorem searchTable_eq_nil {db : Db} {test : NameTest} {otype parentOid procOid : Int}
    {nth : Int} {includedeleted : Bool}
    (hno : ∀ i, (db.objmeta i).matches test otype parentOid procOid ts includedeleted = false) :
    searchTable db test otype parentOid procOid ts nth includedeleted = [] := by
  have hnil : ((List.range objMax).map db.objmeta).filter (fun info =>
      info.matches test otype parentOid procOid ts includedeleted) = [] := by
    refine List.filter_eq_nil_iff.mpr fun info hmem => ?_
    obtain ⟨i, -, rfl⟩ := List.mem_map.mp hmem
    rw [hno i]
    exact Bool.false_ne_true
  unfold searchTable
  rw [hnil]
  split
  · exact List.take_nil
  · rfl

theorem matches_of_free {info : ObjInfo} (hfree : info.oid = 0) (test : NameTest)
    (otype parentOid procOid : Int) (includedeleted : Bool) :
    info.matches test otype parentOid procOid ts includedeleted = false := by
  simp [ObjInfo.matches, hfree]

theorem findReusable_of_vacant [Rounding] {db : Db} (hv : Vacant db.objmeta) :
    findReusable db h m ts = none := by
  refine List.find?_eq_none.mpr fun i _ => ?_
  simp [Db.reusable, hv i]

theorem notUniq_of_vacant {db : Db} (hv : Vacant db.objmeta) : db.notUniq m = false := by
  have hnth (nth : Int) : searchNth db m.otype nth = .error .notFound := by
    unfold searchNth
    rw [searchTable_eq_nil fun i => matches_of_free (hv i) ..]
    rfl
  unfold Db.notUniq
  cases List.range objMax with
  | nil => rfl
  | cons i is => rw [clash, hnth]

theorem findmetaById_of_vacant {db : Db} (hv : Vacant db.objmeta) :
    db.findmetaById 0 ≠ none := by
  intro hnone
  have hpos : 0 < objMax := by
    unfold objMax
    decide
  exact List.find?_eq_none.mp hnone 0 (List.mem_range.mpr hpos) (decide_eq_true (hv 0))

/-- An object without data enters an empty table, if there is an oid for it. -/
theorem insert_lone [Rounding] {metadata : ObjInfo} {r : Result × ObjInfo}
    (hname : metadata.name ≠ []) (hsize : metadata.sizeMax = 0) (hpar : metadata.parentOid = 0)
    (hv : Vacant w.db.objmeta) (hrun : insert env.atomic h metadata w = some (r, w')) :
    w'.db.objmetaOidNext = (w.db.objmetaOidNext + 1) % 2 ^ 64 ∧
      ((w.db.nextOid ≤ 0 ∧ Vacant w'.db.objmeta) ∨
        (0 < w.db.nextOid ∧ r.1 = .ok w.db.nextOid ∧
          ∃ i, Lone h w.db.nextOid i w'.db.objmeta)) := by
  have href : metadata.refused = false := by simp [ObjInfo.refused, hsize, hname]
  rcases insert_some hrun with ⟨href', -⟩ | ⟨-, foundSlot, newIdx, m', w₁, hs, hfin⟩
  · rw [href] at href'
    cases href'
  have hsize' : (initMetadata env h (env.now w.tick) metadata).sizeMax = 0 := by
    simp [initMetadata, hsize]
  have hdb : (w.ask.lock env.atomic).db = w.db := atomic_lock_db w.ask
  have hfound : ∃ i, foundSlot = some i ∧ m'.parentOid = 0 ∧ m'.createdProc = h.procOid := by
    cases hs with
    | @reuse i hi =>
        rw [hdb, findReusable_of_vacant hv] at hi
        cases hi
    | @dataless i hnone h0 hi => exact ⟨i, rfl, hpar, rfl⟩
    | noSlotDataless hnone h0 hi =>
        rw [hdb] at hi
        exact absurd hi (findmetaById_of_vacant hv)
    | noBlock hnone h0 hneg halloc => exact absurd hsize' h0
    | block hnone h0 hpos halloc hge hw hi => exact absurd hsize' h0
    | noSlot hnone h0 hpos halloc hge hw hi => exact absurd hsize' h0
  obtain ⟨i, rfl, hpar', hproc⟩ := hfound
  obtain ⟨hobj, hnext, hoid⟩ := hs.db_eq
  rw [hdb] at hobj hnext
  have hnextOid : w₁.db.nextOid = w.db.nextOid := congrArg (fun n : Nat => wrap32 n) hnext
  have htaken := oidTaken_objmetaOidNext i m' w₁
  rw [hnext] at htaken
  have hother {info : ObjInfo} {j : Nat} (hji : j ≠ i) :
      (Function.update w₁.db.objmeta i info j).oid = 0 := by
    rw [Function.update_of_ne hji, hobj]
    exact hv j
  cases hfin with
  | notUniq hu =>
      rw [notUniq_of_vacant (by rw [hobj]; exact hv)] at hu
      cases hu
  | noOid hu hle =>
      have hrel := release_objmetaOidNext m'.bufferIdx m' (w₁.write (·.setMeta i m')).oidTaken
      refine ⟨hrel.trans htaken, Or.inl ⟨hnextOid.symm.trans_le hle, fun j => ?_⟩⟩
      have htable := release_objmeta m'.bufferIdx m' (w₁.write (·.setMeta i m')).oidTaken
      refine (congrArg (fun t : Nat → ObjInfo => (t j).oid) htable).trans ?_
      by_cases hji : j = i
      · rw [hji]
        exact (congrArg ObjInfo.oid (Function.update_self ..)).trans hoid
      · exact hother hji
  | @entered _ oid hu hoid' hpos =>
      have heq : oid = w.db.nextOid := hoid'.trans hnextOid
      have htable : ((w₁.write (·.setMeta i m')).oidTaken.write
          (·.setMeta i { m'.withParent oid with oid := oid })).unlock.db.objmeta =
          Function.update w₁.db.objmeta i { m'.withParent oid with oid := oid } :=
        Function.update_idem ..
      refine ⟨htaken, Or.inr ⟨hpos.trans_eq heq, congrArg Except.ok heq, i, ?_⟩⟩
      rw [← heq, htable]
      refine ⟨hs.slot_lt, ?_, fun j hji => hother hji, ?_, ?_⟩ <;> rw [Function.update_self]
      · unfold ObjInfo.withParent
        split <;> exact hproc
      · unfold ObjInfo.withParent
        split
        · rename_i hroot
          exact hroot.2.ne
        · show m'.parentOid ≠ oid
          rw [hpar']
          exact hpos.ne

theorem findChildren_none {oid : ObjId} (hoid : oid ≠ 0)
    (hno : ∀ i, (w.db.objmeta i).oid ≠ 0 → (w.db.objmeta i).parentOid ≠ oid) :
    findChildren env oid w = some ([], w) := by
  obtain ⟨test, hname⟩ := searchName_empty env 0
  have hnil : searchTable w.db test 0 oid 0 0 0 false = [] := by
    refine searchTable_eq_nil fun i => ?_
    by_cases hocc : (w.db.objmeta i).oid = 0
    · exact matches_of_free hocc ..
    · simp [ObjInfo.matches, hno i hocc, hoid]
  have hsearch : searchinfoNolock env (some []) 0 oid 0 0 (some env.uninit.clear) 0 w =
      some ((.error (noMatch w.db oid 0), some env.uninit.clear.clear), w) := by
    unfold searchinfoNolock
    rw [searchinfoMode_matches, hname]
    refine bind_some.mpr ⟨_, _, rfl, bind_some.mpr ⟨_, _, rfl, bind_some.mpr ⟨_, _, rfl,
      bind_some.mpr ⟨_, _, rfl, ?_⟩⟩⟩⟩
    rw [hnil]
    rfl
  exact bind_some.mpr ⟨_, _, hsearch, rfl⟩

theorem Lone.findmetaById {oid : ObjId} {i : Nat} {db : Db} (hl : Lone h oid i db.objmeta)
    (hne : oid ≠ 0) : db.findmetaById oid = some i := by
  cases hfound : db.findmetaById oid with
  | none =>
      refine absurd hl.oid ?_
      simpa using List.find?_eq_none.mp hfound i (List.mem_range.mpr hl.lt)
  | some j =>
      have hj := (Db.findmetaById_some hfound).2
      by_cases hji : j = i
      · rw [hji]
      · exact absurd (hj.symm.trans (hl.other j hji)) hne

def World.emptied (env : Env) (h : Handle) (i : Nat) (w : World) : World :=
  (((w.lock env).ask.write fun db => db.setMeta i { w.db.objmeta i with
    deletedProc := h.procOid, deletedTs := env.now (w.lock env).tick }).purged i).unlock

theorem vacant_emptied {oid : ObjId} {i : Nat} (hl : Lone h oid i w.db.objmeta) :
    Vacant (w.emptied env.atomic h i).db.objmeta := by
  intro j
  have hpurged := purged_objmeta i ((w.lock env.atomic).ask.write fun db =>
    db.setMeta i { w.db.objmeta i with
      deletedProc := h.procOid, deletedTs := env.now (w.lock env.atomic).tick })
  refine (congrArg (fun t : Nat → ObjInfo => (t j).oid) hpurged).trans ?_
  by_cases hji : j = i
  · rw [hji, Function.update_self]
  · rw [Function.update_of_ne hji]
    refine (congrArg ObjInfo.oid (Function.update_of_ne hji ..)).trans ?_
    show ((w.lock env.atomic).db.objmeta j).oid = 0
    rw [atomic_lock_db]
    exact hl.other j hji

theorem purgeslot_eq (i : Nat) (w : World) : purgeslot i w = some (⟨⟩, w.purged i) := by
  have hrelease (idx : Int) (m : ObjInfo) :
      Prog.when (idx ≠ 0) (memFree idx m.blockSize) w = some (⟨⟩, w.release idx m) := by
    unfold Prog.when World.release
    split <;> rfl
  exact bind_some.mpr ⟨_, _, rfl, bind_some.mpr ⟨_, _, hrelease _ _, rfl⟩⟩

/-- The only object is deleted at once by its process. -/
theorem delete_lone {oid : ObjId} {i : Nat} {metadata : ObjInfo} (hoid : metadata.oid = oid)
    (hne : oid ≠ 0) (hl : Lone h oid i w.db.objmeta) :
    ∃ r, deleteImm env.atomic h 1 metadata true w = some (r, w.emptied env.atomic h i) := by
  have hdb : (w.lock env.atomic).db = w.db := atomic_lock_db w
  have hdenied : (w.db.objmeta i).writeDenied h = false := by
    simp [ObjInfo.writeDenied, hl.proc]
  have hchildren : findChildren env.atomic metadata.oid (w.lock env.atomic) =
      some ([], w.lock env.atomic) := by
    refine findChildren_none (by rwa [hoid]) fun j hj => ?_
    rw [hdb] at hj ⊢
    by_cases hji : j = i
    · rw [hji, hoid]
      exact hl.parent
    · exact absurd (hl.other j hji) hj
  have hlocked : deleteLocked env.atomic h metadata true w =
      some ((.ok 0, { w.db.objmeta i with
        deletedProc := h.procOid, deletedTs := env.now (w.lock env.atomic).tick }, []),
        w.emptied env.atomic h i) := by
    refine bind_some.mpr ⟨⟨⟩, w.lock env.atomic, rfl, bind_some.mpr ⟨_, _, rfl, ?_⟩⟩
    rw [hdb, hoid, hl.findmetaById hne]
    dsimp only
    rw [hdenied, if_neg Bool.false_ne_true, if_neg (by simp), ← hoid]
    refine bind_some.mpr ⟨_, _, hchildren, bind_some.mpr ⟨_, _, rfl, bind_some.mpr ⟨_, _, rfl, ?_⟩⟩⟩
    rw [Bool.or_true, Prog.when_pos rfl]
    exact bind_some.mpr ⟨_, _, purgeslot_eq i _, rfl⟩
  exact ⟨_, bind_some.mpr ⟨_, _, hlocked, rfl⟩⟩

theorem emptied_objmetaOidNext (i : Nat) :
    (w.emptied env.atomic h i).db.objmetaOidNext = w.db.objmetaOidNext := by
  refine (release_objmetaOidNext ..).trans ?_
  show (w.lock env.atomic).db.objmetaOidNext = _
  rw [atomic_lock_db]

def aDatalessObject : ObjInfo := { name := ['a'] }

theorem apiLts_step_of_run [Rounding] {heapSize : Int} {s : RunState} {op : Op}
    {events : List ApiEvent} (hrun : op.run env.atomic s.world = some (events, w')) :
    (apiLts env heapSize).step s op = some ⟨w', events ++ s.log⟩ := by
  show (op.run env.atomic s.world).map _ = _
  rw [hrun]
  rfl

/-- One object after the other: the table is empty when the counter has run up to `n`. -/
theorem exists_vacant [Rounding] (env : Env) (h : Handle) (heapSize : Int) :
    ∀ n ≤ 2 ^ 32, ∃ s, (apiLts env heapSize).Guarded (fun _ => OidKnown) s ∧
      Vacant s.world.db.objmeta ∧ s.world.db.objmetaOidNext = n + 1 ∧
      (n ≠ 0 → 1 ∈ insertedOids s.log)
  | 0, _ => ⟨⟨World.initial env.atomic heapSize, []⟩, .init rfl, initial_oid _ _,
      initial_objmetaOidNext _ _, fun hne => absurd rfl hne⟩
  | n + 1, hn => by
      obtain ⟨s, hr, hv, hnext, hone⟩ := exists_vacant env h heapSize n (by omega)
      obtain ⟨r, w, hins⟩ := (insert_total : Total (insert env.atomic h aDatalessObject))
        s.world
      obtain ⟨hnext', hcases⟩ := insert_lone (by decide) rfl rfl hv hins
      have hsucc : w.db.objmetaOidNext = n + 1 + 1 := by
        rw [hnext', hnext]
        exact Nat.mod_eq_of_lt (by omega)
      have hstep : (apiLts env heapSize).Guarded (fun _ => OidKnown)
          ⟨w, insertEvents r.1 ++ s.log⟩ :=
        .step (l := .insert h aDatalessObject) hr trivial
          (apiLts_step_of_run (bind_some.mpr ⟨_, _, hins, rfl⟩))
      have hfirst (hn0 : n = 0) : s.world.db.nextOid = 1 := by
        unfold Db.nextOid
        rw [hnext, hn0]
        decide
      have holder (hn0 : n ≠ 0) : 1 ∈ insertedOids (insertEvents r.1 ++ s.log) := by
        unfold insertedOids
        rw [List.filterMap_append]
        exact List.mem_append_right _ (hone hn0)
      generalize s.world.db.nextOid = oid at hcases hfirst
      rcases hcases with ⟨hle, hv'⟩ | ⟨hpos, hok, i, hlone⟩
      · refine ⟨_, hstep, hv', hsucc, fun _ => holder fun hn0 => ?_⟩
        rw [hfirst hn0] at hle
        exact absurd hle (by decide)
      · obtain ⟨r', hdel⟩ : ∃ r', deleteImm env.atomic h 1 { oid := oid } true w =
            some (r', w.emptied env.atomic h i) := delete_lone rfl hpos.ne' hlone
        refine ⟨_, .step (l := .deleteImm h { oid := oid } true 1) hstep hpos.ne'
          (apiLts_step_of_run (bind_some.mpr ⟨_, _, hdel, rfl⟩)), vacant_emptied hlone,
          (emptied_objmetaOidNext i).trans hsucc, fun _ => ?_⟩
        by_cases hn0 : n = 0
        · rw [hok, hfirst hn0]
          exact List.mem_cons_self ..
        · exact holder hn0

/-- The oid 1 is returned again after 2^32 inserts, each object deleted before the next. -/
theorem exists_not_oidsUnique :
    ∃ s, (apiLts (exampleEnv 4096) 4096).Guarded (fun _ => OidKnown) s ∧ ¬ OidsUnique s.log := by
  obtain ⟨s, hr, hv, hnext, hone⟩ :=
    exists_vacant (exampleEnv 4096) aProcess 4096 (2 ^ 32) (Nat.le_refl _)
  obtain ⟨r, w, hins⟩ := 
    (insert_total : Total (insert (exampleEnv 4096).atomic aProcess aDatalessObject)) s.world
  have hnextOid : s.world.db.nextOid = 1 := by
    unfold Db.nextOid
    rw [hnext]
    decide
  obtain ⟨-, ⟨hle, -⟩ | ⟨-, hok, -⟩⟩ := insert_lone (by decide) rfl rfl hv hins
  · rw [hnextOid] at hle
    exact absurd hle (by decide)
  · refine ⟨⟨w, insertEvents r.1 ++ s.log⟩, .step (l := .insert aProcess aDatalessObject) hr
      trivial (apiLts_step_of_run (bind_some.mpr ⟨_, _, hins, rfl⟩)), fun hu => ?_⟩
    have hnodup := hu.2
    rw [hok, hnextOid] at hnodup
    exact (List.nodup_cons.mp hnodup).1 (hone (by decide))

end KogmoRtdb
