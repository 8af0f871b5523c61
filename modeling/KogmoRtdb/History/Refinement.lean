import Mathlib.Data.List.Forall2
import KogmoRtdb.History.Table
import KogmoRtdb.Meta.PurgeRetry

/-!
# The database refines an archive

A run of calls makes an archive: inserts enter objects, writes add records, deletes mark objects
or take them out, purges take out the deleted ones whose time is over, `changeinfo` alters
metadata. `Makes` says what one call may make of it, and `Follows` that a run does. In a run
without the known defects the archive and the database answer the same (`Reflects`): the
metadata, the searches, the reads in all modes and whether a write is accepted.
-/

namespace KogmoRtdb

open Prog

/-! ## What is claimed -/

def ObjInfo.marked (proc : ObjId) (ts : Timestamp) (info : ObjInfo) : ObjInfo :=
  { info with deletedProc := proc, deletedTs := ts }

/-- What a delete may make of the archive: it marks objects, and takes out those that are marked
or are to be taken out immediately. -/
inductive Clears (env : Env) (imm : ObjId → Prop) (cs : List Archived) : List Archived → Prop where
  | refl : Clears env imm cs cs
  | mark {cs' : List Archived} {oid proc : ObjId} {k : Nat} {o : Stored} :
      Clears env imm cs cs' → Archive.lookup oid cs' = some o →
      o.info.deletedTs = 0 ∨ o.info.Immediate imm →
      Clears env imm cs (.alter oid (ObjInfo.marked proc (env.now k)) :: cs')
  | remove {cs' : List Archived} {oid : ObjId} {o : Stored} :
      Clears env imm cs cs' → Archive.lookup oid cs' = some o →
      o.info.deletedTs ≠ 0 ∨ o.info.Immediate imm → Clears env imm cs (.drop oid :: cs')

/-- What an insert may take out: a deleted object of the process that is kept for reuse. -/
inductive Reuses (h : Handle) (cs : List Archived) : List Archived → Prop where
  | none : Reuses h cs cs
  | drop {oid : ObjId} {o : Stored} : Archive.lookup oid cs = some o → o.info.deletedTs ≠ 0 →
      o.info.createdProc = h.procOid → o.info.flags.keepAlloc = true →
      Reuses h cs (.drop oid :: cs)

/-- What a call made in `w` makes of the archive, and what it adds to the log. -/
inductive Makes [Rounding] (env : Env) (w : World) (cs : List Archived) :
    Op → List ApiEvent → List Archived → Prop where
  | nothing (op : Op) : Makes env w cs op [] cs
  | enter {h : Handle} {metadata : ObjInfo} {oid idx : Int} {cs' : List Archived}
      {info : ObjInfo} : Reuses h cs cs' → Archive.lookup oid cs' = none → 0 < oid →
      info = { (initMetadata env h (env.now w.tick) metadata).withParent oid with
        oid := oid, bufferIdx := idx } →
      Makes env w cs (.insert h metadata) [.inserted oid] (.enter oid info.shown :: cs')
  | noOid {h : Handle} {metadata : ObjInfo} {cs' : List Archived} : Reuses h cs cs' →
      Makes env w cs (.insert h metadata) [] cs'
  | add {h : Handle} {oid : ObjId} {data : Mem} {c : Commit} {o : Stored} :
      Archive.lookup oid cs = some o → IsCommitOf c h.procOid data c.stamp →
      Makes env w cs (.writedata h oid data) [.committed oid h.procOid data c.stamp]
        (.add oid c :: cs)
  | delete {h : Handle} {metadata : ObjInfo} {immediatelyDelete : Bool} {fuel : Nat}
      {cs' : List Archived} :
      Clears env (fun oid => immediatelyDelete = true ∧ oid = metadata.oid) cs cs' →
      Makes env w cs (.deleteImm h metadata immediatelyDelete fuel) [] cs'
  | purge {oids : List ObjId} :
      (∀ oid, oid ∈ oids ↔ ∃ o, Archive.lookup oid cs = some o ∧
        w.db.purgeDue o.info (decide (w.db.percentFree < purgeKeepallocPercfree))
          (env.now w.tick) = true) →
      Makes env w cs .purgeObjs [] (oids.map .drop ++ cs)
  | change {h : Handle} {oid : ObjId} {metadata : ObjInfo} {o : Stored} : h.admin = true →
      Archive.lookup oid cs = some o →
      Makes env w cs (.changeinfo h oid metadata) [] (.alter oid (·.change metadata) :: cs)

/-- A run from `s₀` makes an archive of one. -/
inductive Follows [Rounding] (env : Env) (heapSize : Int) (s₀ : RunState) (cs₀ : List Archived) :
    RunState → List Archived → Prop where
  | refl : Follows env heapSize s₀ cs₀ s₀ cs₀
  | step {s s' : RunState} {op : Op} {events : List ApiEvent} {cs cs' : List Archived} :
      Follows env heapSize s₀ cs₀ s cs → (apiLts env heapSize).step s op = some s' →
      s'.log = events ++ s.log → Makes env s.world cs op events cs' →
      Follows env heapSize s₀ cs₀ s' cs'

/-- A record as it was given to a write, with the stamp that it got. -/
structure Writing where
  proc : ObjId
  data : Mem
  stamp : Timestamp

/-- The records committed to an object since its insert, newest first. -/
def writings (oid : ObjId) : List ApiEvent → List Writing
  | [] => []
  | .inserted oid' :: es => if oid' = oid then [] else writings oid es
  | .committed oid' proc data stamp :: es =>
      if oid' = oid then ⟨proc, data, stamp⟩ :: writings oid es else writings oid es

/-- The archive has of every object the records that the log says. -/
def Tells (log : List ApiEvent) (cs : List Archived) : Prop :=
  ∀ oid o, Archive.lookup oid cs = some o →
    o.records.Forall₂ (fun c e => IsCommitOf c e.proc e.data e.stamp) (writings oid log)

/-- The database answers what the archive does. `oid` 0 is the mark of a free slot. -/
structure Reflects [Rounding] (db : Db) (cs : List Archived) : Prop where
  /-- the metadata -/
  info : ∀ oid, oid ≠ 0 →
    (db.findmetaById oid).map (fun i => (db.objmeta i).shown) =
      (Archive.lookup oid cs).map (·.info)
  /-- the objects that a search finds, each once -/
  found : ∀ test otype parentOid procOid ts includedeleted,
    (searchTable db test otype parentOid procOid ts 0 includedeleted).Nodup ∧
      ∀ oid, oid ∈ searchTable db test otype parentOid procOid ts 0 includedeleted ↔
        ∃ o, Archive.lookup oid cs = some o ∧
          o.info.matches test otype parentOid procOid ts includedeleted = true
  /-- a copying read -/
  copied : ∀ h mode oid ts buf size now fuel o, Archive.lookup oid cs = some o →
    o.info.historySize.toNat ≤ fuel →
    readdataMode db h mode oid ts buf size now fuel = some (Stored.read o h mode ts buf size now)
  /-- a read that returns a pointer -/
  pointed : ∀ h mode oid ts fuel o, Archive.lookup oid cs = some o →
    o.info.historySize.toNat ≤ fuel →
    match Stored.select o h mode ts with
    | .error e => readdataModePtr db h mode oid ts fuel = some (.error e)
    | .ok c => ∃ addr, readdataModePtr db h mode oid ts fuel = some (.ok (addr, c.size)) ∧
        HoldsRecord (db.heap.window addr) c
  /-- a write -/
  written : ∀ h oid data ts o, Archive.lookup oid cs = some o →
    (writedata db h oid data ts).ret = Stored.write o h data ts
  /-- reads and writes of an object that is not there -/
  missing : ∀ oid, oid ≠ 0 → Archive.lookup oid cs = none → ∀ h,
    (∀ mode ts buf size now fuel,
      readdataMode db h mode oid ts buf size now fuel =
        some { ret := .error .notFound, buf := buf }) ∧
    (∀ mode ts fuel, readdataModePtr db h mode oid ts fuel = some (.error .notFound)) ∧
    ∀ data ts, (writedata db h oid data ts).ret = .error .notFound

variable {env : Env} {limit heapSize : Int} {h : Handle} {w w' w₁ : World} {s s' s₀ : RunState}
  {op : Op} {cs cs' cs₀ : List Archived} {objmeta : Nat → ObjInfo} {heap : Heap} {oid : ObjId}
  {i : Nat} {o : Stored} {imm : ObjId → Prop} {metadata : ObjInfo}

/-! ## The answers -/

theorem Shows.find (hs : Shows objmeta heap cs) {db : Db} (hdb : db.objmeta = objmeta)
    (hlook : Archive.lookup oid cs = some o) :
    ∃ i, db.findmetaById oid = some i ∧ ShownBy heap (objmeta i) o := by
  subst hdb
  obtain ⟨hne, i, hi⟩ := hs.slot oid o hlook
  cases hfound : db.findmetaById oid with
  | none => exact absurd hi (Db.findmetaById_none hs.oids.bound hne hfound i)
  | some j =>
      obtain ⟨-, hj⟩ := Db.findmetaById_some hfound
      refine ⟨j, rfl, hs.lookup_slot (by rwa [hj]) ?_⟩
      rwa [hj]

theorem Shows.find_none {db : Db} (hs : Shows db.objmeta heap cs) (hoid : oid ≠ 0)
    (hlook : Archive.lookup oid cs = none) : db.findmetaById oid = none := by
  cases hfound : db.findmetaById oid with
  | none => rfl
  | some i =>
      obtain ⟨-, hi⟩ := Db.findmetaById_some hfound
      obtain ⟨o, hlook', -⟩ := hs.stored i (by rwa [hi])
      rw [hi, hlook] at hlook'
      cases hlook'

/-- What a search finds are the oids of the slots that match. -/
theorem searchTable_eq_map (db : Db) (test : NameTest) (otype parentOid procOid : Int)
    (ts : Timestamp) (includedeleted : Bool) :
    searchTable db test otype parentOid procOid ts 0 includedeleted =
      ((List.range objMax).filter fun i =>
        (db.objmeta i).matches test otype parentOid procOid ts includedeleted).map
          fun i => (db.objmeta i).oid := by
  unfold searchTable
  rw [if_neg (by decide), List.filter_map, List.map_map]
  rfl

theorem oid_of_matches {info : ObjInfo} {test : NameTest} {otype parentOid procOid : Int}
    {ts : Timestamp} {includedeleted : Bool}
    (hmatch : info.matches test otype parentOid procOid ts includedeleted = true) :
    info.oid ≠ 0 := by
  intro h0
  simp [ObjInfo.matches, h0] at hmatch

theorem Shows.reflects [Rounding] {db : Db}
    (hs : Shows db.objmeta db.heap cs) : Reflects db cs where
  info oid hoid := by
    cases hlook : Archive.lookup oid cs with
    | none => rw [hs.find_none hoid hlook]; rfl
    | some o =>
        obtain ⟨i, hfound, hshown⟩ := hs.find rfl hlook
        rw [hfound, Option.map_some, Option.map_some, hshown.shown]
  found test otype parentOid procOid ts includedeleted := by
    rw [searchTable_eq_map]
    refine ⟨List.Nodup.map_on (fun i hi j _ heq => ?_) (List.nodup_range.filter _),
      fun oid => ⟨fun hmem => ?_, ?_⟩⟩
    · exact hs.oids.unique i j (oid_of_matches (List.mem_filter.mp hi).2) heq
    · obtain ⟨i, hi, rfl⟩ := List.mem_map.mp hmem
      have hmatch := (List.mem_filter.mp hi).2
      obtain ⟨o, hlook, hshown⟩ := hs.stored i (oid_of_matches hmatch)
      exact ⟨o, hlook, by rw [hshown.shown]; exact hmatch⟩
    · rintro ⟨o, hlook, hmatch⟩
      obtain ⟨i, hfound, hshown⟩ := hs.find rfl hlook
      obtain ⟨hi, hoid⟩ := Db.findmetaById_some hfound
      rw [hshown.shown] at hmatch
      exact List.mem_map.mpr ⟨i, List.mem_filter.mpr ⟨List.mem_range.mpr hi, hmatch⟩, hoid⟩
  copied h mode oid ts buf size now fuel o hlook hfuel := by
    obtain ⟨i, hfound, hshown⟩ := hs.find rfl hlook
    exact readdataMode_stored hfound hshown hfuel h mode ts buf size now
  pointed h mode oid ts fuel o hlook hfuel := by
    obtain ⟨i, hfound, hshown⟩ := hs.find rfl hlook
    exact readdataModePtr_stored hfound hshown hfuel h mode ts
  written h oid data ts o hlook := by
    obtain ⟨i, hfound, hshown⟩ := hs.find rfl hlook
    exact writedata_stored hfound hshown h data ts
  missing oid hoid hlook h := by
    have hnone := hs.find_none hoid hlook
    refine ⟨fun mode ts buf size now fuel => ?_, fun mode ts fuel => ?_, fun data ts => ?_⟩
    · rw [readdataMode, select, hnone]
      rfl
    · rw [readdataModePtr, select, hnone]
      rfl
    · rw [writedata, hnone]

/-! ## Deletes, purges and changes -/

def ShowsWorld (w : World) (cs : List Archived) : Prop := Shows w.db.objmeta w.db.heap cs

/-- What a delete does to the table is what it may make of the archive. -/
theorem keepsTimed_clears [Rounding] :
    KeepsTimed env True imm fun w => ∃ cs', Clears env imm cs cs' ∧ ShowsWorld w cs' where
  idle w w' := by
    rintro ⟨cs', hclears, hs⟩ hdb - -
    refine ⟨cs', hclears, ?_⟩
    unfold ShowsWorld
    rwa [hdb]
  mark w i k proc := by
    rintro ⟨cs', hclears, hs⟩ hocc hmark
    obtain ⟨o, hlook, hshown⟩ := hs.stored i (hocc trivial)
    have hmark : o.info.deletedTs = 0 ∨ o.info.Immediate imm := by
      rw [hshown.shown]
      exact hmark
    exact ⟨.alter (w.db.objmeta i).oid (ObjInfo.marked proc (env.now k)) :: cs',
      .mark hclears hlook hmark, hs.alter (hocc trivial) ⟨rfl, rfl, rfl, rfl, rfl⟩ rfl⟩
  purge w i := by
    rintro ⟨cs', hclears, hs⟩ hocc hdue
    obtain ⟨o, hlook, hshown⟩ := hs.stored i (hocc trivial)
    refine ⟨_, .remove hclears hlook ?_, ?_⟩
    · rw [hshown.shown]
      rcases hdue with himm | ⟨k, -, keep, hdue⟩
      · exact Or.inr himm
      · simp only [Db.purgeDue, Bool.and_eq_true, decide_eq_true_eq] at hdue
        exact Or.inl hdue.1.1.2
    · unfold ShowsWorld
      rw [purged_objmeta, purged_heap]
      exact hs.drop (hocc trivial) rfl

theorem Shows.dropSlots {db : Db} (hs : Shows db.objmeta heap cs) {slots : List Nat}
    (hnodup : slots.Nodup) (hocc : ∀ i ∈ slots, (db.objmeta i).oid ≠ 0) :
    Shows (db.withoutSlots slots).objmeta heap
      ((slots.map fun i => (db.objmeta i).oid).map .drop ++ cs) := by
  induction slots with
  | nil => exact hs
  | cons i slots ih =>
      obtain ⟨hi, hnodup⟩ := List.nodup_cons.mp hnodup
      have hrest := ih hnodup fun j hj => hocc j (List.mem_cons_of_mem i hj)
      have hself : (db.withoutSlots slots).objmeta i = db.objmeta i := withoutSlots_of_not_mem hi
      have hcons : (db.withoutSlots (i :: slots)).objmeta =
          Function.update (db.withoutSlots slots).objmeta i { db.objmeta i with oid := 0 } := by
        funext j
        by_cases hji : j = i
        · rw [hji, Function.update_self, withoutSlots_of_mem List.mem_cons_self]
        · rw [Function.update_of_ne hji]
          by_cases hj : j ∈ slots
          · rw [withoutSlots_of_mem hj, withoutSlots_of_mem (List.mem_cons_of_mem i hj)]
          · rw [withoutSlots_of_not_mem hj, withoutSlots_of_not_mem (by simp [hji, hj])]
      rw [hcons, List.map_cons, List.map_cons, List.cons_append]
      rw [← hself]
      exact hrest.drop (by rw [hself]; exact hocc i List.mem_cons_self) rfl

theorem makes_purge [Rounding] {r : Result} (hs : ShowsWorld w cs)
    (hrun : purgeObjs env.atomic w = some (r, w')) :
    ∃ cs', Makes env w cs .purgeObjs [] cs' ∧ ShowsWorld w' cs' := by
  have hsteps : Steps env w w' := Steps.keepsEffects.purgeObjs w r w' .refl hrun
  have hheap : w'.db.heap = w.db.heap :=
    hsteps.invariant (I := fun w' => w'.db.heap = w.db.heap)
      (fun _ _ h he => (heap_effect he).trans h) rfl
  obtain ⟨w₁, hrun', hpurged⟩ := purgeObjs_run env w
  rw [hrun] at hrun'
  cases hrun'
  have hdb : (w.ask.lock env.atomic).db = w.db := atomic_lock_db w.ask
  have hobj : w₁.db.objmeta =
      (w.db.withoutSlots (w.db.expiredSlots (env.now w.tick))).objmeta := by
    rw [hpurged.objmeta, hdb]
  have hdue {i : Nat} : i ∈ w.db.expiredSlots (env.now w.tick) ↔ i < objMax ∧
      w.db.purgeDue (w.db.objmeta i) (decide (w.db.percentFree < purgeKeepallocPercfree))
        (env.now w.tick) = true := by
    rw [Db.expiredSlots, List.mem_filter, List.mem_range]
  have hnodup : (w.db.expiredSlots (env.now w.tick)).Nodup := List.nodup_range.filter _
  have hdrop := Shows.dropSlots hs hnodup fun i hi => oid_of_purgeDue (hdue.mp hi).2
  refine ⟨((w.db.expiredSlots (env.now w.tick)).map fun i => (w.db.objmeta i).oid).map .drop ++ cs,
    .purge fun oid => ⟨fun hmem => ?_, ?_⟩, ?_⟩
  · obtain ⟨i, hi, rfl⟩ := List.mem_map.mp hmem
    have hdue := (hdue.mp hi).2
    obtain ⟨o, hlook, hshown⟩ := hs.stored i (oid_of_purgeDue hdue)
    exact ⟨o, hlook, by rw [hshown.shown]; exact hdue⟩
  · rintro ⟨o, hlook, hexpired⟩
    obtain ⟨i, hfound, hshown⟩ := hs.find rfl hlook
    obtain ⟨hi, hoid⟩ := Db.findmetaById_some hfound
    rw [hshown.shown] at hexpired
    exact List.mem_map.mpr ⟨i, hdue.mpr ⟨hi, hexpired⟩, hoid⟩
  · unfold ShowsWorld
    rw [hheap, show w₁.unlock.db.objmeta = _ from hobj]
    exact hdrop

/-- `changeinfo` changes the metadata of one object, or nothing. -/
theorem changeinfo_some {r : Result}
    (hrun : changeinfo env.atomic h oid metadata w = some (r, w')) :
    w'.db = w.db ∨ ∃ i, h.admin = true ∧ w.db.findmetaById oid = some i ∧
      w'.db = w.db.setMeta i ((w.db.objmeta i).change metadata) := by
  unfold changeinfo at hrun
  by_cases hadmin : h.admin = true
  · rw [if_pos hadmin] at hrun
    obtain ⟨_, _, hnow, hrun⟩ := bind_some.mp hrun
    cases hnow
    obtain ⟨_, _, hlock, hrun⟩ := bind_some.mp hrun
    cases hlock
    obtain ⟨_, _, hdb, hrun⟩ := bind_some.mp hrun
    cases hdb
    have hdb : (w.ask.lock env.atomic).db = w.db := atomic_lock_db w.ask
    rw [hdb] at hrun
    cases hfound : w.db.findmetaById oid with
    | none =>
        rw [hfound] at hrun
        cases hrun
        exact Or.inl hdb
    | some i =>
        rw [hfound] at hrun
        cases hrun
        refine Or.inr ⟨i, hadmin, rfl, ?_⟩
        show (w.ask.lock env.atomic).db.setMeta i _ = _
        rw [hdb]
  · rw [if_neg hadmin] at hrun
    cases hrun
    exact Or.inl rfl

theorem makes_change [Rounding] {r : Result} (hs : ShowsWorld w cs)
    (hrun : changeinfo env.atomic h oid metadata w = some (r, w')) :
    ∃ cs', Makes env w cs (.changeinfo h oid metadata) [] cs' ∧ ShowsWorld w' cs' := by
  rcases changeinfo_some hrun with hdb | ⟨i, hadmin, hfound, hdb⟩
  · refine ⟨cs, .nothing _, ?_⟩
    unfold ShowsWorld
    rwa [hdb]
  · obtain ⟨-, rfl⟩ := Db.findmetaById_some hfound
    unfold ShowsWorld
    rw [hdb]
    by_cases hocc : (w.db.objmeta i).oid = 0
    · exact ⟨cs, .nothing _, hs.idle hocc hocc⟩
    · obtain ⟨o, hlook, -⟩ := hs.stored i hocc
      exact ⟨_, .change hadmin hlook, hs.alter hocc ⟨rfl, rfl, rfl, rfl, rfl⟩ rfl⟩

/-! ## Writes -/

theorem makes_write [Rounding] {data : Mem} {ts : Timestamp} {out : WriteOut}
    (ho : OwnedWorld limit w)
    (hs : ShowsWorld w cs) (hoid : oid ≠ 0) (hout : out = writedata w.db h oid data ts)
    (hstamp : out.ret = .ok 0 → 2 ^ 32 ≤ (out.data.read64 0).toInt ∧
      ∀ o, Archive.lookup oid cs = some o →
        ∀ d ∈ o.records, d.stamp.toInt < (out.data.read64 0).toInt) :
    ∃ cs', Makes env w cs (.writedata h oid data)
        (writeEvents h oid data (out.data.read64 0) out.ret) cs' ∧
      ShowsWorld { w.ask with db := out.db } cs' := by
  rcases writedata_commit hout with
    ⟨e, hret, hdb⟩ | ⟨i, c, hfound, hidx, hof, hsrc, hsize, hret, hdb⟩
  · rw [hret]
    refine ⟨cs, .nothing _, ?_⟩
    unfold ShowsWorld
    rw [hdb]
    exact hs
  · obtain ⟨hmin, hlater⟩ := hstamp hret
    obtain ⟨-, rfl⟩ := Db.findmetaById_some hfound
    obtain ⟨o, hlook, -⟩ := hs.stored i hoid
    have hbytes := hof.2.2
    rw [hret, ← hof.1] at *
    refine ⟨_, .add hlook hof, ?_⟩
    unfold ShowsWorld
    rw [hdb]
    exact Shows.add hs hoid hidx hbytes hsrc hsize hmin hlater fun j hji hj =>
      ho.live.apart_of_idx_ne (ho.mem j hj) (ho.mem i ⟨hoid, hidx⟩)
        (ho.excl j i hji hj ⟨hoid, hidx⟩)

/-! ## Inserts -/

section Insert

variable {ts : Timestamp} {m m' : ObjInfo} {foundSlot : Option Nat} {newIdx : Int}
  {r : Result × ObjInfo} {log : List ApiEvent}

/-- The slot is free, or has a deleted object of the process that is kept for reuse. -/
def Takeable (h : Handle) (info : ObjInfo) : Prop :=
  info.oid ≠ 0 → info.deletedTs ≠ 0 ∧ info.createdProc = h.procOid ∧ info.flags.keepAlloc = true

theorem takeable_free (hfound : w.db.findmetaById 0 = some i) : Takeable h (w.db.objmeta i) :=
  fun hocc => absurd (Db.findmetaById_some hfound).2 hocc

theorem shows_allocated {size idx : Int} (ho : OwnedWorld limit w) (hs : ShowsWorld w cs)
    (hf : AllocSound limit env.alloc) (hpos : 0 < size)
    (halloc : env.alloc w.heapLog size = some idx) :
    ShowsWorld ((w.unlock.allocated idx size).lock env.atomic) cs := by
  obtain ⟨-, -, hapart⟩ := hf _ _ _ ho.live.legit hpos halloc
  show Shows w.db.objmeta (w.db.heap.put idx Mem.zero size.toNat) cs
  refine Shows.agree hs fun i hi a h1 h2 => ?_
  have hb := hapart _ (ho.mem i hi)
  unfold HeapBlock.Apart at hb
  simp only [ObjInfo.heapBlock] at hb
  exact Heap.put_outside (by omega)

/-- The search for a slot changes nothing that is shown, and what it finds may be taken. -/
theorem shows_slotSearch [Rounding] (ho : OwnedWorld limit w) (hs : ShowsWorld w cs)
    (hf : AllocSound limit env.alloc)
    (hsearch : SlotSearch env.atomic h ts m w foundSlot newIdx m' w₁) :
    ShowsWorld w₁ cs ∧ (∀ i, foundSlot = some i → Takeable h (w₁.db.objmeta i)) ∧
      (m.bufferIdx = 0 → ∃ idx, m' = { m with bufferIdx := idx }) := by
  cases hsearch with
  | @reuse i hi =>
      refine ⟨hs, fun j hj _ => ?_, fun _ => ⟨_, rfl⟩⟩
      cases hj
      have hr := List.find?_some hi
      simp only [Db.reusable, Bool.and_eq_true, decide_eq_true_eq] at hr
      exact ⟨hr.1.1.1.1.2, hr.1.1.1.2, hr.1.1.2⟩
  | dataless hnone h0 hi =>
      exact ⟨hs, fun j hj => Option.some.inj hj ▸ takeable_free hi, fun hidx => ⟨0, by rw [← hidx]⟩⟩
  | noSlotDataless hnone h0 hi =>
      exact ⟨hs, fun _ hj => (by cases hj), fun hidx => ⟨0, by rw [← hidx]⟩⟩
  | noBlock hnone h0 hneg halloc =>
      rw [show w.unlock.afterAlloc env.atomic m.blockSize = w.unlock from
        afterAlloc_of_fails hf ho.live.legit halloc]
      exact ⟨hs, fun _ hj => (by cases hj), fun hidx => ⟨0, by rw [← hidx]⟩⟩
  | block hnone h0 hpos halloc hge hw hi =>
      subst hw
      exact ⟨shows_allocated ho hs hf hpos halloc,
        fun j hj => Option.some.inj hj ▸ takeable_free hi, fun _ => ⟨_, rfl⟩⟩
  | noSlot hnone h0 hpos halloc hge hw hi =>
      subst hw
      exact ⟨shows_allocated ho hs hf hpos halloc, fun _ hj => (by cases hj), fun _ => ⟨_, rfl⟩⟩

/-- The new metadata take the slot; its object, if there was one, leaves the archive. -/
theorem Shows.vacate (hs : Shows objmeta heap cs) (htake : Takeable h (objmeta i))
    (h0 : m.oid = 0) :
    ∃ cs', Reuses h cs cs' ∧ Shows (Function.update objmeta i m) heap cs' := by
  by_cases hocc : (objmeta i).oid = 0
  · exact ⟨cs, .none, hs.idle hocc h0⟩
  · obtain ⟨o, hlook, hshown⟩ := hs.stored i hocc
    obtain ⟨hdel, hproc, hkeep⟩ := htake hocc
    refine ⟨_, .drop hlook ?_ ?_ ?_, hs.drop hocc h0⟩ <;> rw [hshown.shown]
    · exact hdel
    · exact hproc
    · exact hkeep

/-- The ring of an object that has just been inserted is empty. -/
theorem historyRing_entered {n : Nat} (oid : ObjId) (hb : Block m n) (hslot : m.historySlot = -1)
    (hlast : Stampless heap m (n - 1 : Nat)) :
    HistoryRing heap { m.withParent oid with oid := oid } n [] := by
  unfold ObjInfo.withParent
  split
  · exact .empty ⟨hb.historySize, hb.pos, hb.sizeMin, hb.idx, hb.bound⟩ hslot hlast
  · exact .empty ⟨hb.historySize, hb.pos, hb.sizeMin, hb.idx, hb.bound⟩ hslot hlast

theorem withParent_bufferIdx (m : ObjInfo) (oid idx : Int) :
    ({ ({ m with bufferIdx := idx } : ObjInfo).withParent oid with oid := oid } : ObjInfo) =
      { m.withParent oid with oid := oid, bufferIdx := idx } := by
  unfold ObjInfo.withParent
  dsimp only
  split <;> rfl

theorem makes_finish [Rounding] {w₀ : World} {idx : Int} (hs : ShowsWorld w cs)
    (htake : ∀ i, foundSlot = some i → Takeable h (w.db.objmeta i))
    (hr : Ready w foundSlot m log)
    (hm : m = { initMetadata env h (env.now w₀.tick) metadata with bufferIdx := idx })
    (hfin : Finish newIdx m w foundSlot r w') :
    ∃ cs', Makes env w₀ cs (.insert h metadata) (insertEvents r.1) cs' ∧ ShowsWorld w' cs' := by
  cases hfin with
  | notUniq hu =>
      refine ⟨cs, .nothing _, ?_⟩
      unfold ShowsWorld
      rw [release_objmeta, release_heap]
      exact hs
  | noSlot hu => exact ⟨cs, .nothing _, hs⟩
  | @noOid i hu hle =>
      obtain ⟨cs', hreuse, hs'⟩ := Shows.vacate hs (htake i rfl) hr.oid
      refine ⟨cs', .noOid hreuse, ?_⟩
      show Shows ((w.write (·.setMeta i m)).oidTaken.release m.bufferIdx m).db.objmeta
        ((w.write (·.setMeta i m)).oidTaken.release m.bufferIdx m).db.heap cs'
      rw [release_objmeta, release_heap]
      exact hs'
  | @entered i oid hu hnext hpos =>
      obtain ⟨cs', hreuse, hs'⟩ := Shows.vacate hs (htake i rfl) hr.oid
      have hne : oid ≠ 0 := Int.ne_of_gt hpos
      have hnew : ∀ j, (Function.update w.db.objmeta i m j).oid ≠ oid := by
        intro j
        by_cases hji : j = i
        · rw [hji, Function.update_self, hr.oid]
          exact hne.symm
        · rw [Function.update_of_ne hji]
          exact Db.findmetaById_none hs.oids.bound hne (hnext ▸ hr.newOid) j
      have hring : ({ m.withParent oid with oid := oid } : ObjInfo).bufferIdx ≠ 0 →
          ∃ n, HistoryRing w.db.heap { m.withParent oid with oid := oid } n [] := by
        intro hidx
        have hidx : m.bufferIdx ≠ 0 := fun h0 =>
          hidx ((congrArg HeapBlock.idx (heapBlock_withParent m oid)).trans h0)
        obtain ⟨n, hb, hlast⟩ := hr.ring hidx
        exact ⟨n, historyRing_entered oid hb hr.historySlot hlast⟩
      have henter := hs'.enter (hr.slot i rfl) (by rw [Function.update_self]; exact hr.oid) hne
        hnew hring
      rw [Function.update_idem] at henter
      have hinfo : ({ m.withParent oid with oid := oid } : ObjInfo) =
          { (initMetadata env h (env.now w₀.tick) metadata).withParent oid with
            oid := oid, bufferIdx := idx } := by rw [hm, withParent_bufferIdx]
      refine ⟨.enter oid (ObjInfo.shown { m.withParent oid with oid := oid }) :: cs',
        .enter hreuse (hs'.lookup_none hnew) hpos hinfo, ?_⟩
      show Shows (Function.update (Function.update w.db.objmeta i m) i _) w.db.heap _
      rw [Function.update_idem]
      exact henter

theorem makes_insert [Rounding] (ho : OwnedWorld limit w) (hl : LivedWorld w log)
    (hs : ShowsWorld w cs) (hf : AllocSound limit env.alloc) (hlimit : limit < 2 ^ 31)
    (hsafe : metadata.refused = false → SafeInsert env h metadata w)
    (hrun : insert env.atomic h metadata w = some (r, w')) :
    ∃ cs', Makes env w cs (.insert h metadata) (insertEvents r.1) cs' ∧ ShowsWorld w' cs' := by
  rcases insert_some hrun with ⟨-, rfl, rfl⟩ | ⟨href, foundSlot, newIdx, m', w₁, hsearch, hfin⟩
  · exact ⟨cs, .nothing _, hs⟩
  · have hsafe := hsafe href
    have hdb : (w.ask.lock env.atomic).db = w.db := atomic_lock_db w.ask
    have ho' : OwnedWorld limit (w.ask.lock env.atomic) := by
      unfold OwnedWorld
      rw [hdb, atomic_lock_heapLog]
      exact ho
    have hl' : LivedWorld (w.ask.lock env.atomic) log := by
      unfold LivedWorld
      rw [hdb]
      exact hl
    have hs' : ShowsWorld (w.ask.lock env.atomic) cs := by
      unfold ShowsWorld
      rw [hdb]
      exact hs
    have hready := ready_of_slotSearch ho' hl' hf hlimit rfl rfl rfl
      (sizeMax_initMetadata href hsafe.sizeMax) hsafe.fits (hdb ▸ hsafe.clean)
      (hdb ▸ hsafe.newOid) hsearch
    obtain ⟨hs₁, htake, hm⟩ := shows_slotSearch ho' hs' hf hsearch
    obtain ⟨idx, hm⟩ := hm rfl
    exact makes_finish hs₁ htake hready hm hfin

end Insert

/-! ## The records and the log -/

section Log

variable {log events : List ApiEvent}

theorem Tells.drop (ht : Tells log cs) (oid : ObjId) : Tells log (.drop oid :: cs) := by
  intro oid' o hlook
  by_cases hk : oid = oid'
  · subst hk
    cases hlook.symm.trans Archive.lookup_cons_self
  · rw [Archive.lookup_cons_of_ne (by exact hk)] at hlook
    exact ht oid' o hlook

theorem Tells.drops (ht : Tells log cs) (oids : List ObjId) :
    Tells log (oids.map .drop ++ cs) := by
  induction oids with
  | nil => exact ht
  | cons oid oids ih => exact ih.drop oid

theorem Tells.alter (ht : Tells log cs) (oid : ObjId) (f : ObjInfo → ObjInfo) :
    Tells log (.alter oid f :: cs) := by
  intro oid' o hlook
  by_cases hk : oid = oid'
  · subst hk
    obtain ⟨o', hlook', rfl⟩ :=
      Option.map_eq_some_iff.mp (Archive.lookup_cons_self.symm.trans hlook)
    exact ht oid o' hlook'
  · rw [Archive.lookup_cons_of_ne (by exact hk)] at hlook
    exact ht oid' o hlook

theorem Tells.clears (ht : Tells log cs) (hclears : Clears env imm cs cs') : Tells log cs' := by
  induction hclears with
  | refl => exact ht
  | mark _ _ _ ih => exact ih.alter _ _
  | remove _ _ _ ih => exact ih.drop _

theorem Tells.reuses (ht : Tells log cs) (hreuse : Reuses h cs cs') : Tells log cs' := by
  cases hreuse with
  | none => exact ht
  | drop => exact ht.drop _

/-- What a call adds to the archive it adds to the log. -/
theorem Tells.makes [Rounding] (ht : Tells log cs) (hm : Makes env w cs op events cs') :
    Tells (events ++ log) cs' := by
  cases hm with
  | nothing => exact ht
  | @enter h metadata oid idx cs' info hreuse hnone hpos hinfo =>
      intro oid' o hlook
      by_cases hk : oid = oid'
      · subst hk
        obtain rfl := Option.some.inj (Archive.lookup_cons_self.symm.trans hlook)
        show List.Forall₂ _ [] (if oid = oid then [] else _)
        rw [if_pos rfl]
        exact .nil
      · rw [Archive.lookup_cons_of_ne (by exact hk)] at hlook
        show List.Forall₂ _ _ (if oid = oid' then [] else _)
        rw [if_neg hk]
        exact ht.reuses hreuse oid' o hlook
  | noOid hreuse => exact ht.reuses hreuse
  | @add h oid data c o' hlook' hc =>
      intro oid' o hlook
      by_cases hk : oid = oid'
      · subst hk
        obtain ⟨o₁, hlook₁, rfl⟩ :=
          Option.map_eq_some_iff.mp (Archive.lookup_cons_self.symm.trans hlook)
        show List.Forall₂ _ _ (if oid = oid then _ else _)
        rw [if_pos rfl]
        exact .cons hc (ht oid o₁ hlook₁)
      · rw [Archive.lookup_cons_of_ne (by exact hk)] at hlook
        show List.Forall₂ _ _ (if oid = oid' then _ else _)
        rw [if_neg hk]
        exact ht oid' o hlook
  | delete hclears => exact ht.clears hclears
  | purge => exact ht.drops _
  | change => exact ht.alter _ _

end Log

/-! ## Runs -/

/-- A commit's stamp is a time later than those of the object's records. -/
def StampLater [Rounding] (env : Env) (s : RunState) : Op → Prop
  | .writedata h oid data =>
      (writedata s.world.db h oid data (env.now s.world.tick)).ret = .ok 0 →
        2 ^ 32 ≤ ((writedata s.world.db h oid data (env.now s.world.tick)).data.read64 0).toInt ∧
        ∀ e ∈ writings oid s.log, e.stamp.toInt <
          ((writedata s.world.db h oid data (env.now s.world.tick)).data.read64 0).toInt
  | _ => True

/-- A step's condition, with those that keep the objects' lives apart. -/
def ArchiveGuard [Rounding] (env : Env) (s : RunState) (op : Op) : Prop :=
  LifeGuard env s op ∧ StampLater env s op

instance [Rounding] (s : RunState) : DecidablePred (StampLater env s)
  | .writedata _ _ _ => inferInstanceAs (Decidable (_ → _))
  | .insert .. | .deleteImm .. | .purgeObjs | .changeinfo .. => isTrue trivial

instance [Rounding] (s : RunState) : DecidablePred (ArchiveGuard env s) := fun op =>
  inferInstanceAs (Decidable (LifeGuard env s op ∧ StampLater env s op))

structure Archives (limit : Int) (s : RunState) (cs : List Archived) : Prop where
  owned : OwnedWorld limit s.world
  lived : LivedWorld s.world s.log
  shows : ShowsWorld s.world cs
  tells : Tells s.log cs

theorem Tells.stamps {log : List ApiEvent} (ht : Tells log cs)
    (hlook : Archive.lookup oid cs = some o) :
    o.records.map (·.stamp) = (writings oid log).map (·.stamp) := by
  have hall := ht oid o hlook
  generalize o.records = rs at hall
  generalize writings oid log = es at hall
  induction hall with
  | nil => rfl
  | cons hof _ ih => rw [List.map_cons, List.map_cons, hof.1, ih]

theorem makes_op [Rounding] {events : List ApiEvent} (hf : AllocSound limit env.alloc)
    (hlimit : limit < 2 ^ 31) (ha : Archives limit s cs) (hg : ArchiveGuard env s op)
    (hrun : op.run env.atomic s.world = some (events, w')) :
    ∃ cs', Makes env s.world cs op events cs' ∧ ShowsWorld w' cs' := by
  obtain ⟨ho, hl, hshows, htells⟩ := ha
  obtain ⟨⟨⟨hoid, -⟩, hkeep⟩, hstamp⟩ := hg
  cases op with
  | insert h metadata =>
      obtain ⟨r, w₁, hins, hend⟩ := bind_some.mp hrun
      cases hend
      exact makes_insert ho hl hshows hf hlimit hkeep hins
  | deleteImm h metadata immediatelyDelete fuel =>
      obtain ⟨r, w₁, hdel, hend⟩ := bind_some.mp hrun
      cases hend
      have hkeeps : KeepsTimed env True (fun oid => immediatelyDelete = true ∧ oid = metadata.oid)
          fun w => ∃ cs',
            Clears env (fun oid => immediatelyDelete = true ∧ oid = metadata.oid) cs cs' ∧
              ShowsWorld w cs' := keepsTimed_clears
      obtain ⟨cs', hclears, hshows'⟩ := hkeeps.deleteImm fuel (fun _ => hoid)
        (fun himm => ⟨himm, rfl⟩) s.world r w' ⟨cs, .refl, hshows⟩ hdel
      exact ⟨cs', .delete hclears, hshows'⟩
  | purgeObjs =>
      obtain ⟨r, w₁, hpurge, hend⟩ := bind_some.mp hrun
      cases hend
      exact makes_purge hshows hpurge
  | changeinfo h oid metadata =>
      obtain ⟨r, w₁, hchange, hend⟩ := bind_some.mp hrun
      cases hend
      exact makes_change hshows hchange
  | writedata h oid data =>
      obtain ⟨r, w₁, hwrite, hend⟩ := bind_some.mp hrun
      cases hwrite
      cases hend
      refine makes_write ho hshows hkeep rfl fun hret => ?_
      obtain ⟨hmin, hlater⟩ := hstamp hret
      refine ⟨hmin, fun o hlook d hd => ?_⟩
      have hmem : d.stamp ∈ (writings oid s.log).map (·.stamp) := by
        rw [← htells.stamps hlook]
        exact List.mem_map_of_mem hd
      obtain ⟨e, he, hstamp⟩ := List.mem_map.mp hmem
      rw [← hstamp]
      exact hlater e he

theorem archives_step [Rounding] (hf : AllocSound limit env.alloc) (hlimit : limit < 2 ^ 31)
    (ha : Archives limit s cs) (hg : ArchiveGuard env s op)
    (hs : (apiLts env heapSize).step s op = some s') :
    ∃ events cs', s'.log = events ++ s.log ∧ Makes env s.world cs op events cs' ∧
      Archives limit s' cs' := by
  obtain ⟨events, hrun, hlog⟩ := apiLts_step hs
  obtain ⟨cs', hmakes, hshows⟩ := makes_op hf hlimit ha hg hrun
  refine ⟨events, cs', hlog, hmakes, ownedWorld_step hf ha.owned hg.1.1 hs,
    livedWorld_step hf hlimit ha.owned ha.lived hg.1 hs, hshows, ?_⟩
  rw [hlog]
  exact ha.tells.makes hmakes

theorem archives_initial [Rounding] (hf : AllocSound limit env.alloc)
    (hs : (apiLts env heapSize).init s) : Archives limit s [] := by
  obtain rfl := hs
  have hfree := initial_oid env.atomic heapSize
  refine ⟨ownedWorld_initial hf, livedWorld_initial, ?_, fun oid o hlook => by cases hlook⟩
  exact ⟨⟨fun i j hi => absurd (hfree i) hi, fun i hi => absurd (hfree i) hi⟩,
    fun i hi => absurd (hfree i) hi, fun oid o hlook => by cases hlook⟩

theorem exists_follows [Rounding] (hf : AllocSound limit env.alloc) (hlimit : limit < 2 ^ 31)
    (ha : Archives limit s₀ cs₀)
    (h : ((apiLts env heapSize).startingAt s₀).Guarded (ArchiveGuard env) s) :
    ∃ cs, Follows env heapSize s₀ cs₀ s cs ∧ Archives limit s cs := by
  refine h.invariant (I := fun s => ∃ cs, Follows env heapSize s₀ cs₀ s cs ∧ Archives limit s cs)
    ?_ ?_
  · rintro s rfl
    exact ⟨cs₀, .refl, ha⟩
  · rintro s op s' ⟨cs, hfollows, ha⟩ hg hs
    have hs : (apiLts env heapSize).step s op = some s' := hs
    obtain ⟨events, cs', hlog, hmakes, ha'⟩ := archives_step hf hlimit ha hg hs
    exact ⟨cs', .step hfollows hs hlog hmakes, ha'⟩

/-- The database is an archive of histories. In every run in which oids are not used twice at a
time, blocks have the size of their objects, no stamp is left where a scan of a reused block
starts and the stamps of an object increase, the calls make an archive, each of them what it may
(`Makes`), and in the state reached the database answers every search, read and write as the
archive does. -/
theorem reflects_of_guarded [Rounding] (hf : AllocSound limit env.alloc) (hlimit : limit < 2 ^ 31)
    (h : (apiLts env heapSize).Guarded (ArchiveGuard env) s) :
    ∃ s₀ cs, (apiLts env heapSize).init s₀ ∧ Follows env heapSize s₀ [] s cs ∧ Tells s.log cs ∧
      Reflects s.world.db cs := by
  obtain ⟨s₀, hinit, hrun⟩ := h.exists_start
  obtain ⟨cs, hfollows, ha⟩ := exists_follows hf hlimit (archives_initial hf hinit) hrun
  exact ⟨s₀, cs, hinit, hfollows, ha.tells, ha.shows.reflects⟩

/-- Two writes, a deletion that takes effect at once, and a second object with a write of its
own. -/
theorem reflects_of_guarded_deleted :
    ∃ s s₀ cs, s.log.length = 5 ∧ Follows (exampleEnv 4096) 4096 s₀ [] s cs ∧ Tells s.log cs ∧
      Reflects s.world.db cs := by
  obtain ⟨s, hr, hlen⟩ := (apiLts (exampleEnv 4096) 4096).exists_of_execGuarded
    (G := ArchiveGuard (exampleEnv 4096))
    (g := fun s op => decide (ArchiveGuard (exampleEnv 4096) s op)) (fun _ _ => of_decide_eq_true)
    [.insert aProcess anObject, .writedata aProcess 1 aRecord, .writedata aProcess 1 aRecord,
      .deleteImm aProcess { anObject with oid := 1 } true 2, .insert aProcess anObject,
      .writedata aProcess 2 aRecord]
    (fun s => decide (s.log.length = 5))
    (s := ⟨World.initial (exampleEnv 4096).atomic 4096, []⟩) rfl (by decide +kernel)
  obtain ⟨s₀, cs, -, hfollows, htells, hreflects⟩ :=
    reflects_of_guarded (bumpAlloc_sound 4096) (by decide) hr
  exact ⟨s, s₀, cs, of_decide_eq_true hlen, hfollows, htells, hreflects⟩

end KogmoRtdb
