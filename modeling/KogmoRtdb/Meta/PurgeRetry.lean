import KogmoRtdb.Meta.ObjectIds

/-!
# Giving up an insert

When there is no block or no slot, an insert should purge the expired objects and try once more;
so where it gives up, a purge would not have helped. The loop that is meant to do so runs once
(`retryBody_some`), and the insert gives up at its first failure. It does no harm where nothing
is to be had from the expired objects either, which is a matter of the table and the heap
(`PurgeHelps`).
-/

namespace KogmoRtdb

open Prog

variable {env : Env} {h : Handle} {m metadata : ObjInfo} {w w' : World} {r : Result × ObjInfo}
  {limit : Int}

/-- The answers of an insert that found no block, no slot or no oid. -/
def OutOfRoom (res : Result) : Prop := res = .error .noMemory ∨ res = .error .outOfObj

/-! ## When an insert gives up -/

theorem SlotSearch.isSome_iff [Rounding] {ts : Timestamp} {foundSlot : Option Nat} {newIdx : Int}
    {m' : ObjInfo} {w₁ : World} (hs : SlotSearch env.atomic h ts m w foundSlot newIdx m' w₁) :
    foundSlot ≠ none ↔ findReusable w.db h m ts ≠ none ∨ FindsFree env m w := by
  cases hs with
  | reuse hi => simp [hi]
  | dataless hnone h0 hi => simp [FindsFree, h0, hi]
  | noSlotDataless hnone h0 hi => simp [FindsFree, hnone, hi]
  | noBlock hnone h0 hneg halloc =>
      have halloc : allocFails env w.heapLog m.blockSize := halloc
      simp [FindsFree, hnone, h0, halloc]
  | block hnone h0 hpos halloc hge hw hi =>
      subst hw
      have hi' : w.db.findmetaById 0 = some _ := hi
      have hok : ¬ allocFails env w.heapLog m.blockSize := not_allocFails hpos halloc hge
      simp [FindsFree, hi', hok]
  | noSlot hnone h0 hpos halloc hge hw hi =>
      subst hw
      have hi' : w.db.findmetaById 0 = none := hi
      simp [FindsFree, hnone, hi']

theorem insert_outOfRoom_iff [Rounding] (hrun : insert env.atomic h metadata w = some (r, w')) :
    OutOfRoom r.1 ↔
      metadata.refused = false ∧
        w.db.notUniq (initMetadata env h (env.now w.tick) metadata) = false ∧
        ¬ (TakesOid env h metadata w ∧ 0 < w.db.nextOid) := by
  rcases insert_some hrun with ⟨href, rfl, -⟩ | ⟨href, foundSlot, newIdx, m', w₁, hs, hfin⟩
  · simp [OutOfRoom, href]
  have hdb : (w.ask.lock env.atomic).db = w.db := atomic_lock_db w.ask
  have hslot := hs.isSome_iff
  have huniq := hs.notUniq_eq
  have hnext := hs.db_eq.2.1
  rw [findsFree_lock, hdb] at hslot
  rw [hdb] at huniq hnext
  have hnextOid : wrap32 w₁.db.objmetaOidNext = w.db.nextOid :=
    congrArg (fun n : Nat => wrap32 n) hnext
  have htakes : TakesOid env h metadata w ↔ w₁.db.notUniq m' = false ∧ foundSlot ≠ none := by
    rw [huniq, hslot]
    unfold TakesOid
    rw [href]
    exact and_iff_right rfl
  have hinit : initMetadata env.atomic h (env.atomic.now w.tick) metadata =
    initMetadata env h (env.now w.tick) metadata := rfl
  rw [hinit] at huniq
  rw [htakes, href, ← huniq, and_iff_right rfl]
  cases hfin with
  | notUniq hu => simp [OutOfRoom, hu]
  | noSlot hu => simp [OutOfRoom, hu]
  | noOid hu hle =>
      rw [hnextOid] at hle
      simp [OutOfRoom, hu, hle]
  | entered hu hoid hpos =>
      rw [hoid, hnextOid] at hpos
      simp [OutOfRoom, hu, hpos]

/-! ## What a purge leaves -/

/-- The slots of the objects that a purge takes out of the table. -/
def Db.expiredSlots [Rounding] (db : Db) (ts : Timestamp) : List Nat :=
  (List.range objMax).filter fun i =>
    db.purgeDue (db.objmeta i) (decide (db.percentFree < purgeKeepallocPercfree)) ts

def Db.withoutSlots (db : Db) (slots : List Nat) : Db :=
  { db with
    objmeta := fun i =>
      if i ∈ slots then { db.objmeta i with oid := 0 } else db.objmeta i }

def Db.blocksIn (db : Db) (slots : List Nat) : List HeapBlock :=
  (slots.filter fun i => (db.objmeta i).bufferIdx ≠ 0).map fun i =>
    ⟨(db.objmeta i).bufferIdx, (db.objmeta i).blockSize⟩

theorem withoutSlots_of_mem {db : Db} {slots : List Nat} {i : Nat} (hi : i ∈ slots) :
    (db.withoutSlots slots).objmeta i = { db.objmeta i with oid := 0 } := if_pos hi

theorem withoutSlots_of_not_mem {db : Db} {slots : List Nat} {i : Nat} (hi : i ∉ slots) :
    (db.withoutSlots slots).objmeta i = db.objmeta i := if_neg hi

structure PurgedSlots (slots : List Nat) (w w' : World) : Prop where
  objmeta : w'.db.objmeta = (w.db.withoutSlots slots).objmeta
  interval : w'.db.defaultKeepDeletedInterval = w.db.defaultKeepDeletedInterval
  oidNext : w'.db.objmetaOidNext = w.db.objmetaOidNext
  log : w'.heapLog = ((w.db.blocksIn slots).map HeapEvent.free).reverse ++ w.heapLog
  tick : w'.tick = w.tick + slots.length
  held : w'.held = true

theorem PurgedSlots.nil (hheld : w.held = true) : PurgedSlots [] w w where
  objmeta := funext fun _ => (withoutSlots_of_not_mem List.not_mem_nil).symm
  interval := rfl
  oidNext := rfl
  log := rfl
  tick := rfl
  held := hheld

/-- One slot is purged, and the lock released and taken again. -/
theorem PurgedSlots.one (env : Env) (i : Nat) (w : World) :
    PurgedSlots [i] w ((w.purged i).unlock.lock env.atomic) where
  objmeta := by
    have hdb : ((w.purged i).unlock.lock env.atomic).db = (w.purged i).db := rfl
    rw [hdb, purged_objmeta]
    funext j
    by_cases hji : j = i
    · rw [hji, Function.update_self, withoutSlots_of_mem List.mem_cons_self]
    · rw [Function.update_of_ne hji, withoutSlots_of_not_mem (by simpa using hji)]
  interval := by
    show (w.purged i).db.defaultKeepDeletedInterval = _
    unfold World.purged World.release
    split <;> rfl
  oidNext := by
    show (w.purged i).db.objmetaOidNext = _
    unfold World.purged World.release
    split <;> rfl
  log := by
    show (w.purged i).heapLog = _
    rw [purged_heapLog]
    unfold World.release Db.blocksIn
    by_cases hidx : (w.db.objmeta i).bufferIdx = 0
    · simp [hidx]
    · simp [hidx, World.freed]
  tick := by
    show (w.purged i).tick + 1 = _
    unfold World.purged World.release
    split <;> rfl
  held := rfl

theorem PurgedSlots.cons {i : Nat} {slots : List Nat} {w₁ : World}
    (h₁ : PurgedSlots [i] w w₁) (hi : i ∉ slots) (h₂ : PurgedSlots slots w₁ w') :
    PurgedSlots (i :: slots) w w' := by
  have hsame : ∀ j ∈ slots, w₁.db.objmeta j = w.db.objmeta j := by
    intro j hj
    have hji : j ≠ i := fun heq => hi (heq ▸ hj)
    rw [h₁.objmeta, withoutSlots_of_not_mem (by simpa using hji)]
  refine {
    objmeta := ?_
    interval := h₂.interval.trans h₁.interval
    oidNext := h₂.oidNext.trans h₁.oidNext
    log := ?_
    tick := by rw [h₂.tick, h₁.tick, List.length_cons, List.length_cons, List.length_nil]; omega
    held := h₂.held }
  · rw [h₂.objmeta]
    funext j
    by_cases hj : j ∈ slots
    · rw [withoutSlots_of_mem hj, withoutSlots_of_mem (List.mem_cons_of_mem i hj), hsame j hj]
    · rw [withoutSlots_of_not_mem hj, h₁.objmeta]
      by_cases hji : j = i
      · rw [withoutSlots_of_mem (by simp [hji]), withoutSlots_of_mem (by simp [hji])]
      · rw [withoutSlots_of_not_mem (by simp [hji]), withoutSlots_of_not_mem (by simp [hji, hj])]
  · have hblocks : w₁.db.blocksIn slots = w.db.blocksIn slots := by
      unfold Db.blocksIn
      rw [List.filter_congr fun j hj => by rw [hsame j hj]]
      exact List.map_congr_left fun j hj => by rw [hsame j (List.mem_of_mem_filter hj)]
    have hcons : w.db.blocksIn (i :: slots) = w.db.blocksIn [i] ++ w.db.blocksIn slots := by
      unfold Db.blocksIn
      rw [← List.map_append, ← List.filter_append, List.singleton_append]
    rw [h₂.log, hblocks, h₁.log, hcons, List.map_append, List.reverse_append, List.append_assoc]

/-- The loop of a purge takes out the objects that are due, and no others. -/
theorem purgeLoop_run [Rounding] (env : Env) (keep : Bool) (ts : Timestamp) {l : List Nat}
    (hl : l.Nodup) (hheld : w.held = true) :
    ∃ w', l.forM (purgeObjsBody env.atomic keep ts) w = some (⟨⟩, w') ∧
      PurgedSlots (l.filter fun i => w.db.purgeDue (w.db.objmeta i) keep ts) w w' := by
  induction l generalizing w with
  | nil => exact ⟨w, rfl, .nil hheld⟩
  | cons i l ih =>
      obtain ⟨hi, hl⟩ := List.nodup_cons.mp hl
      by_cases hdue : w.db.purgeDue (w.db.objmeta i) keep ts = true
      · have hone := PurgedSlots.one env i w
        obtain ⟨w', hrun, hrest⟩ := ih hl hone.held
        refine ⟨w', bind_some.mpr ⟨⟨⟩, _, ?_, hrun⟩, ?_⟩
        · refine bind_some.mpr ⟨w.db, w, rfl, ?_⟩
          rw [Prog.when_pos hdue]
          exact bind_some.mpr ⟨⟨⟩, _, purgeslot_eq i w, bind_some.mpr ⟨⟨⟩, _, rfl, rfl⟩⟩
        · have hsame : ∀ j ∈ l,
              ((w.purged i).unlock.lock env.atomic).db.purgeDue
                (((w.purged i).unlock.lock env.atomic).db.objmeta j) keep ts =
                w.db.purgeDue (w.db.objmeta j) keep ts := by
            intro j hj
            have hji : j ≠ i := fun heq => hi (heq ▸ hj)
            have hobj : ((w.purged i).unlock.lock env.atomic).db.objmeta j = w.db.objmeta j := by
              rw [hone.objmeta, withoutSlots_of_not_mem (by simpa using hji)]
            rw [hobj]
            unfold Db.purgeDue Db.scanDeleteTs
            rw [hone.interval]
          rw [List.filter_congr hsame] at hrest
          rw [List.filter_cons, if_pos hdue]
          exact hone.cons (fun hmem => hi (List.mem_of_mem_filter hmem)) hrest
      · obtain ⟨w', hrun, hrest⟩ := ih hl hheld
        refine ⟨w', bind_some.mpr ⟨⟨⟩, w, ?_, hrun⟩, ?_⟩
        · refine bind_some.mpr ⟨w.db, w, rfl, ?_⟩
          unfold Prog.when
          rw [if_neg hdue]
          rfl
        · rw [List.filter_cons, if_neg hdue]
          exact hrest

/-- A purge returns and has taken out the expired objects. -/
theorem purgeObjs_run [Rounding] (env : Env) (w : World) :
    ∃ w₁, purgeObjs env.atomic w = some (.ok 0, w₁.unlock) ∧
      PurgedSlots (w.db.expiredSlots (env.now w.tick)) (w.ask.lock env.atomic) w₁ := by
  have hdb : (w.ask.lock env.atomic).db = w.db := atomic_lock_db w.ask
  have hheld : (w.ask.lock env.atomic).held = true := by
    unfold World.lock
    split
    · assumption
    · rfl
  obtain ⟨w₁, hrun, hpurged⟩ := purgeLoop_run env
    (decide (w.db.percentFree < purgeKeepallocPercfree)) (env.now w.tick)
    (List.nodup_range (n := objMax)) hheld
  rw [hdb] at hpurged
  exact ⟨w₁, bind_some.mpr ⟨_, _, rfl, bind_some.mpr ⟨_, _, rfl, bind_some.mpr ⟨⟨⟩, _, rfl,
    bind_some.mpr ⟨⟨⟩, _, hrun, bind_some.mpr ⟨⟨⟩, _, rfl, rfl⟩⟩⟩⟩⟩, hpurged⟩

/-! ## Whether a purge would have helped -/

/-- Where an insert gives up, it also gives up after a purge. -/
def GivesUpRightly [Rounding] (env : Env) (h : Handle) (metadata : ObjInfo) (w : World) : Prop :=
  ∀ r w' p w₁ r' w₂, insert env h metadata w = some (r, w') → OutOfRoom r.1 →
    purgeObjs env w = some (p, w₁) → insert env h metadata w₁ = some (r', w₂) → OutOfRoom r'.1

/-- There is a slot to reuse, or a free slot and room for the data among the blocks. -/
def Provides [Rounding] (limit : Int) (h : Handle) (m : ObjInfo) (ts : Timestamp) (db : Db)
    (blocks : List HeapBlock) : Prop :=
  findReusable db h m ts ≠ none ∨
    (m.sizeMax = 0 ∨ 0 < m.blockSize ∧ HasRoom limit blocks m.blockSize) ∧
      db.findmetaById 0 ≠ none

instance [Rounding] {ts : Timestamp} {db : Db} {blocks : List HeapBlock} :
    Decidable (Provides limit h m ts db blocks) := by
  unfold Provides
  infer_instance

/-- The new object meets no unique one in the table, and there is no slot, no block or no oid
for it; with the expired objects out of the table and their blocks given back, there are all
three, or it meets a unique one. -/
def PurgeMatters [Rounding] (limit : Int) (env : Env) (h : Handle) (metadata : ObjInfo)
    (w : World) : Prop :=
  let ts := env.now w.tick
  let m := initMetadata env h ts metadata
  let slots := w.db.expiredSlots ts
  let db' := w.db.withoutSlots slots
  let blocks' := (liveBlocks w.heapLog).diff (w.db.blocksIn slots)
  let ts' := env.now ((w.ask.lock env).tick + slots.length)
  let m' := initMetadata env h ts' metadata
  metadata.refused = false ∧ w.db.notUniq m = false ∧
    ¬ (Provides limit h m ts w.db (liveBlocks w.heapLog) ∧ 0 < w.db.nextOid) ∧
    (db'.notUniq m' = true ∨ Provides limit h m' ts' db' blocks' ∧ 0 < w.db.nextOid)

instance [Rounding] : Decidable (PurgeMatters limit env h metadata w) := by
  unfold PurgeMatters
  infer_instance

theorem findsFree_iff (hroom : FindsRoom limit env.alloc) :
    FindsFree env m w ↔
      (m.sizeMax = 0 ∨ 0 < m.blockSize ∧ HasRoom limit (liveBlocks w.heapLog) m.blockSize) ∧
        w.db.findmetaById 0 ≠ none := by
  have hfails : ¬ allocFails env w.heapLog m.blockSize ↔
      0 < m.blockSize ∧ HasRoom limit (liveBlocks w.heapLog) m.blockSize := by
    unfold allocFails
    constructor
    · intro hok
      have hpos : 0 < m.blockSize := by
        by_contra hle
        exact hok (Or.inl (by omega))
      refine ⟨hpos, (hroom _ _ hpos).mp ?_⟩
      cases halloc : env.alloc w.heapLog m.blockSize with
      | none =>
          rw [halloc] at hok
          exact absurd (Or.inr (by decide)) hok
      | some idx =>
          rw [halloc, Option.getD_some] at hok
          exact ⟨idx, rfl, by omega⟩
    · rintro ⟨hpos, hhas⟩ hfail
      obtain ⟨idx, halloc, h0⟩ := (hroom _ _ hpos).mpr hhas
      rw [halloc, Option.getD_some] at hfail
      omega
  unfold FindsFree
  rw [hfails]

theorem takesOid_iff [Rounding] (hroom : FindsRoom limit env.alloc) :
    TakesOid env h metadata w ↔
      metadata.refused = false ∧
        w.db.notUniq (initMetadata env h (env.now w.tick) metadata) = false ∧
        Provides limit h (initMetadata env h (env.now w.tick) metadata) (env.now w.tick) w.db
          (liveBlocks w.heapLog) := by
  unfold TakesOid Provides
  rw [← findsFree_iff hroom]

theorem findReusable_congr [Rounding] {db db' : Db} {ts : Timestamp}
    (hobj : db'.objmeta = db.objmeta)
    (hinterval : db'.defaultKeepDeletedInterval = db.defaultKeepDeletedInterval) :
    findReusable db' h m ts = findReusable db h m ts := by
  unfold findReusable Db.reusable Db.scanDeleteTs
  rw [hobj, hinterval]

theorem PurgedSlots.provides_iff [Rounding] {ts : Timestamp} {slots : List Nat}
    (hp : PurgedSlots slots w w') : Provides limit h m ts w'.db (liveBlocks w'.heapLog) ↔
      Provides limit h m ts (w.db.withoutSlots slots)
        ((liveBlocks w.heapLog).diff (w.db.blocksIn slots)) := by
  have hfind : w'.db.findmetaById 0 = (w.db.withoutSlots slots).findmetaById 0 :=
    Db.findmetaById_congr fun j => by rw [hp.objmeta]
  have hreuse : findReusable w'.db h m ts = findReusable (w.db.withoutSlots slots) h m ts :=
    findReusable_congr hp.objmeta hp.interval
  unfold Provides
  rw [hp.log, liveBlocks_frees, hfind, hreuse]

theorem insert_after_purge [Rounding] (hroom : FindsRoom limit env.alloc) {p : Result}
    {w₁ w₂ : World} {r' : Result × ObjInfo} (hpurge : purgeObjs env.atomic w = some (p, w₁))
    (hrun : insert env.atomic h metadata w₁ = some (r', w₂)) :
    let slots := w.db.expiredSlots (env.now w.tick)
    let ts' := env.now ((w.ask.lock env).tick + slots.length)
    let m' := initMetadata env h ts' metadata
    OutOfRoom r'.1 ↔
      metadata.refused = false ∧ (w.db.withoutSlots slots).notUniq m' = false ∧
        ¬ (Provides limit h m' ts' (w.db.withoutSlots slots)
            ((liveBlocks w.heapLog).diff (w.db.blocksIn slots)) ∧ 0 < w.db.nextOid) := by
  intro slots ts' m'
  obtain ⟨w₃, hrun₃, hp⟩ := purgeObjs_run env w
  obtain ⟨-, rfl⟩ := Prod.mk.inj (Option.some.inj (hpurge.symm.trans hrun₃))
  have hdb : (w.ask.lock env.atomic).db = w.db := atomic_lock_db w.ask
  have hlog : (w.ask.lock env.atomic).heapLog = w.heapLog := atomic_lock_heapLog w.ask
  have hlockTick : (w.ask.lock env.atomic).tick = (w.ask.lock env).tick := by
    unfold World.lock
    split <;> rfl
  have hobj : w₃.db.objmeta = (w.db.withoutSlots slots).objmeta := by
    rw [hp.objmeta, hdb]
  have hnow : env.now w₃.unlock.tick = ts' := by
    show env.now w₃.tick = ts'
    rw [hp.tick, hlockTick]
  have hnext : w₃.unlock.db.nextOid = w.db.nextOid :=
    congrArg (fun n : Nat => wrap32 n) (hp.oidNext.trans (by rw [hdb]))
  have huniq : w₃.unlock.db.notUniq m' = (w.db.withoutSlots slots).notUniq m' :=
    notUniq_congr hobj m'
  have hprovides : Provides limit h m' ts' w₃.db (liveBlocks w₃.heapLog) ↔ _ := hp.provides_iff
  rw [hdb, hlog] at hprovides
  rw [insert_outOfRoom_iff hrun, takesOid_iff hroom, hnow, huniq, hnext]
  have hunlock : Provides limit h m' ts' w₃.unlock.db (liveBlocks w₃.unlock.heapLog) ↔ _ :=
    hprovides
  rw [hunlock]
  generalize (0 < w.db.nextOid) = hasOid
  constructor
  · rintro ⟨href, hu, hno⟩
    exact ⟨href, hu, fun hyes => hno ⟨⟨href, hu, hyes.1⟩, hyes.2⟩⟩
  · rintro ⟨href, hu, hno⟩
    exact ⟨href, hu, fun hyes => hno ⟨hyes.1.2.2, hyes.2⟩⟩

/-- An insert gives up rightly unless what it lacks is to be had from the expired objects. -/
theorem givesUpRightly_iff [Rounding] (hroom : FindsRoom limit env.alloc) :
    GivesUpRightly env.atomic h metadata w ↔ ¬ PurgeMatters limit env h metadata w := by
  have hall : Total (insert env.atomic h metadata) := insert_total
  obtain ⟨r, w', hrun⟩ := hall w
  obtain ⟨w₁, hpurge, -⟩ := purgeObjs_run env w
  obtain ⟨r', w₂, hagain⟩ := hall w₁.unlock
  have hfirst := insert_outOfRoom_iff hrun
  have hsecond := insert_after_purge hroom hpurge hagain
  dsimp only at hsecond
  rw [takesOid_iff hroom] at hfirst
  have hrightly : GivesUpRightly env.atomic h metadata w ↔ (OutOfRoom r.1 → OutOfRoom r'.1) := by
    constructor
    · intro hright hgives
      exact hright r w' _ _ r' w₂ hrun hgives hpurge hagain
    · intro himp s t p w₃ s' t' hs hgives hp hs'
      obtain ⟨rfl, rfl⟩ := Prod.mk.inj (Option.some.inj (hrun.symm.trans hs))
      obtain ⟨rfl, rfl⟩ := Prod.mk.inj (Option.some.inj (hpurge.symm.trans hp))
      obtain ⟨rfl, rfl⟩ := Prod.mk.inj (Option.some.inj (hagain.symm.trans hs'))
      exact himp hgives
  rw [hrightly, hfirst, hsecond]
  unfold PurgeMatters
  dsimp only
  generalize (0 < w.db.nextOid) = hasOid
  constructor
  · rintro himp ⟨href, hu, hno, hafter⟩
    obtain ⟨-, hu', hno'⟩ := himp ⟨href, hu, fun hyes => hno ⟨hyes.1.2.2, hyes.2⟩⟩
    rcases hafter with hclash | hyes
    · exact Bool.false_ne_true (hu'.symm.trans hclash)
    · exact hno' hyes
  · rintro hmatters ⟨href, hu, hno⟩
    have hnot : ¬ (_ ∨ _) := fun hafter =>
      hmatters ⟨href, hu, fun hyes => hno ⟨⟨href, hu, hyes.1⟩, hyes.2⟩, hafter⟩
    obtain ⟨hclash, hno'⟩ := not_or.mp hnot
    exact ⟨href, Bool.not_eq_true _ ▸ hclash, hno'⟩

/-! ## A full heap -/

/-- An allocator that uses every gap, and a clock that stands at one second. -/
def gapEnv : Env :=
  { exampleEnv 4096 with
    now := fun _ => 1000000000
    alloc := fun es size => firstFit 4096 (liveBlocks es) size }

/-- A heap of 4096 bytes of which an object deleted at `deletedTs` has 3000. -/
def fullWorld (deletedTs : Timestamp) : World where
  db := { Db.initial 4096 with
    objmeta := fun i =>
      if i = 0 then
        { oid := 1, name := ['b'], createdTs := 1, createdProc := 8, deletedTs := deletedTs,
          deletedProc := 8, sizeMax := 1000, historySize := 3, bufferIdx := 2 }
      else {}
    objmetaFree := objMax - 1
    objmetaOidNext := 2
    heapFree := 1094
    heapUsed := 3002 }
  held := false
  unguarded := false
  heapLog := [.alloc ⟨2, 3000⟩, .alloc ⟨0, 2⟩]
  tick := 0

/-- An object with two history slots of 1000 bytes each. -/
def aLargeObject : ObjInfo := { anObject with sizeMax := 1000 }

/-- The deleted object has its time: the insert gives up, and is right. -/
theorem givesUpRightly_iff_recent :
    GivesUpRightly gapEnv.atomic aProcess aLargeObject (fullWorld 900000000) :=
  (givesUpRightly_iff (findsRoom_firstFit 4096)).mpr (by decide +kernel)

/-- The deleted object is long expired and has the space that the insert lacks. -/
theorem exists_not_givesUpRightly :
    ∃ (limit : Int) (env : Env) (h : Handle) (metadata : ObjInfo) (w : World),
      FindsRoom limit env.alloc ∧ w.held = false ∧ metadata.refused = false ∧
        ¬ GivesUpRightly env.atomic h metadata w := by
  refine ⟨4096, gapEnv, aProcess, aLargeObject, fullWorld 1, findsRoom_firstFit 4096, rfl,
    by decide, fun hright => ?_⟩
  have hall : Total (insert gapEnv.atomic aProcess aLargeObject) := insert_total
  obtain ⟨r, w', hrun⟩ := hall (fullWorld 1)
  obtain ⟨w₁, hpurge, -⟩ := purgeObjs_run gapEnv (fullWorld 1)
  obtain ⟨r', w₂, hagain⟩ := hall w₁.unlock
  have hfirst : OutOfRoom r.1 := (insert_outOfRoom_iff hrun).mpr (by decide +kernel)
  have hsecond := (insert_after_purge (findsRoom_firstFit 4096) hpurge hagain).mp
    (hright _ _ _ _ _ _ hrun hfirst hpurge hagain)
  have hmatters : ¬ _ := hsecond.2.2
  exact hmatters (by decide +kernel)

end KogmoRtdb
