import KogmoRtdb.Meta.Api

/-!
# Who owns a block

Between its allocation and its release a block belongs to one object: it is
outstanding for the allocator, and one occupied slot names it. `Owned` says this
of the table and the allocator's history, and `InHand` what an insert holds between
the search for a slot and the uniqueness check: `new_allocated_heap_idx` is 0, or the
block that no slot names yet, or the failure value -1.

The last is what breaks the rule. The retry loop keeps -1 in
`new_allocated_heap_idx`, and `if ( new_allocated_heap_idx )` in front of the
release that follows a uniqueness conflict takes it for a block.
-/

namespace KogmoRtdb

def ObjInfo.heapBlock (info : ObjInfo) : HeapBlock := ⟨info.bufferIdx, info.blockSize⟩

def ObjInfo.HasBlock (info : ObjInfo) : Prop := info.oid ≠ 0 ∧ info.bufferIdx ≠ 0

/-- Every block given back was outstanding, and no two occupied slots refer to the
same block. -/
structure Ownership (w : World) : Prop where
  legit : LegitFrees w.heapLog
  excl : ∀ i j, i ≠ j → (w.db.objmeta i).HasBlock → (w.db.objmeta j).HasBlock →
    (w.db.objmeta i).bufferIdx ≠ (w.db.objmeta j).bufferIdx

/-- The blocks of the occupied slots are outstanding, each slot's its own. -/
structure Owned (limit : Int) (objmeta : Nat → ObjInfo) (es : List HeapEvent) : Prop where
  live : LiveInv limit es
  mem : ∀ i, (objmeta i).HasBlock → (objmeta i).heapBlock ∈ liveBlocks es
  excl : ∀ i j, i ≠ j → (objmeta i).HasBlock → (objmeta j).HasBlock →
    (objmeta i).bufferIdx ≠ (objmeta j).bufferIdx

namespace Owned

variable {limit : Int} {objmeta objmeta' : Nat → ObjInfo} {es : List HeapEvent} {b : HeapBlock}

/-- Slots may be given up, and what is not a block's business may change. -/
theorem of_le (ho : Owned limit objmeta es)
    (hle : ∀ i, (objmeta' i).HasBlock →
      (objmeta i).HasBlock ∧ (objmeta' i).heapBlock = (objmeta i).heapBlock) :
    Owned limit objmeta' es where
  live := ho.live
  mem i hi := by
    rw [(hle i hi).2]
    exact ho.mem i (hle i hi).1
  excl i j hij hi hj := by
    have heq := ho.excl i j hij (hle i hi).1 (hle j hj).1
    have hi' := congrArg HeapBlock.idx (hle i hi).2
    have hj' := congrArg HeapBlock.idx (hle j hj).2
    exact fun h => heq (hi'.symm.trans (h.trans hj'))

theorem free (ho : Owned limit objmeta es) (hb : b ∈ liveBlocks es)
    (hno : ∀ i, (objmeta i).HasBlock → (objmeta i).bufferIdx ≠ b.idx) :
    Owned limit objmeta (.free b :: es) where
  live := ho.live.free hb
  mem i hi := mem_liveBlocks_free (ho.mem i hi) fun heq => hno i hi (congrArg HeapBlock.idx heq)
  excl := ho.excl

theorem alloc {f : List HeapEvent → Int → Option Int} {size idx : Int}
    (ho : Owned limit objmeta es) (hf : AllocSound limit f) (hpos : 0 < size)
    (hsome : f es size = some idx) :
    Owned limit objmeta (.alloc ⟨idx, size⟩ :: es) ∧
      ∀ i, (objmeta i).HasBlock → (objmeta i).bufferIdx ≠ idx := by
  refine ⟨⟨ho.live.alloc hf hpos hsome, fun i hi => List.mem_cons_of_mem _ (ho.mem i hi),
    ho.excl⟩, fun i hi => ?_⟩
  have hmem := ho.mem i hi
  exact ((hf es size idx ho.live.legit hpos hsome).2.2 _ hmem).idx_ne (ho.live.pos _ hmem) hpos

/-- An object enters slot `i` with a block that no other slot names. -/
theorem enter {i : Nat} {info : ObjInfo} (ho : Owned limit objmeta es)
    (hb : info.HasBlock → info.heapBlock ∈ liveBlocks es ∧
      ∀ j, j ≠ i → (objmeta j).HasBlock → (objmeta j).bufferIdx ≠ info.bufferIdx) :
    Owned limit (Function.update objmeta i info) es := by
  refine ⟨ho.live, fun j hj => ?_, fun j k hjk hj hk => ?_⟩
  · by_cases hji : j = i
    · subst hji
      rw [Function.update_self] at hj ⊢
      exact (hb hj).1
    · rw [Function.update_of_ne hji] at hj ⊢
      exact ho.mem j hj
  · by_cases hji : j = i
    · subst hji
      rw [Function.update_self] at hj ⊢
      rw [Function.update_of_ne (Ne.symm hjk)] at hk ⊢
      exact fun heq => (hb hj).2 k (Ne.symm hjk) hk heq.symm
    · rw [Function.update_of_ne hji] at hj ⊢
      by_cases hki : k = i
      · subst hki
        rw [Function.update_self] at hk ⊢
        exact (hb hk).2 j hji hj
      · rw [Function.update_of_ne hki] at hk ⊢
        exact ho.excl j k hjk hj hk

/-- A slot whose metadata keeps its oid, or gives it up, and keeps its block. -/
theorem update {i : Nat} {info : ObjInfo} (ho : Owned limit objmeta es)
    (hoid : info.oid ≠ 0 → (objmeta i).oid ≠ 0)
    (hblock : info.heapBlock = (objmeta i).heapBlock) :
    Owned limit (Function.update objmeta i info) es := by
  refine ho.of_le fun j hj => ?_
  by_cases hji : j = i
  · subst hji
    rw [Function.update_self] at hj ⊢
    have hidx : info.bufferIdx = (objmeta j).bufferIdx := congrArg HeapBlock.idx hblock
    exact ⟨⟨hoid hj.1, by rw [← hidx]; exact hj.2⟩, hblock⟩
  · rw [Function.update_of_ne hji] at hj ⊢
    exact ⟨hj, rfl⟩

theorem ownership {w : World} (ho : Owned limit w.db.objmeta w.heapLog) : Ownership w :=
  ⟨ho.live.legit, ho.excl⟩

end Owned

def OwnedWorld (limit : Int) (w : World) : Prop := Owned limit w.db.objmeta w.heapLog

variable {env : Env} {limit : Int} {w w' : World}

/-! ## Purges, deletes and changes -/

theorem ownedWorld_purged {i : Nat} (ho : OwnedWorld limit w)
    (hocc : (w.db.objmeta i).oid ≠ 0) : OwnedWorld limit (w.purged i) := by
  have hup : Owned limit
      (Function.update w.db.objmeta i { w.db.objmeta i with oid := 0 }) w.heapLog :=
    ho.update (fun h => absurd rfl h) rfl
  unfold OwnedWorld
  rw [purged_objmeta, purged_heapLog]
  by_cases hidx : (w.db.objmeta i).bufferIdx = 0
  · rwa [hidx, release_zero]
  · rw [release_heapLog _ _ hidx]
    refine hup.free (ho.mem i ⟨hocc, hidx⟩) fun j hj => ?_
    by_cases hji : j = i
    · subst hji
      rw [Function.update_self] at hj
      exact absurd rfl hj.1
    · rw [Function.update_of_ne hji] at hj ⊢
      exact ho.excl j i hji hj ⟨hocc, hidx⟩

theorem ownedWorld_effect (ho : OwnedWorld limit w) (he : Effect env w w') :
    OwnedWorld limit w' := by
  cases he with
  | idle hdb hlog =>
      unfold OwnedWorld
      rwa [hdb, hlog]
  | mark hocc => exact ho.update (fun _ => hocc) rfl
  | purge hocc => exact ownedWorld_purged ho hocc
  | change => exact ho.update id rfl

/-! ## Writes -/

theorem ownedWorld_write [Rounding] {h : Handle} {oid : ObjId} {data : Mem} {ts : Timestamp}
    {out : WriteOut} (ho : OwnedWorld limit w) (hout : out = writedata w.db h oid data ts) :
    OwnedWorld limit { w.ask with db := out.db } := by
  rcases writedata_cases hout with ⟨e, -, hdb⟩ | ⟨i, -, -, -, -, -, hdb⟩
  · unfold OwnedWorld
    rw [hdb]
    exact ho
  · unfold OwnedWorld
    rw [hdb]
    exact ho.update id rfl

/-! ## Inserts -/

section Insert

variable {h : Handle} {ts : Timestamp} {m m' : ObjInfo} {w₁ : World}
  {foundSlot : Option Nat} {newIdx : Int} {r : Result × ObjInfo}

/-- What an insert holds when it comes to the uniqueness check. -/
structure InHand (limit : Int) (w : World) (foundSlot : Option Nat) (newIdx : Int)
    (m : ObjInfo) : Prop where
  owned : OwnedWorld limit w
  oid : m.oid = 0
  block : m.bufferIdx ≠ 0 → m.heapBlock ∈ liveBlocks w.heapLog ∧
    ∀ j, foundSlot ≠ some j → (w.db.objmeta j).HasBlock →
      (w.db.objmeta j).bufferIdx ≠ m.bufferIdx
  new : newIdx ≠ 0 → newIdx < 0 ∨ newIdx = m.bufferIdx ∧
    ∀ j, (w.db.objmeta j).HasBlock → (w.db.objmeta j).bufferIdx ≠ newIdx

theorem afterAlloc_of_fails {size : Int} (hf : AllocSound limit env.alloc)
    (hl : LegitFrees w.heapLog) (hfail : allocFails env w.heapLog size) :
    w.afterAlloc env size = w := by
  unfold World.afterAlloc
  split
  · rfl
  · rename_i hpos
    split
    · rfl
    · rename_i idx hsome
      have := (hf _ _ _ hl (by omega) hsome).1
      rcases hfail with hle | hneg
      · exact absurd hle hpos
      · rw [hsome, Option.getD_some] at hneg
        omega

theorem blockSize_of_reusable [Rounding] {i : Nat} (hi : findReusable w.db h m ts = some i) :
    (w.db.objmeta i).oid ≠ 0 ∧ (w.db.objmeta i).blockSize = m.blockSize := by
  have hr := List.find?_some hi
  simp only [Db.reusable, Bool.and_eq_true, decide_eq_true_eq] at hr
  exact ⟨hr.1.1.1.1.1, hr.1.2⟩

theorem inHand_of_slotSearch [Rounding] (ho : OwnedWorld limit w) (hf : AllocSound limit env.alloc)
    (hm : m.oid = 0) (hidx : m.bufferIdx = 0)
    (hs : SlotSearch env.atomic h ts m w foundSlot newIdx m' w₁) :
    InHand limit w₁ foundSlot newIdx m' := by
  have hnil : m.bufferIdx ≠ 0 → m.heapBlock ∈ liveBlocks w.heapLog ∧
      ∀ j, foundSlot ≠ some j → (w.db.objmeta j).HasBlock →
        (w.db.objmeta j).bufferIdx ≠ m.bufferIdx := fun h => absurd hidx h
  cases hs with
  | @reuse i hi =>
      obtain ⟨hocc, hsize⟩ := blockSize_of_reusable hi
      refine ⟨ho, hm, fun hne => ⟨?_, fun j hj hb => ?_⟩, fun h => absurd rfl h⟩
      · have hmem := ho.mem i ⟨hocc, hne⟩
        rw [ObjInfo.heapBlock, hsize] at hmem
        exact hmem
      · exact ho.excl j i (fun heq => hj (congrArg some heq.symm)) hb ⟨hocc, hne⟩
  | dataless hnone hsize hi => exact ⟨ho, hm, hnil, fun h => absurd rfl h⟩
  | noSlotDataless hnone hsize hi => exact ⟨ho, hm, hnil, fun h => absurd rfl h⟩
  | noBlock hnone hsize hneg halloc =>
      have hsame : (w.unlock.afterAlloc env.atomic m.blockSize) = w.unlock :=
        afterAlloc_of_fails hf ho.live.legit halloc
      rw [hsame]
      refine ⟨ho, hm, ?_, fun _ => Or.inl hneg⟩
      exact fun h => absurd hidx h
  | @block _ i w₂ hnone hsize hpos halloc h0 hw₂ hi =>
      obtain ⟨hnew, hno⟩ := Owned.alloc ho hf hpos halloc
      have hw : OwnedWorld limit w₂ := by rw [hw₂]; exact hnew
      have hno : ∀ j, (w₂.db.objmeta j).HasBlock → (w₂.db.objmeta j).bufferIdx ≠ newIdx := by
        rw [hw₂]
        exact hno
      have hmem : (⟨newIdx, m.blockSize⟩ : HeapBlock) ∈ liveBlocks w₂.heapLog := by
        rw [hw₂]
        exact List.mem_cons_self
      exact ⟨hw, hm, fun _ => ⟨hmem, fun j _ hb => hno j hb⟩,
        fun _ => Or.inr ⟨rfl, fun j hb => hno j hb⟩⟩
  | noSlot hnone hsize hpos halloc h0 hw₂ hi =>
      obtain ⟨hnew, hno⟩ := Owned.alloc ho hf hpos halloc
      subst hw₂
      exact ⟨hnew, hm, fun _ => ⟨List.mem_cons_self, fun j _ hb => hno j hb⟩,
        fun _ => Or.inr ⟨rfl, fun j hb => hno j hb⟩⟩

/-- The object's metadata in the table refers to the block in hand. -/
theorem heapBlock_withParent (m : ObjInfo) (oid : ObjId) :
    ({ m.withParent oid with oid := oid } : ObjInfo).heapBlock = m.heapBlock := by
  unfold ObjInfo.withParent
  split <;> rfl

/-- The rest of the insert passes the block on to the slot, or gives it back. -/
theorem ownedWorld_finish (hh : InHand limit w foundSlot newIdx m)
    (hbogus : newIdx < 0 → w.db.notUniq m = false) (hf : Finish newIdx m w foundSlot r w') :
    OwnedWorld limit w' := by
  cases hf with
  | notUniq hu =>
      by_cases hne : newIdx = 0
      · rw [hne, release_zero]
        exact hh.owned
      · rcases hh.new hne with hneg | ⟨hidx, hno⟩
        · rw [hbogus hneg] at hu
          cases hu
        · have hmem := (hh.block (hidx ▸ hne)).1
          unfold OwnedWorld
          rw [release_objmeta, release_heapLog _ _ hne, hidx]
          exact hh.owned.free hmem fun j hb => hidx ▸ hno j hb
  | noSlot hu => exact hh.owned
  | @noOid i hu hoid =>
      have hup : Owned limit (Function.update w.db.objmeta i m) w.heapLog :=
        hh.owned.enter fun hb => absurd hh.oid hb.1
      show Owned limit ((w.write (·.setMeta i m)).oidTaken.release m.bufferIdx m).db.objmeta
        ((w.write (·.setMeta i m)).oidTaken.release m.bufferIdx m).heapLog
      rw [release_objmeta]
      by_cases hne : m.bufferIdx = 0
      · rw [hne, release_zero]
        exact hup
      · rw [release_heapLog _ _ hne]
        refine hup.free (hh.block hne).1 fun j hb => ?_
        by_cases hji : j = i
        · subst hji
          rw [Function.update_self] at hb
          exact absurd hh.oid hb.1
        · rw [Function.update_of_ne hji] at hb ⊢
          exact (hh.block hne).2 j (fun heq => hji (Option.some.inj heq).symm) hb
  | @entered i oid hu hoid hpos =>
      have hup : Owned limit
          (Function.update w.db.objmeta i { m.withParent oid with oid := oid }) w.heapLog :=
        hh.owned.enter fun hb => by
          rw [heapBlock_withParent]
          have hidx := congrArg HeapBlock.idx (heapBlock_withParent m oid)
          have hne : m.bufferIdx ≠ 0 := fun h0 => hb.2 (hidx.trans h0)
          refine ⟨(hh.block hne).1, fun j hji hbj => ?_⟩
          have := (hh.block hne).2 j (fun heq => hji (Option.some.inj heq).symm) hbj
          exact fun heq => this (heq.trans hidx)
      have hobj : Function.update (Function.update w.db.objmeta i m) i
          { m.withParent oid with oid := oid } =
          Function.update w.db.objmeta i { m.withParent oid with oid := oid } :=
        Function.update_idem ..
      show Owned limit (Function.update (Function.update w.db.objmeta i m) i _) w.heapLog
      rw [hobj]
      exact hup

/-- An insert whose allocation has failed meets a uniqueness conflict. -/
def BogusFree [Rounding] (env : Env) (h : Handle) (metadata : ObjInfo) (w : World) : Prop :=
  let ts := env.now w.tick
  let m := initMetadata env h ts metadata
  metadata.refused = false ∧ findReusable w.db h m ts = none ∧ m.sizeMax ≠ 0 ∧
    allocFails env w.heapLog m.blockSize ∧ w.db.notUniq m = true

instance [Rounding] {metadata : ObjInfo} : Decidable (BogusFree env h metadata w) := by
  unfold BogusFree
  infer_instance

theorem notUniq_congr {db db' : Db} (h : db'.objmeta = db.objmeta) (m : ObjInfo) :
    db'.notUniq m = db.notUniq m := by
  have hfind (oid : ObjId) : db'.findmetaById oid = db.findmetaById oid := by
    unfold Db.findmetaById
    rw [h]
  have hnth (nth : Int) : searchNth db' m.otype nth = searchNth db m.otype nth := by
    unfold searchNth searchAnswer searchTable noMatch
    rw [h, hfind]
  have hclash (l : List Nat) : clash db' m l = clash db m l := by
    induction l with
    | nil => rfl
    | cons i is ih => simp only [clash, hnth, hfind, h, ih]
  exact hclash _

/-- A uniqueness conflict with the failure value in `new_allocated_heap_idx` is what
the condition excludes. -/
theorem notUniq_of_noBlock [Rounding] {metadata : ObjInfo} (ho : OwnedWorld limit w)
    (hf : AllocSound limit env.alloc) (href : metadata.refused = false)
    (hbogus : ¬ BogusFree env h metadata w)
    (hs : SlotSearch env.atomic h (env.now w.tick)
      (initMetadata env h (env.now w.tick) metadata) (w.ask.lock env.atomic) foundSlot newIdx
      m' w₁) (hneg : newIdx < 0) : w₁.db.notUniq m' = false := by
  have hdb : (w.ask.lock env.atomic).db = w.ask.db := atomic_lock_db w.ask
  have hlog : (w.ask.lock env.atomic).heapLog = w.ask.heapLog := atomic_lock_heapLog w.ask
  cases hs with
  | reuse hi => exact absurd hneg (by decide)
  | dataless hnone hsize hi => exact absurd hneg (by decide)
  | noSlotDataless hnone hsize hi => exact absurd hneg (by decide)
  | noBlock hnone hsize hidx halloc =>
      rw [hdb] at hnone
      rw [hlog] at halloc
      have hsame : (w.ask.lock env.atomic).unlock.afterAlloc env.atomic
          (initMetadata env h (env.now w.tick) metadata).blockSize =
            (w.ask.lock env.atomic).unlock :=
        afterAlloc_of_fails hf (by rw [World.unlock, hlog]; exact ho.live.legit)
          (by rw [World.unlock, hlog]; exact halloc)
      have htable : ((w.ask.lock env.atomic).unlock.lock env.atomic).db.objmeta =
          w.db.objmeta := by
        rw [atomic_lock_db]
        exact congrArg Db.objmeta hdb
      rw [hsame, notUniq_congr htable]
      by_contra hu
      exact hbogus ⟨href, hnone, hsize, halloc, by simpa using hu⟩
  | block hnone hsize hpos halloc h0 hw₂ hi => omega
  | noSlot hnone hsize hpos halloc h0 hw₂ hi => omega

theorem ownedWorld_insert [Rounding] {metadata : ObjInfo} (ho : OwnedWorld limit w)
    (hf : AllocSound limit env.alloc) (hbogus : ¬ BogusFree env h metadata w)
    (hrun : insert env.atomic h metadata w = some (r, w')) : OwnedWorld limit w' := by
  rcases insert_some hrun with ⟨href, -, rfl⟩ | ⟨href, foundSlot, newIdx, m', w₁, hs, hfin⟩
  · exact ho
  · have ho' : OwnedWorld limit (w.ask.lock env.atomic) := by
      unfold OwnedWorld
      rw [atomic_lock_db, atomic_lock_heapLog]
      exact ho
    exact ownedWorld_finish (inHand_of_slotSearch ho' hf rfl rfl hs)
      (notUniq_of_noBlock ho hf href hbogus hs) hfin

end Insert

/-! ## Runs -/

/-- The oids passed to a delete come from inserts and searches: they are not 0, the
oid of a free slot. -/
def OidKnown : Op → Prop
  | .deleteImm _ metadata _ _ => metadata.oid ≠ 0
  | _ => True

def KeepsOwners [Rounding] (env : Env) (s : RunState) : Op → Prop
  | .insert h metadata => ¬ BogusFree env h metadata s.world
  | _ => True

/-- A step's condition, with the assumption about oids. -/
def OwnerGuard [Rounding] (env : Env) (s : RunState)
    (op : Op) : Prop := OidKnown op ∧ KeepsOwners env s op

instance : DecidablePred OidKnown
  | .deleteImm _ metadata _ _ => inferInstanceAs (Decidable (metadata.oid ≠ 0))
  | .insert .. | .purgeObjs | .changeinfo .. | .writedata .. => isTrue trivial

instance [Rounding] (s : RunState) : DecidablePred (KeepsOwners env s)
  | .insert h metadata => inferInstanceAs (Decidable (¬ BogusFree env h metadata s.world))
  | .deleteImm .. | .purgeObjs | .changeinfo .. | .writedata .. => isTrue trivial

instance [Rounding] (s : RunState) : DecidablePred (OwnerGuard env s) := fun op =>
  inferInstanceAs (Decidable (OidKnown op ∧ KeepsOwners env s op))

theorem ownedWorld_initial {heapSize : Int} (hf : AllocSound limit env.alloc) :
    OwnedWorld limit (World.initial env.atomic heapSize) := by
  have hempty : ∀ i, ¬ ((Db.initial heapSize).objmeta i).HasBlock := fun i hb => hb.1 rfl
  unfold World.initial World.afterAlloc
  rw [if_neg (by decide)]
  split
  · exact ⟨.nil, fun i hb => absurd hb (hempty i), fun i j _ hb => absurd hb (hempty i)⟩
  · rename_i idx hsome
    exact ⟨LiveInv.nil.alloc hf (by decide) hsome, fun i hb => absurd hb (hempty i),
      fun i j _ hb => absurd hb (hempty i)⟩

theorem ownedWorld_step [Rounding] {heapSize : Int} {s s' : RunState} {op : Op}
    (hf : AllocSound limit env.alloc) (ho : OwnedWorld limit s.world) (hg : OwnerGuard env s op)
    (hs : (apiLts env heapSize).step s op = some s') : OwnedWorld limit s'.world := by
  obtain ⟨events, hrun, -⟩ := apiLts_step hs
  obtain ⟨hoid, hkeep⟩ := hg
  rcases op_cases (by rintro h metadata imm fuel rfl; exact hoid) hrun with
    ⟨h, metadata, r, rfl, hins, -⟩ | ⟨h, oid, data, out, rfl, hout, hw, -⟩ | ⟨hsteps, -⟩
  · exact ownedWorld_insert ho hf hkeep hins
  · rw [hw]
    exact ownedWorld_write ho hout
  · exact hsteps.invariant (fun _ _ => ownedWorld_effect) ho

/-- Block ownership: in every run of calls in which no insert that could not
allocate its block meets a uniqueness conflict, every block given back was
outstanding, and no two occupied slots refer to the same block. -/
theorem ownership_of_guarded [Rounding] {heapSize : Int} {s : RunState}
    (hf : AllocSound limit env.alloc)
    (h : (apiLts env heapSize).Guarded (OwnerGuard env) s) : Ownership s.world := by
  have hinv : OwnedWorld limit s.world := by
    refine h.invariant (I := fun s => OwnedWorld limit s.world) ?_ fun s op s' hI hg hs => ?_
    · rintro s rfl
      exact ownedWorld_initial hf
    · exact ownedWorld_step hf hI hg hs
  exact hinv.ownership

/-- A run to evaluate: two objects of different types, a delete and a purge. -/
def ownerSchedule : List Op :=
  [.insert aProcess anObject, .insert aProcess { anObject with otype := 2 },
    .deleteImm aProcess { anObject with oid := 1 } true 1, .purgeObjs]

theorem ownership_of_guarded_delete :
    ∃ s, (apiLts (exampleEnv 4096) 4096).Guarded (OwnerGuard (exampleEnv 4096)) s ∧
      Ownership s.world ∧ s.world.heapLog.length = 4 := by
  obtain ⟨s, hr, hp⟩ := (apiLts (exampleEnv 4096) 4096).exists_of_execGuarded
    (G := OwnerGuard (exampleEnv 4096))
    (g := fun s op => decide (OwnerGuard (exampleEnv 4096) s op)) (fun _ _ => of_decide_eq_true)
    ownerSchedule (fun s => decide (s.world.heapLog.length = 4))
    (s := ⟨World.initial (exampleEnv 4096).atomic 4096, []⟩) rfl (by decide +kernel)
  exact ⟨s, hr, ownership_of_guarded (bumpAlloc_sound 4096) hr, of_decide_eq_true hp⟩

/-- An object, and then one with the same name and type, unique and too big for the
heap: a block that never was is given back. -/
theorem exists_not_ownership :
    AllocSound 4096 (exampleEnv 4096).alloc ∧
      ∃ s, (apiLts (exampleEnv 4096) 4096).Guarded (fun _ => OidKnown) s ∧
        ¬ Ownership s.world := by
  obtain ⟨s, hr, hp⟩ := (apiLts (exampleEnv 4096) 4096).exists_of_execGuarded
    (G := fun _ => OidKnown) (g := fun _ op => decide (OidKnown op))
    (fun _ _ => of_decide_eq_true)
    [.insert aProcess anObject,
      .insert aProcess { aBigObject with flags := { unique := true } }]
    (fun s => decide (¬ LegitFrees s.world.heapLog))
    (s := ⟨World.initial (exampleEnv 4096).atomic 4096, []⟩) rfl (by decide +kernel)
  exact ⟨bumpAlloc_sound 4096, s, hr, fun ho => of_decide_eq_true hp ho.legit⟩

end KogmoRtdb
