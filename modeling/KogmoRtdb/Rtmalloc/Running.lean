import KogmoRtdb.Meta.SlotRings
import KogmoRtdb.Rtmalloc.Memory

/-!
# The database in its memory

The calls on the database in the default build: the allocator is asked in the memory as it is then,
and what is handed out is cleared there, what is given back is linked there, and records are stored
there (`subaLts`).

A record goes to its slot by an index that wraps at 2^31. Where the blocks fit the slots, no record
reaches beyond its object's block, so that the allocator finds what it has left, and the runs of
`apiLts` with `suba` are runs in this memory.
-/

namespace KogmoRtdb

variable {env : Env} {w w' : World} {heapSize limit : Int} {f : List HeapEvent → Int → Option Int}

/-! ## Another allocator -/

def Env.withAlloc (env : Env) (f : List HeapEvent → Int → Option Int) : Env :=
  { env with alloc := f }

theorem retryBody_congr [Rounding] (hf : f w.heapLog = env.alloc w.heapLog) (m : ObjInfo) :
    retryBody (env.withAlloc f) false m w = retryBody env false m w := by
  have halloc (size : Int) :
      memAlloc (env.withAlloc f) size w.unlock = memAlloc env size w.unlock := by
    unfold memAlloc
    rw [show (env.withAlloc f).alloc w.unlock.heapLog = env.alloc w.unlock.heapLog from hf]
  unfold retryBody
  split
  · show (memAlloc (env.withAlloc f) m.blockSize w.unlock).bind _ =
      (memAlloc env m.blockSize w.unlock).bind _
    rw [halloc]
    rfl
  · rfl

theorem insertLocked_congr [Rounding] (hf : f w.heapLog = env.alloc w.heapLog) (h : Handle)
    (ts : Timestamp) (m : ObjInfo) :
    insertLocked (env.withAlloc f).atomic h ts m w = insertLocked env.atomic h ts m w := by
  have hlock : f (w.lock env.atomic).heapLog = env.atomic.alloc (w.lock env.atomic).heapLog := by
    rw [atomic_lock_heapLog]
    exact hf
  unfold insertLocked
  refine Prog.bind_congr rfl fun _ _ h₁ => ?_
  cases h₁
  refine Prog.bind_congr rfl fun db _ h₂ => ?_
  cases h₂
  cases findReusable (w.lock (env.withAlloc f).atomic).db h m ts with
  | some i => rfl
  | none => exact Prog.bind_congr (retryBody_congr hlock m) fun _ _ _ => rfl

theorem insert_congr [Rounding] (hf : f w.heapLog = env.alloc w.heapLog) (h : Handle)
    (m : ObjInfo) : insert (env.withAlloc f).atomic h m w = insert env.atomic h m w := by
  have hask : f w.ask.heapLog = env.alloc w.ask.heapLog := hf
  unfold insert
  refine Prog.bind_congr rfl fun _ _ hnow => ?_
  cases hnow
  split
  · rfl
  · exact insertLocked_congr hask h _ (initMetadata env.atomic h _ m)

theorem deleteImm_congr (h : Handle) (fuel : Nat) :
    deleteImm (env.withAlloc f) h fuel = deleteImm env h fuel := by
  induction fuel with
  | zero => rfl
  | succ fuel ih =>
      funext metadata immediatelyDelete
      rw [deleteImm, deleteImm, ih]
      rfl

/-- A call asks the allocator no more than once, before it gives anything back. -/
theorem run_congr [Rounding] (hf : f w.heapLog = env.alloc w.heapLog) (op : Op) :
    op.run (env.withAlloc f).atomic w = op.run env.atomic w := by
  cases op with
  | insert h m => exact Prog.bind_congr (insert_congr hf h m) fun _ _ _ => rfl
  | deleteImm h m immediatelyDelete fuel =>
      have hdel : deleteImm (env.withAlloc f).atomic h fuel = deleteImm env.atomic h fuel :=
        @deleteImm_congr env.atomic f h fuel
      exact Prog.bind_congr (congrFun (congrFun (congrFun hdel m) immediatelyDelete) w)
        fun _ _ _ => rfl
  | purgeObjs => rfl
  | changeinfo h oid metadata => rfl
  | writedata h oid data => rfl

/-! ## Calls in the memory -/

structure SubaState where
  run : RunState
  allocator : Allocator

/-- The calls since `old`. -/
def since (old new : List HeapEvent) : List HeapEvent := new.take (new.length - old.length)

theorem since_append (es old : List HeapEvent) : since old (es ++ old) = es := by
  rw [since, List.length_append, Nat.add_sub_cancel, List.take_left]

/-- The allocator is asked in its memory, in which the calls since `log` are made. -/
def Env.above (env : Env) (log : List HeapEvent) (a : Allocator) : Env :=
  env.withAlloc fun es size => (a.calls (since log es)).bind (·.answer size)

/-- The memory after a call that has not stored its record yet: `kogmo_rtdb_obj_writedata`
stores it in the object's next slot. -/
def Op.stored [Rounding] (env : Env) (w w' : World) (a : Allocator) : Op → Allocator
  | .writedata h oid data =>
      match (KogmoRtdb.writedata w.db h oid data (env.now w.tick)).ret, w.db.findmetaById oid with
      | .ok _, some i =>
          let addr := (w.db.objmeta i).slotAddr
            (nextSlot (w.db.objmeta i).historySize (w.db.objmeta i).historySlot)
          a.put addr (w'.db.heap.window addr) (data.read32 20).toInt.toNat
      | _, _ => a
  | _ => a

def subaStep [Rounding] (env : Env) (heapSize : Int) (s : SubaState) (op : Op) :
    Option SubaState := do
  let run ← (apiLts (env.above s.run.world.heapLog s.allocator) heapSize).step s.run op
  let a ← s.allocator.calls (since s.run.world.heapLog run.world.heapLog)
  return ⟨run, op.stored env s.run.world run.world a⟩

/-- The database after `kogmo_rtdb_obj_mem_init` and the block that it keeps for itself. -/
def subaInitial (env : Env) (heapSize : Int) : Option SubaState := do
  let a ← memInit heapSize
  let w := World.initial (env.above [] a).atomic heapSize
  return ⟨⟨w, []⟩, ← a.calls w.heapLog⟩

def subaLts [Rounding] (env : Env) (heapSize : Int) : Lts SubaState Op where
  init s := subaInitial env heapSize = some s
  step := subaStep env heapSize

/-- What a call must meet: its oid comes from an insert or a search, and the block of an insert
fits the slots that it is for. -/
def BlockFits [Rounding] (env : Env) (s : RunState) : Op → Prop
  | .insert h metadata => metadata.refused = false → metadata.sizeMax < 2 ^ 31 ∧
      (initMetadata env h (env.now s.world.tick) metadata).Fits
  | .deleteImm _ metadata _ _ => metadata.oid ≠ 0
  | .writedata _ oid _ => oid ≠ 0
  | .purgeObjs => True
  | .changeinfo .. => True

instance [Rounding] (s : RunState) : DecidablePred (BlockFits env s)
  | .insert h metadata => inferInstanceAs (Decidable (metadata.refused = false →
      metadata.sizeMax < 2 ^ 31 ∧ (initMetadata env h (env.now s.world.tick) metadata).Fits))
  | .deleteImm _ metadata _ _ => inferInstanceAs (Decidable (metadata.oid ≠ 0))
  | .writedata _ oid _ => inferInstanceAs (Decidable (oid ≠ 0))
  | .purgeObjs | .changeinfo .. => isTrue trivial

/-! ## The rings -/

def RingAt (info : ObjInfo) : Prop :=
  ∃ n, Block info n ∧ -1 ≤ info.historySlot ∧ info.historySlot < n

theorem RingAt.of_same {info info' : ObjInfo} (hr : RingAt info) (hs : SameRing info info') :
    RingAt info' := by
  obtain ⟨n, hb, hlow, hhigh⟩ := hr
  refine ⟨n, hs.block hb, ?_, ?_⟩
  · rwa [hs.historySlot]
  · rwa [hs.historySlot]

theorem RingAt.next {info : ObjInfo} (hr : RingAt info) :
    ∃ n k : Nat, Block info n ∧ k < n ∧ nextSlot info.historySize info.historySlot = k := by
  obtain ⟨n, hb, hlow, hhigh⟩ := hr
  have hn := hb.pos
  refine ⟨n, ?_⟩
  unfold nextSlot
  split
  · exact ⟨0, hb, hn, rfl⟩
  · obtain ⟨k, hk⟩ := Int.eq_ofNat_of_zero_le (show 0 ≤ info.historySlot by omega)
    rw [hk, hb.historySize]
    exact ⟨(k + 1) % n, hb, Nat.mod_lt _ hn, (Int.ofNat_tmod (k + 1) n).symm⟩

/-- The block that an insert has in hand is that of its slots. -/
theorem ringAt_of_slotSearch [Rounding] {h : Handle} {ts : Timestamp} {m m' : ObjInfo}
    {foundSlot : Option Nat} {newIdx : Int} (ho : OwnedWorld limit w)
    (hf : AllocSound limit env.alloc) (hlimit : limit < 2 ^ 31) (hidx : m.bufferIdx = 0)
    (hslot : m.historySlot = -1)
    (hsize : m.sizeMax = 0 ∨ 24 ≤ m.sizeMax ∨ m.sizeMax = -2 ^ 31) (hfits : m.Fits)
    (hs : SlotSearch env.atomic h ts m w foundSlot newIdx m' w') (hne : m'.bufferIdx ≠ 0) :
    RingAt m' := by
  have hring {idx size : Int} (hblock : m.blockSize = size) (hpos : 0 < size) (h0 : 0 ≤ idx)
      (hend : idx + size ≤ limit) (hne : idx ≠ 0) : RingAt { m with bufferIdx := idx } := by
    obtain ⟨n, hb, -⟩ := exists_ring (P := fun _ => True) hlimit hsize hfits hblock hpos h0 hend
      (fun _ _ => trivial) hne
    exact ⟨n, hb, Int.le_of_eq hslot.symm, by dsimp only; omega⟩
  cases hs with
  | @reuse i hi =>
      obtain ⟨hocc, hblock⟩ := blockSize_of_reusable hi
      have hmem := ho.mem i ⟨hocc, hne⟩
      obtain ⟨h0, hend⟩ := ho.live.inside _ hmem
      exact hring hblock.symm (ho.live.pos _ hmem) h0 hend hne
  | dataless | noSlotDataless | noBlock => exact absurd hidx hne
  | block _ _ hpos halloc hge | noSlot _ _ hpos halloc hge =>
      exact hring rfl hpos hge (hf _ _ _ ho.live.legit hpos halloc).2.1 hne

/-! ## Following the calls -/

/-- Since `log`, where the memory was `a`, just the calls of the database have been made. -/
def MemoryFollows (heapSize : Int) (log : List HeapEvent) (a : Allocator) (w : World) : Prop :=
  ∃ es a', w.heapLog = es ++ log ∧ a.calls es = some a' ∧ InMemory heapSize w.heapLog w.db.heap a'

/-- With what keeps it so: every object has its block, and its slots are there. -/
structure HeapFollows (heapSize : Int) (log : List HeapEvent) (a : Allocator) (w : World) :
    Prop where
  owned : OwnedWorld heapSize w.accepted
  rings : ∀ i, (w.db.objmeta i).HasBlock → RingAt (w.db.objmeta i)
  memory : MemoryFollows heapSize log a w

variable {log : List HeapEvent} {a : Allocator}

namespace MemoryFollows

theorem congr (h : MemoryFollows heapSize log a w) (hlog : w'.heapLog = w.heapLog)
    (hheap : w'.db.heap = w.db.heap) : MemoryFollows heapSize log a w' := by
  unfold MemoryFollows
  rw [hlog, hheap]
  exact h

theorem allocated {size idx : Int} (h : MemoryFollows heapSize log a w) (hpos : 0 < size)
    (hsuba : suba heapSize w.heapLog size = some idx) :
    MemoryFollows heapSize log a (w.allocated idx size) := by
  obtain ⟨es, a', hes, hcalls, hin⟩ := h
  obtain ⟨a'', hcall, hin⟩ := hin.alloc hpos hsuba
  refine ⟨.alloc ⟨idx, size⟩ :: es, a'', congrArg (List.cons _) hes, ?_, hin⟩
  rw [Allocator.calls, hcalls, Option.bind_some, hcall]

theorem afterAlloc {size : Int} (h : MemoryFollows heapSize log a w)
    (halloc : env.alloc = suba heapSize) :
    MemoryFollows heapSize log a (w.afterAlloc env size) := by
  unfold World.afterAlloc
  split
  · exact h
  · split
    · exact h
    · rename_i hpos _ idx hsome
      exact h.allocated (Int.not_le.mp hpos) ((congrFun (congrFun halloc _) _).symm.trans hsome)

/-- A block is given back that is outstanding, or is none. -/
theorem release {idx : Int} {m : ObjInfo} (h : MemoryFollows heapSize log a w)
    (hmem : 0 < idx → ⟨idx, m.blockSize⟩ ∈ liveBlocks (acceptedCalls w.heapLog)) :
    MemoryFollows heapSize log a (w.release idx m) := by
  by_cases h0 : idx = 0
  · rw [h0, release_zero]
    exact h
  obtain ⟨es, a', hes, hcalls, hin⟩ := h
  obtain ⟨a'', hcall, hin⟩ : ∃ a'', a'.call (.free ⟨idx, m.blockSize⟩) = some a'' ∧
      InMemory heapSize (.free ⟨idx, m.blockSize⟩ :: w.heapLog) w.db.heap a'' := by
    by_cases hneg : idx < 0
    · exact ⟨a', hin.refused hneg⟩
    · exact hin.free (hmem (by omega))
  refine ⟨.free ⟨idx, m.blockSize⟩ :: es, a'', ?_, ?_, ?_⟩
  · rw [release_heapLog _ _ h0, hes]
    rfl
  · rw [Allocator.calls, hcalls, Option.bind_some, hcall]
  · rw [release_heapLog _ _ h0, release_heap]
    exact hin

end MemoryFollows

theorem follows_effect (h : HeapFollows heapSize log a w) (he : Effect env w w') :
    HeapFollows heapSize log a w' := by
  refine ⟨ownedAccepted_effect h.owned he, fun i hi => ?_, ?_⟩
  · have hs := sameRing_effect he i hi.1
    exact (h.rings i ⟨by rw [← hs.oid]; exact hi.1, by rw [← hs.bufferIdx]; exact hi.2⟩).of_same hs
  · cases he with
    | idle hdb hlog => exact h.memory.congr hlog (congrArg Db.heap hdb)
    | mark | change => exact h.memory.congr rfl rfl
    | @purge i hocc =>
        have hrel : MemoryFollows heapSize log a
            (w.release (w.db.objmeta i).bufferIdx (w.db.objmeta i)) :=
          h.memory.release fun hpos => h.owned.mem i ⟨hocc, Int.ne_of_gt hpos⟩
        refine hrel.congr (purged_heapLog ..) ?_
        rw [purged_heap, release_heap]

section Insert

variable {h : Handle} {ts : Timestamp} {m m' : ObjInfo} {foundSlot : Option Nat} {newIdx : Int}
  {w₁ : World} {r : Result × ObjInfo}

theorem memoryFollows_slotSearch [Rounding] (hm : MemoryFollows heapSize log a w)
    (halloc : env.alloc = suba heapSize)
    (hs : SlotSearch env.atomic h ts m w foundSlot newIdx m' w₁) :
    MemoryFollows heapSize log a w₁ := by
  have hlock {w : World} (h : MemoryFollows heapSize log a w) :
      MemoryFollows heapSize log a (w.lock env.atomic) :=
    h.congr (atomic_lock_heapLog _) (congrArg Db.heap (atomic_lock_db _))
  have hunlock : MemoryFollows heapSize log a w.unlock := hm.congr rfl rfl
  have hblock {idx : Int} (hpos : 0 < m.blockSize)
      (hsome : env.alloc w.heapLog m.blockSize = some idx) :
      MemoryFollows heapSize log a ((w.unlock.allocated idx m.blockSize).lock env.atomic) :=
    hlock (hunlock.allocated hpos ((congrFun (congrFun halloc _) _).symm.trans hsome))
  cases hs with
  | reuse | noSlotDataless => exact hm
  | dataless => exact hm.congr rfl rfl
  | noBlock => exact hlock (hunlock.afterAlloc (show env.atomic.alloc = _ from halloc))
  | block _ _ hpos hsome _ hw => exact (hw ▸ hblock hpos hsome).congr rfl rfl
  | noSlot _ _ hpos hsome _ hw => exact hw ▸ hblock hpos hsome

theorem rings_finish (hh : InHand heapSize w.accepted foundSlot newIdx m)
    (hrings : ∀ i, (w.db.objmeta i).HasBlock → RingAt (w.db.objmeta i))
    (hring : m.bufferIdx ≠ 0 → RingAt m) (hf : Finish newIdx m w foundSlot r w') :
    ∀ i, (w'.db.objmeta i).HasBlock → RingAt (w'.db.objmeta i) := by
  cases hf with
  | notUniq hu =>
      rw [release_objmeta]
      exact hrings
  | noSlot hu => exact hrings
  | @noOid i hu hle =>
      intro j hj
      change (((w.write (·.setMeta i m)).oidTaken.release m.bufferIdx m).db.objmeta j).HasBlock
        at hj
      change RingAt (((w.write (·.setMeta i m)).oidTaken.release m.bufferIdx m).db.objmeta j)
      rw [release_objmeta] at hj ⊢
      by_cases hji : j = i
      · subst hji
        have heq : (w.write (·.setMeta j m)).oidTaken.db.objmeta j = m :=
          Db.setMeta_objmeta_self ..
        exact absurd ((congrArg ObjInfo.oid heq).trans hh.oid) hj.1
      · have heq : (w.write (·.setMeta i m)).oidTaken.db.objmeta j = w.db.objmeta j :=
          Function.update_of_ne hji _ _
        rw [heq] at hj ⊢
        exact hrings j hj
  | @entered i oid hu hoid hpos =>
      intro j hj
      change ((Function.update (Function.update w.db.objmeta i m) i
        { m.withParent oid with oid := oid }) j).HasBlock at hj
      change RingAt ((Function.update (Function.update w.db.objmeta i m) i
        { m.withParent oid with oid := oid }) j)
      rw [Function.update_idem] at hj ⊢
      by_cases hji : j = i
      · subst hji
        rw [Function.update_self] at hj ⊢
        have hsame : m.withParent oid = m ∨ m.withParent oid = { m with parentOid := 1 } := by
          unfold ObjInfo.withParent
          split
          · exact Or.inr rfl
          · exact Or.inl rfl
        have hidx : m.bufferIdx ≠ 0 := fun h0 => hj.2 (by
          rcases hsame with heq | heq <;> rw [heq] <;> exact h0)
        obtain ⟨n, hb, hlow, hhigh⟩ := hring hidx
        rcases hsame with heq | heq <;> rw [heq] <;>
          exact ⟨n, ⟨hb.historySize, hb.pos, hb.sizeMin, hb.idx, hb.bound⟩, hlow, hhigh⟩
      · rw [Function.update_of_ne hji] at hj ⊢
        exact hrings j hj

theorem memoryFollows_finish (hh : InHand heapSize w.accepted foundSlot newIdx m)
    (hm : MemoryFollows heapSize log a w) (hf : Finish newIdx m w foundSlot r w') :
    MemoryFollows heapSize log a w' := by
  cases hf with
  | notUniq hu =>
      have hunlock : MemoryFollows heapSize log a w.unlock := hm.congr rfl rfl
      refine hunlock.release fun hpos => ?_
      rcases hh.new (by omega) with hneg | ⟨hidx, -⟩
      · omega
      · rw [hidx]
        exact (hh.block (by omega)).1
  | noSlot hu => exact hm
  | @noOid i hu hle =>
      have htaken : MemoryFollows heapSize log a (w.write (·.setMeta i m)).oidTaken :=
        hm.congr rfl rfl
      have hrel : MemoryFollows heapSize log a
          ((w.write (·.setMeta i m)).oidTaken.release m.bufferIdx m) :=
        htaken.release fun hpos => (hh.block (by omega)).1
      exact hrel.congr rfl rfl
  | entered hu hoid hpos => exact hm.congr rfl rfl

theorem follows_insert [Rounding] {metadata : ObjInfo} (hf : HeapFollows heapSize log a w)
    (halloc : env.alloc = suba heapSize) (hsize : 1160 ≤ heapSize) (hlimit : heapSize < 2 ^ 31)
    (hfits : metadata.refused = false → metadata.sizeMax < 2 ^ 31 ∧
      (initMetadata env h (env.now w.tick) metadata).Fits)
    (hrun : insert env.atomic h metadata w = some (r, w')) : HeapFollows heapSize log a w' := by
  have hsound : AllocSound heapSize env.alloc := halloc ▸ suba_sound hsize
  have hrefuses : RefusesNegative env.alloc := halloc ▸ suba_refusesNegative heapSize
  rcases insert_accepted hsound hrefuses hf.owned hrun with
    ⟨-, -, rfl⟩ | ⟨href, foundSlot, newIdx, m', w₁, hs, hs', hh, hfin⟩
  · exact ⟨hf.owned, hf.rings, hf.memory.congr rfl rfl⟩
  · obtain ⟨hmax, hfits⟩ := hfits href
    have hdb : (w.ask.lock env.atomic).db = w.db := atomic_lock_db w.ask
    have hlog : (w.ask.lock env.atomic).heapLog = w.heapLog := atomic_lock_heapLog w.ask
    have howned : OwnedWorld heapSize (w.ask.lock env.atomic).accepted := by
      unfold OwnedWorld World.accepted
      rw [hdb, hlog]
      exact hf.owned
    have hrings : ∀ i, (w₁.db.objmeta i).HasBlock → RingAt (w₁.db.objmeta i) := by
      rw [hs.db_eq.1, hdb]
      exact hf.rings
    have hmemory : MemoryFollows heapSize log a w₁ :=
      memoryFollows_slotSearch (hf.memory.congr hlog (congrArg Db.heap hdb)) halloc hs
    have hring : m'.bufferIdx ≠ 0 → RingAt m' :=
      ringAt_of_slotSearch howned hsound hlimit rfl rfl (sizeMax_initMetadata href hmax) hfits hs'
    exact ⟨ownedAccepted_finish hh hfin, rings_finish hh hrings hring hfin,
      memoryFollows_finish hh hmemory hfin⟩

end Insert

/-! ## Steps -/

def Running (heapSize : Int) (s : SubaState) : Prop :=
  HeapFollows heapSize s.run.world.heapLog s.allocator s.run.world

variable {s : SubaState} {op : Op} {r : RunState}

theorem InMemory.follows (hm : InMemory heapSize w.heapLog w.db.heap a) :
    MemoryFollows heapSize w.heapLog a w := ⟨[], a, rfl, rfl, hm⟩

theorem MemoryFollows.exists_calls (hm : MemoryFollows heapSize log a w) :
    ∃ a', a.calls (since log w.heapLog) = some a' ∧ InMemory heapSize w.heapLog w.db.heap a' := by
  obtain ⟨es, a', hes, hcalls, hin⟩ := hm
  refine ⟨a', ?_, hin⟩
  rw [hes, since_append]
  exact hcalls

theorem MemoryFollows.inMemory (hm : MemoryFollows heapSize w.heapLog a w) :
    InMemory heapSize w.heapLog w.db.heap a := by
  obtain ⟨a', hcalls, hin⟩ := hm.exists_calls
  rw [show since w.heapLog w.heapLog = [] from since_append [] _] at hcalls
  cases hcalls
  exact hin

theorem rings_storeRecord {db : Db} {i n k size : Nat} {src : Mem} {committedTs : Timestamp}
    (hb : Block (db.objmeta i) n) (hk : k < n)
    (hrings : ∀ j, (db.objmeta j).HasBlock → RingAt (db.objmeta j)) (j : Nat)
    (hj : ((storeRecord db i k src size committedTs).objmeta j).HasBlock) :
    RingAt ((storeRecord db i k src size committedTs).objmeta j) := by
  unfold storeRecord at hj ⊢
  dsimp only at hj ⊢
  by_cases hji : j = i
  · subst hji
    rw [Db.setMeta_objmeta_self]
    exact ⟨n, ⟨hb.historySize, hb.pos, hb.sizeMin, hb.idx, hb.bound⟩, by dsimp only; omega,
      by dsimp only; omega⟩
  · rw [Db.setMeta_objmeta_ne hji] at hj ⊢
    exact hrings j hj

theorem inMemory_storeRecord {db : Db} {i n k size : Nat} {src : Mem} {committedTs : Timestamp}
    (hm : InMemory heapSize w.heapLog w.db.heap a) (hb : Block (w.db.objmeta i) n) (hk : k < n)
    (hmem : (w.db.objmeta i).heapBlock ∈ liveBlocks (acceptedCalls w.heapLog))
    (hmax : (size : Int) ≤ (w.db.objmeta i).sizeMax)
    (hdb : db = storeRecord w.db i k src size committedTs) :
    InMemory heapSize w.heapLog db.heap
      (a.put ((w.db.objmeta i).slotAddr k)
        (db.heap.window ((w.db.objmeta i).slotAddr k)) size) := by
  obtain ⟨hlo, hhi⟩ := hb.slot_range hk
  have hend : (w.db.objmeta i).slotAddr k + size ≤
      (w.db.objmeta i).heapBlock.idx + (w.db.objmeta i).heapBlock.size := by
    unfold ObjInfo.heapBlock
    dsimp only
    omega
  have hheap : db.heap = w.db.heap.put ((w.db.objmeta i).slotAddr k)
      (db.heap.window ((w.db.objmeta i).slotAddr k)) size := by
    rw [hdb, storeRecord]
    exact (Heap.put_window_put ..).symm
  have hin := hm.put hmem hlo hend (db.heap.window ((w.db.objmeta i).slotAddr k))
  rwa [← hheap] at hin

theorem follows_write [Rounding] {h : Handle} {oid : ObjId} {data : Mem} {out : WriteOut}
    (hf : HeapFollows heapSize w.heapLog a w) (hoid : oid ≠ 0)
    (hout : out = writedata w.db h oid data (env.now w.tick)) :
    HeapFollows heapSize w.heapLog
      (Op.stored env w { w.ask with db := out.db } a (.writedata h oid data))
      { w.ask with db := out.db } := by
  have howned : OwnedWorld heapSize ({ w.ask with db := out.db } : World).accepted :=
    ownedWorld_write (w := w.accepted) hf.owned hout
  unfold Op.stored
  dsimp only
  rw [← hout]
  rcases writedata_cases hout with
    ⟨e, hret, hdb⟩ | ⟨i, hfound, hidx, hmin, hmax, hret, hdb⟩
  · rw [hret]
    refine ⟨howned, ?_, hf.memory.congr rfl (congrArg Db.heap hdb)⟩
    show ∀ i, (out.db.objmeta i).HasBlock → RingAt (out.db.objmeta i)
    rw [hdb]
    exact hf.rings
  · rw [hret, hfound]
    have hblock : (w.db.objmeta i).HasBlock := ⟨by rwa [(Db.findmetaById_some hfound).2], hidx⟩
    obtain ⟨n, k, hb, hk, hnext⟩ := (hf.rings i hblock).next
    rw [hnext] at hdb
    refine ⟨howned, ?_, InMemory.follows ?_⟩
    · show ∀ j, (out.db.objmeta j).HasBlock → RingAt (out.db.objmeta j)
      rw [hdb]
      exact rings_storeRecord hb hk hf.rings
    · show InMemory heapSize w.heapLog out.db.heap (a.put
        ((w.db.objmeta i).slotAddr (nextSlot (w.db.objmeta i).historySize
          (w.db.objmeta i).historySlot)) _ _)
      rw [hnext]
      exact inMemory_storeRecord hf.memory.inMemory hb hk (hf.owned.mem i hblock) (by omega) hdb

/-- The allocator of the default build, as the database sees it. -/
def Env.withSuba (env : Env) (heapSize : Int) : Env := env.withAlloc (suba heapSize)

/-- A call goes in the memory as it goes with what is known of the calls before. -/
theorem step_above [Rounding] (hs : Running heapSize s) :
    (apiLts (env.above s.run.world.heapLog s.allocator) heapSize).step s.run op =
      (apiLts (env.withSuba heapSize) heapSize).step s.run op := by
  have hanswer : (env.above s.run.world.heapLog s.allocator).alloc s.run.world.heapLog =
      suba heapSize s.run.world.heapLog := by
    funext size
    show (s.allocator.calls (since _ _)).bind (·.answer size) = _
    rw [show since s.run.world.heapLog s.run.world.heapLog = [] from since_append [] _]
    exact (hs.memory.inMemory.answer_eq size).symm
  exact congrArg (Option.map _) (@run_congr (env.withSuba heapSize) _ _ _ hanswer op)

theorem steps_of_run [Rounding] {events : List ApiEvent}
    (hins : ∀ h metadata, op ≠ .insert h metadata)
    (hwrite : ∀ h oid data, op ≠ .writedata h oid data)
    (hoid : ∀ h metadata imm fuel, op = .deleteImm h metadata imm fuel → metadata.oid ≠ 0)
    (hrun : op.run env.atomic w = some (events, w')) : Steps env w w' := by
  rcases op_cases hoid hrun with ⟨h, metadata, _, hop, -⟩ | ⟨h, oid, data, _, hop, -⟩ | ⟨hsteps, -⟩
  · exact absurd hop (hins h metadata)
  · exact absurd hop (hwrite h oid data)
  · exact hsteps

theorem running_step [Rounding] (hsize : 1160 ≤ heapSize) (hlimit : heapSize < 2 ^ 31)
    (hs : Running heapSize s) (hg : BlockFits env s.run op)
    (hstep : (apiLts (env.withSuba heapSize) heapSize).step s.run op = some r) :
    ∃ a, subaStep env heapSize s op = some ⟨r, a⟩ ∧ Running heapSize ⟨r, a⟩ := by
  have hstored {a' : Allocator}
      (hf : HeapFollows heapSize s.run.world.heapLog s.allocator r.world)
      (hcalls : s.allocator.calls (since s.run.world.heapLog r.world.heapLog) = some a')
      (hin : InMemory heapSize r.world.heapLog r.world.db.heap
        (op.stored env s.run.world r.world a')) :
      ∃ a, subaStep env heapSize s op = some ⟨r, a⟩ ∧ Running heapSize ⟨r, a⟩ := by
    refine ⟨_, ?_, hf.owned, hf.rings, hin.follows⟩
    unfold subaStep
    rw [step_above hs, hstep, Option.bind_eq_bind, Option.bind_some, hcalls]
    rfl
  have hsuba : (env.withSuba heapSize).alloc = suba heapSize := rfl
  obtain ⟨events, hrun, -⟩ := apiLts_step hstep
  obtain ⟨w', log⟩ := r
  cases op with
  | insert h metadata =>
      obtain ⟨_, w, hins, hend⟩ := Prog.bind_some.mp hrun
      cases hend
      have hf := follows_insert hs hsuba hsize hlimit hg hins
      obtain ⟨a', hcalls, hin⟩ := hf.memory.exists_calls
      exact hstored hf hcalls hin
  | writedata h oid data =>
      obtain ⟨_, w, hwrite, hend⟩ := Prog.bind_some.mp hrun
      cases hwrite
      cases hend
      refine ⟨_, ?_, follows_write hs hg rfl⟩
      unfold subaStep
      rw [step_above hs, hstep, Option.bind_eq_bind, Option.bind_some]
      show (s.allocator.calls (since s.run.world.heapLog s.run.world.heapLog)).bind _ = _
      rw [show since s.run.world.heapLog s.run.world.heapLog = [] from since_append [] _]
      rfl
  | deleteImm h metadata imm fuel =>
      have hsteps := steps_of_run (fun _ _ h => by cases h) (fun _ _ _ h => by cases h)
        (fun _ _ _ _ h => by cases h; exact hg) hrun
      have hf := hsteps.invariant (fun _ _ => follows_effect) hs
      obtain ⟨a', hcalls, hin⟩ := hf.memory.exists_calls
      exact hstored hf hcalls hin
  | purgeObjs | changeinfo =>
      have hsteps := steps_of_run (fun _ _ h => by cases h) (fun _ _ _ h => by cases h)
        (fun _ _ _ _ h => by cases h) hrun
      have hf := hsteps.invariant (fun _ _ => follows_effect) hs
      obtain ⟨a', hcalls, hin⟩ := hf.memory.exists_calls
      exact hstored hf hcalls hin

theorem running_initial [Rounding] (hsize : 1160 ≤ heapSize)
    (hs : subaInitial env heapSize = some s) :
    Running heapSize s ∧ (apiLts (env.withSuba heapSize) heapSize).init s.run := by
  obtain ⟨a, hinit, hs⟩ := Option.bind_eq_some_iff.mp hs
  obtain ⟨a', hcalls, hs⟩ := Option.bind_eq_some_iff.mp hs
  cases hs
  have hin : InMemory heapSize [] (Db.initial heapSize).heap a := .initial hsize hinit _
  have hworld : World.initial (env.above [] a).atomic heapSize =
      World.initial (env.withSuba heapSize).atomic heapSize := by
    have hanswer : (env.above [] a).alloc [] 2 = suba heapSize [] 2 := (hin.answer_eq 2).symm
    unfold World.initial World.afterAlloc
    rw [show (env.above [] a).atomic.alloc [] 2 = (env.withSuba heapSize).atomic.alloc [] 2 from
      hanswer]
  rw [hworld] at hcalls ⊢
  have hstart : MemoryFollows heapSize [] a
      ⟨Db.initial heapSize, false, false, [], 0⟩ := ⟨[], a, rfl, rfl, hin⟩
  have hm : MemoryFollows heapSize [] a
      (World.initial (env.withSuba heapSize).atomic heapSize) :=
    MemoryFollows.afterAlloc hstart (show (env.withSuba heapSize).atomic.alloc = _ from rfl)
  obtain ⟨a'', hcalls', hin⟩ := hm.exists_calls
  rw [since, List.length_nil, Nat.sub_zero, List.take_length, hcalls] at hcalls'
  cases hcalls'
  refine ⟨⟨ownedAccepted_initial (suba_sound hsize), fun i hi => ?_, hin.follows⟩, rfl⟩
  exact absurd (initial_oid _ _ i) hi.1

/-- The guarded runs in the memory are those of the database with its allocator. -/
theorem running_of_guarded [Rounding] (hsize : 1160 ≤ heapSize) (hlimit : heapSize < 2 ^ 31)
    (h : (subaLts env heapSize).Guarded (fun s => BlockFits env s.run) s) :
    Running heapSize s ∧
      (apiLts (env.withSuba heapSize) heapSize).Guarded (BlockFits env) s.run := by
  refine h.invariant (I := fun s => Running heapSize s ∧
    (apiLts (env.withSuba heapSize) heapSize).Guarded (BlockFits env) s.run)
    (fun s hs => ?_) fun s op s' hI hg hs => ?_
  · obtain ⟨hr, hinit⟩ := running_initial hsize hs
    exact ⟨hr, .init hinit⟩
  · obtain ⟨hr, hrun⟩ := hI
    obtain ⟨r, hstep, hrest⟩ := Option.bind_eq_some_iff.mp hs
    rw [step_above hr] at hstep
    obtain ⟨a, hstep', hr'⟩ := running_step hsize hlimit hr hg hstep
    cases hs.symm.trans hstep'
    exact ⟨hr', .step hrun hg hstep⟩

/-- The heap below the database, whose calls go in the memory as they go with `suba`: in every run
of calls whose oids come from inserts and searches and whose blocks fit their slots, the free list
can be followed in the memory and accounts for all of it that is not in use; the objects' buffers
are apart from each other, from the free cells and from the allocator's header; and they hold the
records that the database has stored. -/
theorem heap_inOrder_of_guarded [Rounding] {env : Env} {s : SubaState} (hsize : 1160 ≤ heapSize)
    (hlimit : heapSize < 2 ^ 31)
    (h : (subaLts env heapSize).Guarded (fun s => BlockFits env s.run) s) :
    (apiLts (env.withSuba heapSize) heapSize).Guarded (BlockFits env) s.run ∧
    (∀ op r, BlockFits env s.run op →
      (apiLts (env.withSuba heapSize) heapSize).step s.run op = some r →
        ∃ a, subaStep env heapSize s op = some ⟨r, a⟩) ∧
    ∃ gaps, subaFreeList s.allocator = some gaps ∧
      s.allocator.freeTotal ≤ s.allocator.allocTotal ∧
      hdrsiz + ((s.allocator.allocTotal - s.allocator.freeTotal) +
        (gaps.map fun g => poff + g.size).sum) = heapSize ∧
      ∀ i, (s.run.world.db.objmeta i).HasBlock →
        let b := (s.run.world.db.objmeta i).heapBlock
        hdrsiz + poff ≤ b.idx ∧ b.idx + b.size + poff ≤ heapSize ∧
        (∀ g ∈ gaps, b.idx + b.size ≤ g.ref ∨ (Gaps.stop poff g : Int) + poff ≤ b.idx) ∧
        (∀ j ≠ i, (s.run.world.db.objmeta j).HasBlock →
          b.Apart (s.run.world.db.objmeta j).heapBlock) ∧
        ∀ addr, b.idx ≤ addr → addr < b.idx + b.size →
          s.allocator.heap addr = s.run.world.db.heap addr := by
  obtain ⟨hr, hrun⟩ := running_of_guarded hsize hlimit h
  refine ⟨hrun, fun op r hg hstep => ?_, ?_⟩
  · obtain ⟨a, hstep', -⟩ := running_step hsize hlimit hr hg hstep
    exact ⟨a, hstep'⟩
  obtain ⟨_, cs, ht⟩ := hr.memory.inMemory
  obtain ⟨hle, hsum⟩ := ht.inOrder.accounts
  refine ⟨_, ht.inOrder.list.freeList_eq, hle, by omega, fun i hi => ?_⟩
  have hmem : (s.run.world.db.objmeta i).heapBlock ∈
      liveBlocks (acceptedCalls s.run.world.heapLog) := hr.owned.mem i hi
  obtain ⟨hlo, hhi⟩ := ht.inOrder.serves.inside ht.inOrder.list hmem
  have hsz := ht.inOrder.size
  refine ⟨by omega, by omega, fun g hg => ?_, fun j hij hj => ?_, ht.same _ hmem⟩
  · exact ht.inOrder.serves.gap_apart ht.inOrder.list hmem hg
  · exact hr.owned.live.apart_of_idx_ne hmem (hr.owned.mem j hj) (hr.owned.excl i j hij.symm hi hj)

/-- An object, then one with the same name and type, unique and too big for the heap: the block that
never was is refused. A record is stored in the first. -/
theorem heap_inOrder_of_guarded_refused :
    ∃ (s : SubaState) (gaps : List Cell), subaFreeList s.allocator = some gaps ∧
      s.run.world.heapLog.length = 3 ∧ ¬ LegitFrees s.run.world.heapLog ∧
      s.allocator.heap ((s.run.world.db.objmeta 0).bufferIdx + 24) = 7 := by
  obtain ⟨s, hr, hp⟩ := (subaLts (exampleEnv 4096) 4096).exists_of_execGuarded
    (G := fun s => BlockFits (exampleEnv 4096) s.run)
    (g := fun s op => decide (BlockFits (exampleEnv 4096) s.run op))
    (fun _ _ => of_decide_eq_true)
    [.insert aProcess anObject,
      .insert aProcess { aBigObject with flags := { unique := true } },
      .writedata aProcess 1 aRecord]
    (fun s => decide (((s.run.world.db.objmeta 0).oid ≠ 0 ∧
        (s.run.world.db.objmeta 0).bufferIdx ≠ 0) ∧ s.run.world.heapLog.length = 3 ∧
      ¬ LegitFrees s.run.world.heapLog ∧
      (s.run.world.db.objmeta 0).blockSize = 64 ∧
      s.run.world.db.heap ((s.run.world.db.objmeta 0).bufferIdx + 24) = 7))
    (s := (subaInitial (exampleEnv 4096) 4096).get (by decide +kernel))
    (Option.some_get _).symm (by decide +kernel)
  obtain ⟨hi, hlen, hlegit, hsize, h7⟩ := of_decide_eq_true hp
  obtain ⟨-, -, gaps, hgaps, -, -, hblocks⟩ := heap_inOrder_of_guarded (by decide) (by decide) hr
  obtain ⟨-, -, -, -, hsame⟩ := hblocks 0 hi
  unfold ObjInfo.heapBlock at hsame
  dsimp only at hsame
  exact ⟨s, gaps, hgaps, hlen, hlegit, (hsame _ (by omega) (by omega)).trans h7⟩

end KogmoRtdb
