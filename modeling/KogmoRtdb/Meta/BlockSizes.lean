import KogmoRtdb.Meta.Ownership

/-!
# The size of a block

An object's block is asked for by `size_max * history_size` bytes, a product of `int32_t`s
that wraps, and its slots are addressed by multiples of `size_max`. `BlockTable` says that
an occupied slot names a block that was handed out with that many bytes, or no block where
the product has wrapped to 0. So everything is exact if and only if the product has not
left the 32-bit range.
-/

namespace KogmoRtdb

variable {env : Env} {h : Handle} {ts : Timestamp} {m m' : ObjInfo} {foundSlot : Option Nat}
  {newIdx limit : Int} {w w' w₁ : World} {r : Result × ObjInfo}

/-- What the build's allocator does at the start: the first request is met, and from
then on index 0 is not handed out. -/
structure HeapInit (alloc : List HeapEvent → Int → Option Int) : Prop where
  first : ∃ idx, alloc [] 2 = some idx
  later : ∀ es size b, .alloc b ∈ es → 0 ≤ b.idx → 0 < b.size → alloc es size ≠ some 0

/-! ## Blocks and slots -/

def Started (es : List HeapEvent) : Prop :=
  ∃ b, HeapEvent.alloc b ∈ es ∧ 0 ≤ b.idx ∧ 0 < b.size

/-- The block of the object, if it is one, was handed out with its size. -/
def HandedOut (es : List HeapEvent) (info : ObjInfo) : Prop :=
  (info.bufferIdx = 0 → info.blockSize = 0) ∧
    (info.bufferIdx ≠ 0 → HeapEvent.alloc info.heapBlock ∈ es)

structure BlockTable (w : World) : Prop where
  handed : ∀ i, (w.db.objmeta i).oid ≠ 0 → HandedOut w.heapLog (w.db.objmeta i)
  started : Started w.heapLog

theorem HandedOut.mono {es es' : List HeapEvent} {info : ObjInfo} (hh : HandedOut es info)
    (hlog : ∀ e ∈ es, e ∈ es') : HandedOut es' info := ⟨hh.1, fun hne => hlog _ (hh.2 hne)⟩

theorem HandedOut.congr {es : List HeapEvent} {info info' : ObjInfo} (hh : HandedOut es info)
    (hblock : info'.heapBlock = info.heapBlock) : HandedOut es info' := by
  have hidx : info'.bufferIdx = info.bufferIdx := congrArg HeapBlock.idx hblock
  have hsize : info'.blockSize = info.blockSize := congrArg HeapBlock.size hblock
  unfold HandedOut
  rw [hidx, hsize, hblock]
  exact hh

theorem Started.mono {es es' : List HeapEvent} (hs : Started es) (hlog : ∀ e ∈ es, e ∈ es') :
    Started es' := by
  obtain ⟨b, hmem, hb⟩ := hs
  exact ⟨b, hlog _ hmem, hb⟩

theorem Started.idx_ne (hs : Started w.heapLog) (ha : HeapInit env.alloc) {size idx : Int}
    (halloc : env.alloc w.heapLog size = some idx) : idx ≠ 0 := by
  obtain ⟨b, hmem, hidx, hpos⟩ := hs
  exact fun h0 => ha.later _ _ b hmem hidx hpos (h0 ▸ halloc)

theorem mem_release_heapLog {idx : Int} {m : ObjInfo} {e : HeapEvent} (he : e ∈ w.heapLog) :
    e ∈ (w.release idx m).heapLog := by
  unfold World.release
  split
  · exact List.mem_cons_of_mem _ he
  · exact he

namespace BlockTable

theorem of_objmeta_eq (hb : BlockTable w) (hobj : w'.db.objmeta = w.db.objmeta)
    (hlog : ∀ e ∈ w.heapLog, e ∈ w'.heapLog) : BlockTable w' := by
  refine ⟨fun i hi => ?_, hb.started.mono hlog⟩
  rw [hobj] at hi ⊢
  exact (hb.handed i hi).mono hlog

theorem update {i : Nat} {info : ObjInfo} (hb : BlockTable w)
    (hobj : w'.db.objmeta = Function.update w.db.objmeta i info)
    (hinfo : info.oid ≠ 0 → HandedOut w.heapLog info)
    (hlog : ∀ e ∈ w.heapLog, e ∈ w'.heapLog) : BlockTable w' := by
  refine ⟨fun j hj => ?_, hb.started.mono hlog⟩
  rw [hobj] at hj ⊢
  by_cases hji : j = i
  · rw [hji, Function.update_self] at hj ⊢
    exact (hinfo hj).mono hlog
  · rw [Function.update_of_ne hji] at hj ⊢
    exact (hb.handed j hj).mono hlog

end BlockTable

theorem keepsEffects_blockTable : KeepsEffects env False BlockTable where
  idle w w' hw hdb hlog := hw.of_objmeta_eq (by rw [hdb]) fun e he => by rwa [hlog]
  mark w i k proc hw _ := hw.update rfl (fun hocc => (hw.handed i hocc).congr rfl) fun _ he => he
  purge w i hw _ :=
    hw.update (purged_objmeta i w) (fun hne => absurd rfl hne) fun _ he => mem_release_heapLog he

/-! ## Inserts -/

theorem blockTable_slotSearch [Rounding] (hb : BlockTable w) (ha : HeapInit env.alloc)
    (hidx : m.bufferIdx = 0) (hs : SlotSearch env.atomic h ts m w foundSlot newIdx m' w₁) :
    BlockTable w₁ ∧ (foundSlot ≠ none → HandedOut w₁.heapLog m') := by
  cases hs with
  | @reuse i hi =>
      obtain ⟨hocc, hsize⟩ := blockSize_of_reusable hi
      refine ⟨hb, fun _ => (hb.handed i hocc).congr ?_⟩
      exact congrArg (HeapBlock.mk (w.db.objmeta i).bufferIdx) hsize.symm
  | dataless hnone h0 hi =>
      refine ⟨hb.of_objmeta_eq rfl fun _ he => he,
        fun _ => ⟨fun _ => ?_, fun hne => absurd hidx hne⟩⟩
      rw [ObjInfo.blockSize, h0, Int.zero_mul]
      rfl
  | noSlotDataless hnone h0 hi => exact ⟨hb, fun hne => absurd rfl hne⟩
  | noBlock hnone h0 hneg halloc =>
      refine ⟨hb.of_objmeta_eq ?_ fun e he => ?_, fun hne => absurd rfl hne⟩
      · rw [atomic_lock_db]
        unfold World.afterAlloc
        split
        · rfl
        · split <;> rfl
      · rw [atomic_lock_heapLog]
        unfold World.afterAlloc
        split
        · exact he
        · split
          · exact he
          · exact List.mem_cons_of_mem _ he
  | block hnone h0 hpos halloc hge hw hi =>
      subst hw
      refine ⟨hb.of_objmeta_eq rfl fun _ he => List.mem_cons_of_mem _ he, fun _ => ⟨fun h => ?_,
        fun _ => List.mem_cons_self⟩⟩
      exact absurd h (hb.started.idx_ne ha halloc)
  | noSlot hnone h0 hpos halloc hge hw hi =>
      subst hw
      exact ⟨hb.of_objmeta_eq rfl fun _ he => List.mem_cons_of_mem _ he, fun hne => absurd rfl hne⟩

theorem blockTable_finish (hb : BlockTable w)
    (hm : foundSlot ≠ none → HandedOut w.heapLog m) (hoid : m.oid = 0)
    (hf : Finish newIdx m w foundSlot r w') : BlockTable w' := by
  cases hf with
  | notUniq hu =>
      exact hb.of_objmeta_eq (release_objmeta newIdx m w.unlock) fun _ he => mem_release_heapLog he
  | noSlot hu => exact hb
  | @noOid i hu hle =>
      exact hb.update (release_objmeta ..) (fun hne => absurd hoid hne)
        fun _ he => mem_release_heapLog he
  | @entered i oid hu hnew hpos =>
      have hnew : BlockTable ((w.write (·.setMeta i m)).oidTaken.write
          (·.setMeta i { m.withParent oid with oid := oid })).unlock :=
        hb.update (Function.update_idem ..)
          (fun _ => (hm (Option.some_ne_none i)).congr (heapBlock_withParent m oid)) fun _ he => he
      exact hnew

theorem blockTable_insert [Rounding] {metadata : ObjInfo} (hb : BlockTable w)
    (ha : HeapInit env.alloc)
    (hrun : insert env.atomic h metadata w = some (r, w')) : BlockTable w' := by
  rcases insert_some hrun with ⟨-, -, rfl⟩ | ⟨-, foundSlot, newIdx, m', w₁, hs, hfin⟩
  · exact hb.of_objmeta_eq rfl fun _ he => he
  have hb' : BlockTable (w.ask.lock env.atomic) :=
    hb.of_objmeta_eq (by rw [atomic_lock_db]; rfl) fun _ he => by rwa [atomic_lock_heapLog]
  obtain ⟨hb₁, hm⟩ := blockTable_slotSearch hb' ha rfl hs
  exact blockTable_finish hb₁ hm hs.db_eq.2.2 hfin

/-! ## Runs -/

theorem blockTable_initial {heapSize : Int} (ha : HeapInit env.alloc)
    (hge : ∀ idx, env.alloc [] 2 = some idx → 0 ≤ idx) :
    BlockTable (World.initial env.atomic heapSize) := by
  obtain ⟨idx, hidx⟩ := ha.first
  have hinit : World.initial env.atomic heapSize =
      World.allocated idx 2 ⟨Db.initial heapSize, false, false, [], 0⟩ :=
    afterAlloc_of_some (by decide) hidx
  rw [hinit]
  exact ⟨fun i hi => absurd rfl hi, ⟨idx, 2⟩, List.mem_cons_self, hge idx hidx,
    (by decide : (0 : Int) < 2)⟩

/-- One call keeps the table's blocks to those handed out. -/
theorem blockTable_step [Rounding] {heapSize : Int} {s s' : RunState} {op : Op}
    (ha : HeapInit env.alloc)
    (hb : BlockTable s.world) (hs : (apiLts env heapSize).step s op = some s') :
    BlockTable s'.world := by
  obtain ⟨events, hrun, -⟩ := apiLts_step hs
  have hchange : ∀ h oid metadata, op = .changeinfo h oid metadata →
      KeepsChange BlockTable s.world.db h oid metadata :=
    fun _ _ _ _ w i hw _ _ _ =>
      hw.update rfl (fun hocc => (hw.handed i hocc).congr rfl) fun _ he => he
  rcases op_cases_keeps keepsEffects_blockTable hchange (fun hk => hk.elim) hb hrun with
    ⟨h, metadata, r, rfl, hins, -⟩ | ⟨h, oid, data, out, rfl, hout, hw, -⟩ | ⟨hb', -⟩
  · exact blockTable_insert hb ha hins
  · rw [hw]
    rcases writedata_cases hout with ⟨e, -, hdb⟩ | ⟨i, -, -, -, -, -, hdb⟩ <;> rw [hdb]
    · exact hb.of_objmeta_eq rfl fun _ he => he
    · exact hb.update rfl (fun hocc => (hb.handed i hocc).congr rfl) fun _ he => he
  · exact hb'

/-! ## Exact sizes -/

/-- A block lies between 0 and `limit`. -/
def AllocInside (limit : Int) (alloc : List HeapEvent → Int → Option Int) : Prop :=
  ∀ es size idx, 0 < size → alloc es size = some idx → 0 ≤ idx ∧ idx + size ≤ limit

def LogInside (limit : Int) (es : List HeapEvent) : Prop :=
  ∀ b, HeapEvent.alloc b ∈ es → 0 ≤ b.idx ∧ 0 < b.size ∧ b.idx + b.size ≤ limit

theorem logInside_alloc (hf : AllocInside limit env.alloc) (hl : LogInside limit w.heapLog)
    {size idx : Int} (hpos : 0 < size) (halloc : env.alloc w.heapLog size = some idx) :
    LogInside limit (w.allocated idx size).heapLog := by
  intro b hb
  rcases List.mem_cons.mp hb with heq | hb
  · cases heq
    obtain ⟨hge, hle⟩ := hf _ _ _ hpos halloc
    exact ⟨hge, hpos, hle⟩
  · exact hl b hb

theorem logInside_afterAlloc (hf : AllocInside limit env.alloc) (hl : LogInside limit w.heapLog)
    (size : Int) : LogInside limit (w.afterAlloc env size).heapLog := by
  unfold World.afterAlloc
  split
  · exact hl
  · split
    · exact hl
    · exact logInside_alloc hf hl (by omega) ‹_›

theorem logInside_release (hl : LogInside limit w.heapLog) (idx : Int) (m : ObjInfo) :
    LogInside limit (w.release idx m).heapLog := by
  unfold World.release
  split
  · intro b hb
    rcases List.mem_cons.mp hb with heq | hb
    · cases heq
    · exact hl b hb
  · exact hl

theorem keepsEffects_logInside : KeepsEffects env False fun w => LogInside limit w.heapLog where
  idle w w' hw _ hlog := by rwa [hlog]
  mark _ _ _ _ hw _ := hw
  purge w i hw _ := by
    rw [purged_heapLog]
    exact logInside_release hw _ _

theorem logInside_insert [Rounding] {metadata : ObjInfo} (hf : AllocInside limit env.alloc)
    (hl : LogInside limit w.heapLog) (hrun : insert env.atomic h metadata w = some (r, w')) :
    LogInside limit w'.heapLog := by
  rcases insert_some hrun with ⟨-, -, rfl⟩ | ⟨-, foundSlot, newIdx, m', w₁, hs, hfin⟩
  · exact hl
  have hl' : LogInside limit (w.ask.lock env.atomic).heapLog := by
    rw [atomic_lock_heapLog]
    exact hl
  have hl₁ : LogInside limit w₁.heapLog := by
    cases hs with
    | reuse hi => exact hl'
    | dataless hnone h0 hi => exact hl'
    | noSlotDataless hnone h0 hi => exact hl'
    | noBlock hnone h0 hneg halloc =>
        rw [atomic_lock_heapLog]
        exact logInside_afterAlloc (w := (w.ask.lock env.atomic).unlock) hf hl' _
    | block hnone h0 hpos halloc hge hw hi =>
        subst hw
        exact logInside_alloc (w := (w.ask.lock env.atomic).unlock) hf hl' hpos halloc
    | noSlot hnone h0 hpos halloc hge hw hi =>
        subst hw
        exact logInside_alloc (w := (w.ask.lock env.atomic).unlock) hf hl' hpos halloc
  cases hfin with
  | notUniq hu => exact logInside_release (w := w₁.unlock) hl₁ _ _
  | noSlot hu => exact hl₁
  | @noOid i hu hle => exact logInside_release (w := (w₁.write (·.setMeta i m')).oidTaken) hl₁ _ _
  | entered hu hoid hpos => exact hl₁

theorem logInside_step [Rounding] {heapSize : Int} {s s' : RunState} {op : Op}
    (hf : AllocInside limit env.alloc) (hl : LogInside limit s.world.heapLog)
    (hs : (apiLts env heapSize).step s op = some s') : LogInside limit s'.world.heapLog := by
  obtain ⟨events, hrun, -⟩ := apiLts_step hs
  rcases op_cases_keeps keepsEffects_logInside (fun _ _ _ _ _ _ hw _ _ _ => hw)
    (fun hk => hk.elim) hl hrun with
    ⟨h, metadata, r, rfl, hins, -⟩ | ⟨h, oid, data, out, rfl, hout, hw, -⟩ | ⟨hl', -⟩
  · exact logInside_insert hf hl hins
  · rw [hw]
    exact hl
  · exact hl'

/-- The object's block was asked for with exactly the bytes of its slots, and every slot of
the ring lies in it. -/
def ExactBlock (es : List HeapEvent) (info : ObjInfo) : Prop :=
  HeapEvent.alloc ⟨info.bufferIdx, info.sizeMax * info.historySize⟩ ∈ es ∧
    ∀ slot, 0 ≤ slot → slot < info.historySize →
      info.bufferIdx ≤ info.slotAddr slot ∧
        info.slotAddr slot + info.sizeMax ≤
          info.bufferIdx + info.sizeMax * info.historySize

/-- In a block that lies below 2^31 no slot's address wraps. -/
theorem slotAddr_inside {info : ObjInfo} (hidx : 0 ≤ info.bufferIdx) (hsize : 0 < info.sizeMax)
    (hbound : info.bufferIdx + info.sizeMax * info.historySize < 2 ^ 31) {slot : Int}
    (h0 : 0 ≤ slot) (hslot : slot < info.historySize) :
    info.bufferIdx ≤ info.slotAddr slot ∧
      info.slotAddr slot + info.sizeMax ≤ info.bufferIdx + info.sizeMax * info.historySize := by
  have hlow : 0 ≤ slot * info.sizeMax := Int.mul_nonneg h0 (Int.le_of_lt hsize)
  have hhigh : (slot + 1) * info.sizeMax ≤ info.historySize * info.sizeMax :=
    Int.mul_le_mul_of_nonneg_right hslot (Int.le_of_lt hsize)
  rw [Int.add_mul, Int.one_mul, Int.mul_comm info.historySize] at hhigh
  have haddr : info.slotAddr slot = info.bufferIdx + slot * info.sizeMax := by
    rw [ObjInfo.slotAddr, wrap32_of_bounds (x := slot * info.sizeMax) (by omega) (by omega),
      wrap32_of_bounds (by omega) (by omega)]
  rw [haddr]
  omega

theorem exactBlock_of_fits {info : ObjInfo} (hl : LogInside limit w.heapLog)
    (hlimit : limit < 2 ^ 31) (hh : HandedOut w.heapLog info) (hhist : 0 < info.historySize)
    (hpos : 0 < info.sizeMax * info.historySize)
    (hlt : info.sizeMax * info.historySize < 2 ^ 31) : ExactBlock w.heapLog info := by
  have hblock : info.blockSize = info.sizeMax * info.historySize :=
    wrap32_of_bounds (by omega) hlt
  have hsize : 0 < info.sizeMax := Int.pos_of_mul_pos_left hpos hhist
  have hne : info.bufferIdx ≠ 0 := fun h0 => by
    have := hh.1 h0
    omega
  have hmem := hh.2 hne
  rw [ObjInfo.heapBlock, hblock] at hmem
  obtain ⟨hidx, -, hend⟩ := hl _ hmem
  have hend : info.bufferIdx + info.sizeMax * info.historySize ≤ limit := hend
  exact ⟨hmem, fun slot h0 hslot => slotAddr_inside hidx hsize (by omega) h0 hslot⟩

/-- Buffer arithmetic: in every reachable state, an object with data has a block of exactly
its slots' size, with all the slots in it, if and only if that size is positive and below
2^31. -/
theorem exactBlock_iff [Rounding] {heapSize : Int} {s : RunState} {i : Nat}
    (hf : AllocInside limit env.alloc) (hlimit : limit < 2 ^ 31) (ha : HeapInit env.alloc)
    (h : (apiLts env heapSize).Reachable s) (hocc : (s.world.db.objmeta i).oid ≠ 0)
    (hhist : 0 < (s.world.db.objmeta i).historySize) :
    ExactBlock s.world.heapLog (s.world.db.objmeta i) ↔
      0 < (s.world.db.objmeta i).sizeMax * (s.world.db.objmeta i).historySize ∧
        (s.world.db.objmeta i).sizeMax * (s.world.db.objmeta i).historySize < 2 ^ 31 := by
  have hinv : BlockTable s.world ∧ LogInside limit s.world.heapLog := by
    refine h.invariant (I := fun s => BlockTable s.world ∧ LogInside limit s.world.heapLog) ?_
      fun s op s' hI hs => ⟨blockTable_step ha hI.1 hs, logInside_step hf hI.2 hs⟩
    rintro s rfl
    refine ⟨blockTable_initial ha fun idx hidx => (hf [] 2 idx (by decide) hidx).1, ?_⟩
    exact logInside_afterAlloc hf (fun b hb => absurd hb List.not_mem_nil) 2
  obtain ⟨hb, hl⟩ := hinv
  constructor
  · rintro ⟨hmem, -⟩
    obtain ⟨hidx, hpos, hend⟩ := hl _ hmem
    have hidx : 0 ≤ (s.world.db.objmeta i).bufferIdx := hidx
    have hpos : 0 < (s.world.db.objmeta i).sizeMax * (s.world.db.objmeta i).historySize := hpos
    have hend : (s.world.db.objmeta i).bufferIdx +
        (s.world.db.objmeta i).sizeMax * (s.world.db.objmeta i).historySize ≤ limit := hend
    exact ⟨hpos, by omega⟩
  · rintro ⟨hpos, hlt⟩
    exact exactBlock_of_fits hl hlimit (hb.handed i hocc) hhist hpos hlt

theorem le_heapTop_of_mem {es : List HeapEvent} {b : HeapBlock} (hb : .alloc b ∈ es) :
    b.idx + b.size ≤ heapTop es := by
  induction es with
  | nil => cases hb
  | cons e es ih =>
      rcases List.mem_cons.mp hb with rfl | hmem
      · rw [heapTop]
        exact Int.le_max_left _ _
      · cases e with
        | alloc c =>
            rw [heapTop]
            exact Int.le_trans (ih hmem) (Int.le_max_right _ _)
        | free c => exact ih hmem

theorem bumpAlloc_init {heapSize : Int} (hsize : 2 ≤ heapSize) : HeapInit (bumpAlloc heapSize) := by
  refine ⟨⟨0, ?_⟩, fun es size b hmem hidx hpos halloc => ?_⟩
  · rw [bumpAlloc, heapTop, if_pos (by omega)]
  · have hle := le_heapTop_of_mem hmem
    unfold bumpAlloc at halloc
    split at halloc
    · have := Option.some.inj halloc
      omega
    · cases halloc

theorem bumpAlloc_inside (heapSize : Int) : AllocInside heapSize (bumpAlloc heapSize) := by
  intro es size idx hpos hsome
  unfold bumpAlloc at hsome
  split at hsome
  · cases hsome
    exact ⟨heapTop_nonneg es, ‹_›⟩
  · cases hsome

theorem exactBlock_iff_anObject :
    ∃ s, (apiLts (exampleEnv 4096) 4096).Reachable s ∧
      ExactBlock s.world.heapLog (s.world.db.objmeta 0) := by
  obtain ⟨s, hr, hp⟩ := (apiLts (exampleEnv 4096) 4096).exists_of_exec
    [.insert aProcess anObject]
    (fun s => decide ((s.world.db.objmeta 0).oid ≠ 0 ∧ 0 < (s.world.db.objmeta 0).historySize ∧
      0 < (s.world.db.objmeta 0).sizeMax * (s.world.db.objmeta 0).historySize ∧
      (s.world.db.objmeta 0).sizeMax * (s.world.db.objmeta 0).historySize < 2 ^ 31))
    (s := ⟨World.initial (exampleEnv 4096).atomic 4096, []⟩) rfl (by decide +kernel)
  obtain ⟨hocc, hhist, hsize⟩ := of_decide_eq_true hp
  exact ⟨s, hr, (exactBlock_iff (bumpAlloc_inside 4096) (by decide) (bumpAlloc_init (by decide)) hr
    hocc hhist).mpr hsize⟩

def aLongHistory : ObjInfo := { anObject with sizeMax := 65536, historyInterval := 65536 }

/-- Its block has the size of one slot. -/
theorem exists_not_exactBlock :
    ∃ s, (apiLts (exampleEnv 4194304) 4194304).Reachable s ∧
      (s.world.db.objmeta 0).oid ≠ 0 ∧ 0 < (s.world.db.objmeta 0).historySize ∧
      HeapEvent.alloc ⟨(s.world.db.objmeta 0).bufferIdx, 65536⟩ ∈ s.world.heapLog ∧
      (s.world.db.objmeta 0).bufferIdx + 65536 ≤ (s.world.db.objmeta 0).slotAddr 1 ∧
      ¬ ExactBlock s.world.heapLog (s.world.db.objmeta 0) := by
  obtain ⟨s, hr, hp⟩ := (apiLts (exampleEnv 4194304) 4194304).exists_of_exec
    [.insert aProcess aLongHistory]
    (fun s => decide ((s.world.db.objmeta 0).oid ≠ 0 ∧ 0 < (s.world.db.objmeta 0).historySize ∧
      HeapEvent.alloc ⟨(s.world.db.objmeta 0).bufferIdx, 65536⟩ ∈ s.world.heapLog ∧
      (s.world.db.objmeta 0).bufferIdx + 65536 ≤ (s.world.db.objmeta 0).slotAddr 1 ∧
      ¬ HeapEvent.alloc ⟨(s.world.db.objmeta 0).bufferIdx,
        (s.world.db.objmeta 0).sizeMax * (s.world.db.objmeta 0).historySize⟩ ∈ s.world.heapLog))
    (s := ⟨World.initial (exampleEnv 4194304).atomic 4194304, []⟩) rfl (by decide +kernel)
  obtain ⟨hocc, hhist, hblock, haddr, hnot⟩ := of_decide_eq_true hp
  exact ⟨s, hr, hocc, hhist, hblock, haddr, fun hexact => hnot hexact.1⟩

end KogmoRtdb
