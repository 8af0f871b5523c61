import KogmoRtdb.Meta.Lifetime
import KogmoRtdb.Meta.RefusedFrees

/-!
# The rings that the slot API walks

What calls on the database keep of the rings, as far as a walk through the slots goes: the
place of the last write is in the ring, and no record in it states more than its slot holds.
Only an insert can break this, when it takes over a block whose old records are larger than
the new slots.
-/

namespace KogmoRtdb

variable {env : Env} {limit : Int} {w w' : World} {heap heap' : Heap} {info info' : ObjInfo}
  {n : Nat} {db : Db}

/-! ## The rings -/

/-- Every record in the first `n` slots states a size that its slot has room for. -/
def Sized (heap : Heap) (info : ObjInfo) (n : Nat) : Prop :=
  ∀ k < n, slotTs heap info (k : Nat) ≠ invalidTs →
    slotSize heap info (k : Nat) ≤ info.sizeMax

instance : Decidable (Sized heap info n) := by
  unfold Sized
  infer_instance

structure SizedRing (heap : Heap) (info : ObjInfo) (n : Nat) : Prop where
  block : Block info n
  low : -1 ≤ info.historySlot
  high : info.historySlot < n
  sized : Sized heap info n

/-- The rings of the occupied slots; an object without a block is not written to. -/
structure SlotTable (objmeta : Nat → ObjInfo) (heap : Heap) : Prop where
  bound : ∀ i, (objmeta i).oid ≠ 0 → i < objMax
  ring : ∀ i, (objmeta i).HasBlock → ∃ n, SizedRing heap (objmeta i) n
  bare : ∀ i, (objmeta i).oid ≠ 0 → (objmeta i).bufferIdx = 0 → (objmeta i).historySlot = -1

theorem Block.slot_range (hb : Block info n) {k : Nat} (hk : k < n) :
    info.bufferIdx ≤ info.slotAddr k ∧
      info.slotAddr k + info.sizeMax ≤ info.bufferIdx + info.blockSize := by
  have h24 := hb.sizeMin
  have hfirst := (hb.slot_inside hk (b := 0) (by omega)).1
  have hlast := (hb.slot_inside hk (b := info.sizeMax.toNat - 1) (by omega)).2
  omega

/-! ## Purges, deletes and changes -/

theorem SizedRing.transport (hs : SameRing info info') (hheap : AgreeOn info heap heap')
    (hr : SizedRing heap info n) : SizedRing heap' info' n := by
  have h24 := hr.block.sizeMin
  refine ⟨hs.block hr.block, ?_, ?_, fun k hk hts => ?_⟩
  · rw [hs.historySlot]
    exact hr.low
  · rw [hs.historySlot]
    exact hr.high
  · have hwindow {b : Nat} (hbyte : (b : Int) < info.sizeMax) :
        slotWindow heap' info' k b = slotWindow heap info k b :=
      window_agree hs hheap hr.block hk hbyte
    have hts' : slotTs heap' info' k = slotTs heap info k :=
      Mem.read64_congr fun b _ hb => hwindow (by omega)
    have hsize : (slotWindow heap' info' k).read32 20 = (slotWindow heap info k).read32 20 :=
      Mem.read32_congr fun b _ hb => hwindow (by omega)
    rw [hts'] at hts
    rw [slotSize, hsize, hs.sizeMax]
    exact hr.sized k hk hts

theorem SlotTable.of_le {t t' : Nat → ObjInfo} (ht : SlotTable t heap)
    (hle : ∀ i, (t' i).oid ≠ 0 → SameRing (t i) (t' i)) : SlotTable t' heap := by
  refine ⟨fun i hi => ?_, fun i hi => ?_, fun i hi hidx => ?_⟩
  · exact ht.bound i (by rw [← (hle i hi).oid]; exact hi)
  · have hs := hle i hi.1
    obtain ⟨n, hr⟩ := ht.ring i
      ⟨by rw [← hs.oid]; exact hi.1, by rw [← hs.bufferIdx]; exact hi.2⟩
    exact ⟨n, hr.transport hs fun _ _ _ => rfl⟩
  · have hs := hle i hi
    rw [hs.historySlot]
    exact ht.bare i (by rw [← hs.oid]; exact hi) (by rw [← hs.bufferIdx]; exact hidx)

theorem SlotTable.update {t : Nat → ObjInfo} {i : Nat} (ht : SlotTable t heap)
    (hsame : info.oid ≠ 0 → SameRing (t i) info) : SlotTable (Function.update t i info) heap := by
  refine ht.of_le fun j hj => ?_
  by_cases hji : j = i
  · subst hji
    rw [Function.update_self] at hj ⊢
    exact hsame hj
  · rw [Function.update_of_ne hji]
    exact .refl _

/-- What deletes, purges and changes leave of a slot is the same ring. -/
theorem sameRing_effect (he : Effect env w w') (i : Nat) (hocc : (w'.db.objmeta i).oid ≠ 0) :
    SameRing (w.db.objmeta i) (w'.db.objmeta i) := by
  have hup {t : Nat → ObjInfo} {j : Nat} {info : ObjInfo}
      (ht : w'.db.objmeta = Function.update t j info)
      (hsame : info.oid ≠ 0 → SameRing (t j) info) : SameRing (t i) (w'.db.objmeta i) := by
    rw [ht] at hocc ⊢
    by_cases hij : i = j
    · subst hij
      rw [Function.update_self] at hocc ⊢
      exact hsame hocc
    · rw [Function.update_of_ne hij]
      exact .refl _
  cases he with
  | idle hdb hlog =>
      rw [hdb]
      exact .refl _
  | mark _ => exact hup rfl fun _ => ⟨rfl, rfl, rfl, rfl, rfl⟩
  | purge _ => exact hup (purged_objmeta _ _) fun h => absurd rfl h
  | change => exact hup rfl fun _ => ⟨rfl, rfl, rfl, rfl, rfl⟩

theorem heap_effect (he : Effect env w w') : w'.db.heap = w.db.heap := by
  cases he with
  | idle hdb hlog => rw [hdb]
  | mark _ => rfl
  | purge _ => exact purged_heap _ _
  | change => rfl

theorem slotTable_effect (ht : SlotTable w.db.objmeta w.db.heap) (he : Effect env w w') :
    SlotTable w'.db.objmeta w'.db.heap := by
  rw [heap_effect he]
  exact ht.of_le fun i hocc => sameRing_effect he i hocc

/-- A fresh block is put into the heap apart from all blocks in use. -/
theorem SlotTable.alloc {t : Nat → ObjInfo} {es : List HeapEvent} {idx size : Int}
    (ht : SlotTable t heap) (ho : Owned limit t es)
    (hapart : ∀ b ∈ liveBlocks es, b.Apart ⟨idx, size⟩) (hpos : 0 < size) :
    SlotTable t (heap.put idx Mem.zero size.toNat) := by
  refine ⟨ht.bound, fun i hi => ?_, ht.bare⟩
  obtain ⟨n, hr⟩ := ht.ring i hi
  refine ⟨n, hr.transport (.refl _) fun a h1 h2 => ?_⟩
  have hb := hapart _ (ho.mem i hi)
  unfold HeapBlock.Apart at hb
  simp only [ObjInfo.heapBlock] at hb
  exact Heap.put_outside (by omega)

theorem sized_fresh {m : ObjInfo} (hb : Block m n) :
    Sized (heap.put m.bufferIdx Mem.zero m.blockSize.toNat) m n := by
  intro k hk hts
  have h24 := hb.sizeMin
  have hzero : slotTs (heap.put m.bufferIdx Mem.zero m.blockSize.toNat) m k =
      Mem.zero.read64 0 :=
    Mem.read64_congr fun b _ h2 => window_fresh hb hk (by omega)
  refine absurd (hzero.trans ?_) hts
  rw [Mem.read64, Mem.read32_zero, Mem.read32_zero]
  rfl

/-! ## Writes -/

/-- The record goes to a slot of the ring, and states a size that the slot has room for. -/
theorem SizedRing.store {i : Nat} {slot : Int} {c : Commit} {src : Mem}
    (hr : SizedRing db.heap (db.objmeta i) n)
    (hnext : slot = nextSlot (db.objmeta i).historySize (db.objmeta i).historySlot)
    (hbytes : c.bytes = (defaultDataTs src c.stamp).write64 0 c.stamp)
    (hsrc : (src.read32 20).toInt = c.size) (hsize : (c.size : Int) ≤ (db.objmeta i).sizeMax) :
    ∃ k : Nat, k < n ∧ slot = k ∧
      SizedRing (storeRecord db i k src c.size c.stamp).heap
        { db.objmeta i with historySlot := (k : Nat) } n := by
  have hn := hr.block.pos
  have hlow := hr.low
  obtain ⟨k, hk, hslot⟩ : ∃ k : Nat, k < n ∧ slot = k := by
    rw [hnext, nextSlot]
    split
    · exact ⟨0, hn, rfl⟩
    · obtain ⟨h, hh⟩ := Int.eq_ofNat_of_zero_le (show 0 ≤ (db.objmeta i).historySlot by omega)
      rw [hh, hr.block.historySize]
      exact ⟨(h + 1) % n, Nat.mod_lt _ hn, (Int.ofNat_tmod (h + 1) n).symm⟩
  have h24 := hr.block.sizeMin
  refine ⟨k, hk, hslot, ⟨?_, ?_, ?_, fun j hj hts => ?_⟩⟩
  · exact ⟨hr.block.historySize, hn, h24, hr.block.idx, hr.block.bound⟩
  · show -1 ≤ (k : Int)
    omega
  · show (k : Int) < n
    omega
  · show slotSize (storeRecord db i k src c.size c.stamp).heap (db.objmeta i) j ≤ _
    change slotTs (storeRecord db i k src c.size c.stamp).heap (db.objmeta i) j ≠ _ at hts
    by_cases hjk : j = k
    · subst hjk
      have hheld : HoldsRecord (slotWindow (storeRecord db i j src c.size c.stamp).heap
          (db.objmeta i) j) c := holdsRecord_storeRecord hbytes hsrc
      rw [slotSize, hheld.read32_size]
      exact hsize
    · have hwindow {b : Nat} (hbyte : (b : Int) < (db.objmeta i).sizeMax) :
          slotWindow (storeRecord db i k src c.size c.stamp).heap (db.objmeta i) j b =
            slotWindow db.heap (db.objmeta i) j b :=
        window_storeRecord_ne hr.block hsize hj hk hjk hbyte
      have hts' : slotTs (storeRecord db i k src c.size c.stamp).heap (db.objmeta i) j =
          slotTs db.heap (db.objmeta i) j := Mem.read64_congr fun b _ hb => hwindow (by omega)
      have hsize' : (slotWindow (storeRecord db i k src c.size c.stamp).heap (db.objmeta i)
          j).read32 20 = (slotWindow db.heap (db.objmeta i) j).read32 20 :=
        Mem.read32_congr fun b _ hb => hwindow (by omega)
      rw [hts'] at hts
      rw [slotSize, hsize']
      exact hr.sized j hj hts

theorem SlotTable.store {t : Nat → ObjInfo} {i : Nat} (ht : SlotTable t heap)
    (hi : (t i).HasBlock) (hring : SizedRing heap' info n)
    (hagree : ∀ j, j ≠ i → (t j).HasBlock → AgreeOn (t j) heap heap') :
    SlotTable (Function.update t i info) heap' := by
  refine ⟨fun j hj => ?_, fun j hj => ?_, fun j hj hidx => ?_⟩
  · by_cases hji : j = i
    · rw [hji]
      exact ht.bound i hi.1
    · rw [Function.update_of_ne hji] at hj
      exact ht.bound j hj
  · by_cases hji : j = i
    · rw [hji, Function.update_self]
      exact ⟨n, hring⟩
    · rw [Function.update_of_ne hji] at hj ⊢
      obtain ⟨m, hr⟩ := ht.ring j hj
      exact ⟨m, hr.transport (.refl _) (hagree j hji hj)⟩
  · by_cases hji : j = i
    · rw [hji, Function.update_self] at hidx
      exact absurd hidx (Int.ne_of_gt hring.block.idx)
    · rw [Function.update_of_ne hji] at hj hidx ⊢
      exact ht.bare j hj hidx

theorem slotTable_write [Rounding] {h : Handle} {oid : ObjId} {data : Mem} {ts : Timestamp}
    {out : WriteOut}
    (ho : OwnedWorld limit w) (ht : SlotTable w.db.objmeta w.db.heap) (hoid : oid ≠ 0)
    (hout : out = writedata w.db h oid data ts) : SlotTable out.db.objmeta out.db.heap := by
  rcases writedata_commit hout with
    ⟨e, -, hdb⟩ | ⟨i, c, hfound, hidx, ⟨hstamp, -, hbytes⟩, hsrc, hsize, -, hdb⟩
  · rw [hdb]
    exact ht
  · have hi : (w.db.objmeta i).HasBlock := ⟨by rwa [(Db.findmetaById_some hfound).2], hidx⟩
    obtain ⟨n, hr⟩ := ht.ring i hi
    rw [← hstamp] at hbytes
    obtain ⟨k, hk, hslot, hring⟩ := hr.store rfl hbytes hsrc hsize
    rw [hdb, hslot]
    refine ht.store hi hring fun j hji hj => ?_
    refine agreeOn_put hr.block hk (by have := c.size_min; omega) hsize ?_
    exact ho.live.apart_of_idx_ne (ho.mem j hj) (ho.mem i hi) (ho.excl j i hji hj hi)

/-! ## Inserts -/

section Insert

variable {h : Handle} {ts : Timestamp} {m m' : ObjInfo} {foundSlot : Option Nat} {newIdx : Int}
  {w₁ : World} {r : Result × ObjInfo}

/-- What an insert has when it comes to the uniqueness check. -/
structure RingReady (w : World) (foundSlot : Option Nat) (m : ObjInfo) : Prop where
  table : SlotTable w.db.objmeta w.db.heap
  oid : m.oid = 0
  slot : ∀ i, foundSlot = some i → i < objMax
  historySlot : m.historySlot = -1
  ring : m.bufferIdx ≠ 0 → ∃ n, Block m n ∧ Sized w.db.heap m n

/-- No record that is left in the block of the slot that the insert will reuse states more than
a slot of the new object holds. -/
def SizedReuse [Rounding] (h : Handle) (ts : Timestamp) (m : ObjInfo) (db : Db) : Prop :=
  ∀ i ∈ findReusable db h m ts, (db.objmeta i).bufferIdx ≠ 0 →
    Sized db.heap { m with bufferIdx := (db.objmeta i).bufferIdx } m.historySize.toNat

instance [Rounding] : Decidable (SizedReuse h ts m db) := by
  unfold SizedReuse
  infer_instance

theorem ringReady_of_slotSearch [Rounding] (ho : OwnedWorld limit w)
    (ht : SlotTable w.db.objmeta w.db.heap)
    (hf : AllocSound limit env.alloc) (hlimit : limit < 2 ^ 31) (hoid : m.oid = 0)
    (hidx : m.bufferIdx = 0) (hslot : m.historySlot = -1)
    (hsize : m.sizeMax = 0 ∨ 24 ≤ m.sizeMax ∨ m.sizeMax = -2 ^ 31) (hfits : m.Fits)
    (hreuse : SizedReuse h ts m w.db)
    (hs : SlotSearch env.atomic h ts m w foundSlot newIdx m' w₁) : RingReady w₁ foundSlot m' := by
  have hnil {w : World} : m.bufferIdx ≠ 0 → ∃ n, Block m n ∧ Sized w.db.heap m n :=
    fun h => absurd hidx h
  have hnone {j : Nat} : (none : Option Nat) = some j → j < objMax := fun h => by cases h
  have hlt {j : Nat} (hj : j < objMax) (k : Nat) (hk : some j = some k) : k < objMax :=
    Option.some.inj hk ▸ hj
  cases hs with
  | @reuse i hi =>
      obtain ⟨hocc, hblock⟩ := blockSize_of_reusable hi
      refine ⟨ht, hoid, hlt (findReusable_lt hi), hslot, fun hne => ?_⟩
      have hmem := ho.mem i ⟨hocc, hne⟩
      obtain ⟨h0, hend⟩ := ho.live.inside _ hmem
      refine exists_ring hlimit hsize hfits hblock.symm (ho.live.pos _ hmem) h0 hend
        (fun n hb => ?_) hne
      have hn : m.historySize.toNat = n := by
        have h1 : m.historySize = n := hb.historySize
        omega
      exact hn ▸ hreuse i hi hne
  | dataless _ _ hi => exact ⟨ht, hoid, hlt (Db.findmetaById_some hi).1, hslot, hnil⟩
  | noSlotDataless _ _ _ => exact ⟨ht, hoid, fun _ => hnone, hslot, hnil⟩
  | noBlock _ _ _ halloc =>
      rw [show w.unlock.afterAlloc env.atomic m.blockSize = w.unlock from
        afterAlloc_of_fails hf ho.live.legit halloc]
      exact ⟨ht, hoid, fun _ => hnone, hslot, hnil⟩
  | @block _ i w₂ _ _ hpos halloc hge hw₂ hi =>
      obtain ⟨-, hend, hapart⟩ := hf _ _ _ ho.live.legit hpos halloc
      subst hw₂
      refine ⟨ht.alloc ho hapart hpos, hoid, hlt (Db.findmetaById_some hi).1, hslot, ?_⟩
      exact exists_ring hlimit hsize hfits rfl hpos hge hend fun n hb => sized_fresh hb
  | noSlot _ _ hpos halloc hge hw₂ _ =>
      obtain ⟨-, hend, hapart⟩ := hf _ _ _ ho.live.legit hpos halloc
      subst hw₂
      refine ⟨ht.alloc ho hapart hpos, hoid, fun _ => hnone, hslot, ?_⟩
      exact exists_ring hlimit hsize hfits rfl hpos hge hend fun n hb => sized_fresh hb

theorem SlotTable.enter {t : Nat → ObjInfo} {i : Nat} (ht : SlotTable t heap) (hi : i < objMax)
    (hslot : info.historySlot = -1)
    (hring : info.bufferIdx ≠ 0 → ∃ n, Block info n ∧ Sized heap info n) :
    SlotTable (Function.update t i info) heap := by
  refine ⟨fun j hj => ?_, fun j hj => ?_, fun j hj hidx => ?_⟩
  · by_cases hji : j = i
    · rwa [hji]
    · rw [Function.update_of_ne hji] at hj
      exact ht.bound j hj
  · by_cases hji : j = i
    · rw [hji, Function.update_self] at hj ⊢
      obtain ⟨n, hb, hsized⟩ := hring hj.2
      exact ⟨n, hb, Int.le_of_eq hslot.symm, by rw [hslot]; omega, hsized⟩
    · rw [Function.update_of_ne hji] at hj ⊢
      exact ht.ring j hj
  · by_cases hji : j = i
    · rw [hji, Function.update_self]
      exact hslot
    · rw [Function.update_of_ne hji] at hj hidx ⊢
      exact ht.bare j hj hidx

theorem slotTable_finish (hr : RingReady w foundSlot m) (hf : Finish newIdx m w foundSlot r w') :
    SlotTable w'.db.objmeta w'.db.heap := by
  cases hf with
  | notUniq hu =>
      rw [release_objmeta, release_heap]
      exact hr.table
  | noSlot hu => exact hr.table
  | @noOid i hu hle =>
      show SlotTable ((w.write (·.setMeta i m)).oidTaken.release m.bufferIdx m).db.objmeta
        ((w.write (·.setMeta i m)).oidTaken.release m.bufferIdx m).db.heap
      rw [release_objmeta, release_heap]
      exact hr.table.update fun hne => absurd hr.oid hne
  | @entered i oid hu hnext hpos =>
      show SlotTable (Function.update (Function.update w.db.objmeta i m) i _) w.db.heap
      rw [Function.update_idem]
      refine hr.table.enter (hr.slot i rfl) ?_ fun hne => ?_
      · unfold ObjInfo.withParent
        split <;> exact hr.historySlot
      · unfold ObjInfo.withParent at hne ⊢
        split at hne <;> rename_i hparent
        · obtain ⟨n, hb, hsized⟩ := hr.ring hne
          rw [if_pos hparent]
          exact ⟨n, ⟨hb.historySize, hb.pos, hb.sizeMin, hb.idx, hb.bound⟩, hsized⟩
        · obtain ⟨n, hb, hsized⟩ := hr.ring hne
          rw [if_neg hparent]
          exact ⟨n, ⟨hb.historySize, hb.pos, hb.sizeMin, hb.idx, hb.bound⟩, hsized⟩

/-- What keeps the rings at an insert: sizes are those of `int32_t`s, and the records in a
reused block fit the new slots. -/
structure RingInsert [Rounding] (env : Env) (h : Handle) (metadata : ObjInfo)
    (w : World) : Prop where
  sizeMax : metadata.sizeMax < 2 ^ 31
  fits : (initMetadata env h (env.now w.tick) metadata).Fits
  sized : SizedReuse h (env.now w.tick) (initMetadata env h (env.now w.tick) metadata) w.db

theorem slotTable_insert [Rounding] {metadata : ObjInfo} (ho : OwnedWorld limit w.accepted)
    (ht : SlotTable w.db.objmeta w.db.heap) (hf : AllocSound limit env.alloc)
    (hr : RefusesNegative env.alloc) (hlimit : limit < 2 ^ 31)
    (hins : metadata.refused = false → RingInsert env h metadata w)
    (hrun : insert env.atomic h metadata w = some (r, w')) :
    SlotTable w'.db.objmeta w'.db.heap := by
  rcases insert_accepted hf hr ho hrun with
    ⟨-, -, rfl⟩ | ⟨href, foundSlot, newIdx, m', w₁, -, hs, hh, hfin⟩
  · exact ht
  · have hins := hins href
    have hdb : (w.ask.lock env.atomic).accepted.db = w.db := atomic_lock_db w.ask
    have ho' : OwnedWorld limit (w.ask.lock env.atomic).accepted := by
      unfold OwnedWorld World.accepted
      rw [atomic_lock_db, atomic_lock_heapLog]
      exact ho
    have hacc : RingReady w₁.accepted foundSlot m' := by
      refine ringReady_of_slotSearch ho' ?_ hf hlimit rfl rfl rfl
        (sizeMax_initMetadata href hins.sizeMax) hins.fits ?_ hs
      · rw [hdb]
        exact ht
      · rw [hdb]
        exact hins.sized
    have hready : RingReady w₁ foundSlot m' :=
      ⟨hacc.table, hacc.oid, hacc.slot, hacc.historySlot, hacc.ring⟩
    exact slotTable_finish hready hfin

end Insert

theorem slotTable_initial {heapSize : Int} :
    SlotTable (World.initial env.atomic heapSize).db.objmeta
      (World.initial env.atomic heapSize).db.heap :=
  ⟨fun i hi => absurd (initial_oid _ _ i) hi, fun i hi => absurd (initial_oid _ _ i) hi.1,
    fun i hi => absurd (initial_oid _ _ i) hi⟩

end KogmoRtdb
