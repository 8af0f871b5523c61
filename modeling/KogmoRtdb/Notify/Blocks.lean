import KogmoRtdb.DataPath.ReadDeny
import KogmoRtdb.Meta.Lifetime
import KogmoRtdb.Notify.TableSteps

/-!
# Whose bytes are whose

While calls are under way a block belongs to a slot of the table or to the thread that
inserts an object with it (`Owner`). `Threads.Placed` says that all these blocks are apart and that
each is as long as the ring of its object, so that a store into one history slot is seen in
no other (`Threads.Placed.store`).

`Fades` is what may happen to the stamp of a record without anyone who waits for a newer one
having to be told.
-/

namespace KogmoRtdb

/-! ## A history slot -/

/-- The stamp becomes invalid or no newer, and the size does not become negative. -/
structure Fades (m m' : Mem) : Prop where
  stamp : m'.read32 4 = hiWord invalidTs ∨
    m'.read32 4 = m.read32 4 ∧ (m'.read32 0).toNat ≤ (m.read32 0).toNat
  size : 0 ≤ (m.read32 20).toInt → 0 ≤ (m'.read32 20).toInt

namespace Fades

variable {m m' data : Mem} {n len : Nat}

theorem of_words (h4 : m'.read32 4 = m.read32 4) (h0 : m'.read32 0 = m.read32 0)
    (h20 : m'.read32 20 = m.read32 20) : Fades m m' where
  stamp := Or.inr ⟨h4, Nat.le_of_eq (by rw [h0])⟩
  size h := by rwa [h20]

theorem of_bytes (h : ∀ b < 24, m' b = m b) : Fades m m' :=
  of_words (Mem.read32_congr fun b _ hb => h b (by omega))
    (Mem.read32_congr fun b _ hb => h b (by omega)) (Mem.read32_congr fun b _ hb => h b (by omega))

theorem refl (m : Mem) : Fades m m := of_words rfl rfl rfl

/-- The store of a word outside of the stamp, of a zero into it, or of a size. -/
theorem store (hlen : n ≤ 5 → len = 4) (h01 : n ≤ 1 → data.read32 0 = hiWord invalidTs)
    (h5 : n = 5 → 0 ≤ (data.read32 0).toInt) : Fades m (m.copy (4 * n) data 0 len) := by
  by_cases hn : n ≤ 5
  · obtain rfl := hlen hn
    obtain rfl | rfl | rfl | hrest : n = 0 ∨ n = 1 ∨ n = 5 ∨ (2 ≤ n ∧ n ≤ 4) := by omega
    · refine ⟨Or.inr ⟨Mem.read32_copy_outside (by omega), ?_⟩, fun h => ?_⟩
      · rw [Mem.read32_copy_inside (by omega) (by omega), h01 (by omega)]
        exact Nat.zero_le _
      · rwa [Mem.read32_copy_outside (by omega)]
    · refine ⟨Or.inl ?_, fun h => ?_⟩
      · rw [Mem.read32_copy_inside (by omega) (by omega)]
        exact h01 (by omega)
      · rwa [Mem.read32_copy_outside (by omega)]
    · refine ⟨Or.inr ⟨Mem.read32_copy_outside (by omega), Nat.le_of_eq ?_⟩, fun _ => ?_⟩
      · rw [Mem.read32_copy_outside (by omega)]
      · rw [Mem.read32_copy_inside (by omega) (by omega)]
        exact h5 rfl
    · exact of_words (Mem.read32_copy_outside (by omega)) (Mem.read32_copy_outside (by omega))
        (Mem.read32_copy_outside (by omega))
  · exact of_words (Mem.read32_copy_outside (by omega)) (Mem.read32_copy_outside (by omega))
      (Mem.read32_copy_outside (by omega))

end Fades

/-- What the record's size is after a store of a word before it. -/
theorem size_copy {m data : Mem} {n : Nat} (hn : n ≤ 4) :
    (m.copy (4 * n) data 0 4).read32 20 = m.read32 20 := Mem.read32_copy_outside (by omega)

/-! ## Rings -/

/-- The object's ring fills its block, and no record states a negative size. -/
structure StoredRing (heap : Heap) (info : ObjInfo) : Prop where
  block : ∃ n, Block info n
  low : -1 ≤ info.historySlot
  high : info.historySlot < info.historySize
  sizes : ∀ slot, InRing info slot → 0 ≤ slotSize heap info slot

section Ring

variable {info info' : ObjInfo} {n : Nat} {slot slot' : Int} {heap heap' : Heap}

theorem Block.inRing_range (hb : Block info n) (hslot : InRing info slot) :
    info.bufferIdx ≤ info.slotAddr slot ∧
      info.slotAddr slot + info.sizeMax ≤ info.bufferIdx + info.blockSize := by
  have h24 := hb.sizeMin
  obtain ⟨h0, hlt⟩ := hslot
  rw [hb.historySize] at hlt
  obtain ⟨k, rfl⟩ := Int.eq_ofNat_of_zero_le h0
  have hfirst := (hb.slot_inside (k := k) (by omega) (b := 0) (by omega)).1
  have hlast := (hb.slot_inside (k := k) (by omega) (b := info.sizeMax.toNat - 1) (by omega)).2
  omega

theorem Block.inRing_apart (hb : Block info n) (hslot : InRing info slot)
    (hslot' : InRing info slot') (hne : slot ≠ slot') :
    info.slotAddr slot + info.sizeMax ≤ info.slotAddr slot' ∨
      info.slotAddr slot' + info.sizeMax ≤ info.slotAddr slot := by
  obtain ⟨h0, hk⟩ := hslot
  obtain ⟨h0', hk'⟩ := hslot'
  rw [hb.historySize] at hk hk'
  obtain ⟨j, rfl⟩ := Int.eq_ofNat_of_zero_le h0
  obtain ⟨k, rfl⟩ := Int.eq_ofNat_of_zero_le h0'
  exact hb.slotAddr_disjoint (by omega) (by omega) (by omega)

namespace StoredRing

theorem pos (h : StoredRing heap info) : 0 < info.historySize := by
  obtain ⟨n, hb⟩ := h.block
  have := hb.historySize
  have := hb.pos
  omega

theorem inRing (h : StoredRing heap info) :
    InRing info (histPos info.historySize info.historySlot) := by
  have hpos := h.pos
  exact inRing_histPos (by omega) h.low h.high

theorem sizeMin (h : StoredRing heap info) : 24 ≤ info.sizeMax := by
  obtain ⟨n, hb⟩ := h.block
  exact hb.sizeMin

theorem of_sizes (h : StoredRing heap info)
    (hsize : ∀ slot, InRing info slot → 0 ≤ slotSize heap info slot →
      0 ≤ slotSize heap' info slot) : StoredRing heap' info where
  block := h.block
  low := h.low
  high := h.high
  sizes slot hslot := hsize slot hslot (h.sizes slot hslot)

/-- A new object's ring in a block fresh from `kogmo_rtdb_obj_mem_alloc`. -/
theorem fresh (hb : Block info n) (hslot : info.historySlot = -1) :
    StoredRing (heap.put info.bufferIdx Mem.zero info.blockSize.toNat) info where
  block := ⟨n, hb⟩
  low := by omega
  high := by
    have := hb.historySize
    have := hb.pos
    omega
  sizes slot hin := by
    obtain ⟨h0, hk⟩ := hin
    rw [hb.historySize] at hk
    obtain ⟨k, rfl⟩ := Int.eq_ofNat_of_zero_le h0
    have h24 := hb.sizeMin
    have hzero : (slotWindow (heap.put info.bufferIdx Mem.zero info.blockSize.toNat) info k).read32
        20 = Mem.zero.read32 20 :=
      Mem.read32_congr fun b _ hlt => window_fresh hb (by omega) (by omega)
    rw [slotSize, hzero, Mem.read32_zero]
    exact Int.le_refl 0

end StoredRing

end Ring

/-! ## Owners -/

/-- Whose a block can be: a slot's of the table, or a thread's that inserts an object. -/
inductive Owner where
  | slot (i : Nat)
  | thread (p : Pid)
  deriving DecidableEq

def InsertPc.inHand : InsertPc → Bool
  | .relock | .findFree | .unique | .unlockClash | .freeClash | .enter _ => true
  | _ => false

/-- The metadata with which an insert has a block in hand. -/
def Pc.inHand : Pc → ObjInfo
  | .insert c pc => if pc.inHand then c.metadata else {}
  | _ => {}

def ObjInfo.block? (info : ObjInfo) : Option HeapBlock :=
  if info.bufferIdx = 0 then none else some info.heapBlock

theorem ObjInfo.block?_of_ne {info : ObjInfo} (h : info.bufferIdx ≠ 0) :
    info.block? = some info.heapBlock := if_neg h

theorem ObjInfo.block?_eq_some {info : ObjInfo} {b : HeapBlock} (h : info.block? = some b) :
    info.bufferIdx ≠ 0 ∧ b = info.heapBlock := by
  unfold ObjInfo.block? at h
  split at h
  · cases h
  · rename_i hne
    cases h
    exact ⟨hne, rfl⟩

namespace Threads

def entry (t : Threads) : Owner → ObjInfo
  | .slot i => t.shared.db.objmeta i
  | .thread p => (t.pc p).inHand

/-- The blocks are apart, and each holds its object's ring. -/
structure Placed (limit : Int) (t : Threads) : Prop where
  held : Held limit (acceptedCalls t.shared.heapLog) fun o => (t.entry o).block?
  ring : ∀ o, (t.entry o).bufferIdx ≠ 0 → StoredRing t.shared.db.heap (t.entry o)

namespace Placed

variable {limit : Int} {t : Threads} {o o' : Owner} {slot slot' : Int}

theorem slots_apart (h : t.Placed limit) (hidx : (t.entry o).bufferIdx ≠ 0)
    (hidx' : (t.entry o').bufferIdx ≠ 0) (hslot : InRing (t.entry o) slot)
    (hslot' : InRing (t.entry o') slot') (hne : ¬ (o' = o ∧ slot' = slot)) :
    (t.entry o').slotAddr slot' + (t.entry o').sizeMax ≤ (t.entry o).slotAddr slot ∨
      (t.entry o).slotAddr slot + (t.entry o).sizeMax ≤ (t.entry o').slotAddr slot' := by
  obtain ⟨n, hb⟩ := (h.ring o hidx).block
  obtain ⟨n', hb'⟩ := (h.ring o' hidx').block
  by_cases heq : o' = o
  · subst heq
    exact hb.inRing_apart hslot' hslot fun hs => hne ⟨rfl, hs⟩
  · obtain ⟨hlo, hhi⟩ := hb.inRing_range hslot
    obtain ⟨hlo', hhi'⟩ := hb'.inRing_range hslot'
    have hapart := h.held.apart (ObjInfo.block?_of_ne hidx') (ObjInfo.block?_of_ne hidx) heq
    unfold HeapBlock.Apart ObjInfo.heapBlock at hapart
    dsimp only at hapart
    omega

theorem store (h : t.Placed limit) (hidx : (t.entry o).bufferIdx ≠ 0)
    (hidx' : (t.entry o').bufferIdx ≠ 0) (hslot : InRing (t.entry o) slot)
    (hslot' : InRing (t.entry o') slot') (hne : ¬ (o' = o ∧ slot' = slot)) {off len : Nat}
    (hlen : ((off + len : Nat) : Int) ≤ (t.entry o).sizeMax) (data : Mem) {b : Nat}
    (hb : (b : Int) < (t.entry o').sizeMax) :
    slotWindow (t.shared.db.heap.put ((t.entry o).slotAddr slot + off) data len) (t.entry o')
      slot' b = slotWindow t.shared.db.heap (t.entry o') slot' b := by
  have hapart := h.slots_apart hidx hidx' hslot hslot' hne
  exact Heap.window_put_of_disjoint (by omega)

/-- A block fresh from the allocator is apart from all in use. -/
theorem clear (h : t.Placed limit) (hidx : (t.entry o).bufferIdx ≠ 0)
    (hslot : InRing (t.entry o) slot) {idx size : Int}
    (hapart : ∀ b ∈ liveBlocks (acceptedCalls t.shared.heapLog), b.Apart ⟨idx, size⟩)
    (hpos : 0 < size) {b : Nat} (hb : (b : Int) < (t.entry o).sizeMax) :
    slotWindow (t.shared.db.heap.put idx Mem.zero size.toNat) (t.entry o) slot b =
      slotWindow t.shared.db.heap (t.entry o) slot b := by
  obtain ⟨n, hblock⟩ := (h.ring o hidx).block
  obtain ⟨hlo, hhi⟩ := hblock.inRing_range hslot
  have hlive := hapart _ (h.held.mem o _ (ObjInfo.block?_of_ne hidx))
  unfold HeapBlock.Apart ObjInfo.heapBlock at hlive
  dsimp only at hlive
  exact Heap.window_put_of_disjoint (by omega)

end Placed

end Threads

end KogmoRtdb
