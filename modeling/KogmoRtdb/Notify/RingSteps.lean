import KogmoRtdb.Notify.Blocks

/-!
# What the steps do to the rings

What a call that writes knows of its history slot (`PutKnows`), and what follows for the steps of
all calls: most of them leave every record with a stamp that fades at most. The others are few
(`RingStep`): a commit validates its record and makes it the latest, and an insert puts an object
into a free slot of the table.
-/

namespace KogmoRtdb

/-! ## The same buffer -/

/-- The object has the same buffer, and the same flags. -/
structure KeepsBuffer (info info' : ObjInfo) : Prop where
  bufferIdx : info'.bufferIdx = info.bufferIdx
  sizeMax : info'.sizeMax = info.sizeMax
  historySize : info'.historySize = info.historySize
  flags : info'.flags = info.flags

namespace KeepsBuffer

variable {info info' : ObjInfo} {slot : Int}

theorem refl (info : ObjInfo) : KeepsBuffer info info := ⟨rfl, rfl, rfl, rfl⟩

theorem slotAddr (h : KeepsBuffer info info') (slot : Int) :
    info'.slotAddr slot = info.slotAddr slot := by
  rw [ObjInfo.slotAddr, ObjInfo.slotAddr, h.bufferIdx, h.sizeMax]

theorem inRing (h : KeepsBuffer info info') (hslot : InRing info slot) : InRing info' slot := by
  unfold InRing
  rw [h.historySize]
  exact hslot

end KeepsBuffer

/-- Objects with a buffer keep it, and the database its mode. -/
structure BuffersKept (db db' : Db) : Prop where
  same : ∀ i, (db.objmeta i).bufferIdx ≠ 0 → KeepsBuffer (db.objmeta i) (db'.objmeta i)
  noNotifies : db'.noNotifies = db.noNotifies

/-! ## What a writer knows -/

def PutPc.Of (kind : PutKind) : PutPc → Prop
  | .invHigh | .invLow => kind ≠ .ptrCommit
  | .copy _ => kind = .writedata
  | _ => True

/-- The record that is copied has no stamp, and its size is that of an object's data. -/
structure Put.Copies (w : Put) (sizeMax : Int) : Prop where
  min : 24 ≤ w.size
  max : (w.size : Int) ≤ sizeMax
  low : w.src.read32 0 = hiWord invalidTs
  high : w.src.read32 4 = hiWord invalidTs
  size : 0 ≤ (w.src.read32 20).toInt

/-- What a call past its checks knows: it works on a slot of the object's ring. -/
structure PutKnows (db : Db) (w : Put) (pc : PutPc) : Prop where
  idx : (db.objmeta w.i).bufferIdx ≠ 0
  inRing : InRing (db.objmeta w.i) w.slot
  addr : w.addr = (db.objmeta w.i).slotAddr w.slot
  notifies : w.noNotifies = ((db.objmeta w.i).flags.noNotifies || db.noNotifies)
  kind : pc.Of w.kind
  copies : w.kind = .writedata → w.Copies (db.objmeta w.i).sizeMax

def WriteKnows (db : Db) (c : WriteCall) : WritePc → Prop
  | .lockObj i | .watch i | .choose i => (db.objmeta i).bufferIdx ≠ 0 ∧ c.Sized (db.objmeta i)
  | .put w pc => PutKnows db w pc
  | .filling i addr sizeMax =>
      (db.objmeta i).bufferIdx ≠ 0 ∧ sizeMax = (db.objmeta i).sizeMax ∧
        ∃ slot, InRing (db.objmeta i) slot ∧ addr = (db.objmeta i).slotAddr slot
  | _ => True

section Writers

variable {db db' : Db} {w : Put} {c : WriteCall} {s s' : Shared} {p : Pid}

theorem PutKnows.kept {pc : PutPc} (h : PutKnows db w pc) (hb : BuffersKept db db') :
    PutKnows db' w pc := by
  have hs := hb.same w.i h.idx
  refine ⟨?_, hs.inRing h.inRing, ?_, ?_, h.kind, ?_⟩
  · rw [hs.bufferIdx]
    exact h.idx
  · rw [hs.slotAddr]
    exact h.addr
  · rw [hs.flags, hb.noNotifies]
    exact h.notifies
  · rw [hs.sizeMax]
    exact h.copies

theorem WriteCall.sized_congr {info info' : ObjInfo} (h : info'.sizeMax = info.sizeMax)
    (hc : c.Sized info) : c.Sized info' := by
  unfold WriteCall.Sized at hc ⊢
  rw [h]
  exact hc

theorem WriteKnows.kept {pc : WritePc} (h : WriteKnows db c pc) (hb : BuffersKept db db') :
    WriteKnows db' c pc := by
  cases pc with
  | lockObj i | watch i | choose i =>
      have hs := hb.same i h.1
      refine ⟨?_, WriteCall.sized_congr hs.sizeMax h.2⟩
      rw [hs.bufferIdx]
      exact h.1
  | put w pc => exact PutKnows.kept h hb
  | filling i addr sizeMax =>
      obtain ⟨hidx, hsize, slot, hslot, haddr⟩ := h
      have hs := hb.same i hidx
      refine ⟨?_, ?_, slot, hs.inRing hslot, ?_⟩
      · rw [hs.bufferIdx]
        exact hidx
      · rw [hs.sizeMax]
        exact hsize
      · rw [hs.slotAddr]
        exact haddr
  | _ => trivial

theorem read32_commitSource (proc : BitVec 32) (data : Mem) :
    (commitSource proc data).read32 0 = hiWord invalidTs ∧
      (commitSource proc data).read32 4 = hiWord invalidTs ∧
      (commitSource proc data).read32 20 = data.read32 20 := by
  unfold commitSource Mem.write64
  refine ⟨?_, ?_, ?_⟩
  · rw [Mem.read32_write32_outside (by omega), Mem.read32_write32]
    decide
  · exact Mem.read32_write32 ..
  · rw [Mem.read32_write32_outside (by omega), Mem.read32_write32_outside (by omega),
      Mem.read32_write32_outside (by omega)]

theorem WriteCall.knows_choose {i : Nat} (hring : StoredRing db.heap (db.objmeta i))
    (hidx : (db.objmeta i).bufferIdx ≠ 0) (hc : c.Sized (db.objmeta i)) :
    WriteKnows db c (c.choose db i) := by
  obtain ⟨n, hb⟩ := hring.block
  have hnext : InRing (db.objmeta i)
      (nextSlot (db.objmeta i).historySize (db.objmeta i).historySlot) := hb.next_inRing
  cases c with
  | writedata h oid data ts =>
      obtain ⟨hmin, hmax⟩ := hc
      obtain ⟨hlow, hhigh, hsize⟩ := read32_commitSource (BitVec.ofInt 32 h.procOid) data
      have hnat : (((data.read32 20).toInt.toNat : Nat) : Int) = (data.read32 20).toInt :=
        Int.toNat_of_nonneg (by omega)
      refine ⟨hidx, hnext, rfl, rfl, (fun hk => by cases hk), fun _ => ⟨?_, ?_, hlow, hhigh, ?_⟩⟩
      · show 24 ≤ (data.read32 20).toInt.toNat
        omega
      · show ((data.read32 20).toInt.toNat : Int) ≤ (db.objmeta i).sizeMax
        omega
      · show 0 ≤ ((commitSource (BitVec.ofInt 32 h.procOid) data).read32 20).toInt
        rw [hsize]
        omega
  | ptrBegin h oid =>
      exact ⟨hidx, hnext, rfl, rfl, (fun hk => by cases hk), fun hk => by cases hk⟩
  | ptrCommit h oid dataPtr size ts =>
      unfold WriteCall.choose
      dsimp only
      split
      · trivial
      · exact ⟨hidx, hnext, rfl, rfl, trivial, fun hk => by cases hk⟩

theorem PutKnows.step {pc pc' : PutPc} (h : PutKnows db w pc) (hkind : pc'.Of w.kind) :
    PutKnows db w pc' := ⟨h.idx, h.inRing, h.addr, h.notifies, hkind, h.copies⟩

theorem Put.toValidate_of (w : Put) : w.toValidate.Of w.kind := by
  unfold Put.toValidate
  split <;> trivial

theorem Put.knows {pc : PutPc} {pc' : WritePc} (hk : PutKnows s.db w pc)
    (h : w.step p s pc = some (s', pc')) : WriteKnows s'.db c pc' := by
  have hsame {db : Db} {pc₁ : PutPc} (hm : db.objmeta = s.db.objmeta)
      (hno : db.noNotifies = s.db.noNotifies) (hkind : pc₁.Of w.kind) :
      WriteKnows db c (.put w pc₁) := by
    refine (hk.step hkind).kept ⟨fun i _ => ?_, hno⟩
    rw [hm]
    exact .refl _
  cases pc with
  | invHigh =>
      cases h
      exact hsame rfl rfl hk.kind
  | invLow =>
      have hnot : w.kind ≠ .ptrCommit := hk.kind
      simp only [Put.step, Option.some.injEq, Prod.mk.injEq] at h
      obtain ⟨rfl, rfl⟩ := h
      by_cases hkind : w.kind = .ptrBegin
      · rw [if_pos hkind]
        exact ⟨hk.idx, rfl, w.slot, hk.inRing, hk.addr⟩
      · rw [if_neg hkind]
        refine hsame rfl rfl ?_
        show w.kind = .writedata
        cases hw : w.kind with
        | writedata => rfl
        | ptrBegin => exact absurd hw hkind
        | ptrCommit => exact absurd hw hnot
  | copy n =>
      simp only [Put.step] at h
      split at h <;> cases h
      · exact hsame rfl rfl hk.kind
      · exact hsame rfl rfl trivial
  | dataTest =>
      cases h
      refine hsame rfl rfl ?_
      split
      · trivial
      · exact w.toValidate_of
  | dataHigh =>
      cases h
      exact hsame rfl rfl w.toValidate_of
  | prepare =>
      obtain ⟨u, hu, heq⟩ := Option.map_eq_some_iff.mp h
      cases heq
      have hdb := (OnlyLocks.lockNotify hu).db
      exact hsame (by rw [hdb]) (by rw [hdb]) trivial
  | publish =>
      cases h
      have hnext : PutKnows s.db w .unlockObj := hk.step trivial
      refine hnext.kept ⟨fun i _ => ?_, rfl⟩
      show KeepsBuffer (s.db.objmeta i) ((s.db.setMeta w.i _).objmeta i)
      by_cases hi : i = w.i
      · rw [hi, Db.setMeta_objmeta_self]
        exact ⟨rfl, rfl, rfl, rfl⟩
      · rw [Db.setMeta_objmeta_ne hi]
        exact .refl _
  | unlockObj =>
      simp only [Put.step, Option.some.injEq, Prod.mk.injEq] at h
      obtain ⟨rfl, rfl⟩ := h
      by_cases hno : w.noNotifies = true
      · rw [if_pos hno]
        trivial
      · rw [if_neg hno]
        refine hsame ?_ ?_ trivial <;> split <;> rfl
  | unlock =>
      cases h
      trivial
  | _ =>
      cases h
      exact hsame rfl rfl trivial

theorem WriteCall.knows [Rounding] {pc pc' : WritePc}
    (hring : ∀ i, (s.db.objmeta i).bufferIdx ≠ 0 → StoredRing s.db.heap (s.db.objmeta i))
    (hk : WriteKnows s.db c pc) (h : c.step p s pc = some (s', pc')) :
    WriteKnows s'.db c pc' := by
  cases pc with
  | find =>
      simp only [WriteCall.step] at h
      split at h <;> cases h <;> trivial
  | checks i =>
      cases h
      rcases c.checks_cases (s.db.objmeta i) i with ⟨ret, heq⟩ | ⟨hidx, hsized, heq | heq | heq⟩ <;>
        rw [heq]
      · trivial
      · exact ⟨hidx, hsized⟩
      · exact ⟨hidx, hsized⟩
      · exact ⟨hidx, hsized⟩
  | lockObj i =>
      obtain ⟨t, ht, heq⟩ := Option.map_eq_some_iff.mp h
      cases heq
      have hdb := (OnlyLocks.lockObj ht).db
      show (s'.db.objmeta i).bufferIdx ≠ 0 ∧ c.Sized (s'.db.objmeta i)
      rw [hdb]
      exact hk
  | watch i =>
      simp only [WriteCall.step] at h
      cases h
      split
      · trivial
      · exact hk
  | refuse i =>
      cases h
      trivial
  | choose i =>
      cases h
      exact c.knows_choose (hring i hk.1) hk.1 hk.2
  | put w pc => exact w.knows hk h
  | filling i addr sizeMax => cases h
  | done ret => cases h

end Writers

/-! ## The steps -/

def Pc.keepsObjects : Pc → Prop
  | .delete .. | .purge .. => False
  | _ => True

/-- What a step of a call at `pc` does to the objects and to the records in the blocks of all
owners. -/
inductive RingStep (t : Threads) (pc : Pc) (s' : Shared) : Prop where
  | calm (htable : s'.db.objmeta = t.shared.db.objmeta)
      (hfade : ∀ o slot, (t.entry o).bufferIdx ≠ 0 → InRing (t.entry o) slot →
        Fades (slotWindow t.shared.db.heap (t.entry o) slot)
          (slotWindow s'.db.heap (t.entry o) slot))
  | raise {c : WriteCall} {w : Put} {wpc : PutPc} (hpc : pc = .write c (.put w wpc))
      (hwpc : wpc = .valLow ∨ wpc = .valHigh) (htable : s'.db.objmeta = t.shared.db.objmeta)
      (hfade : ∀ o slot, (t.entry o).bufferIdx ≠ 0 → InRing (t.entry o) slot →
        ¬ (o = .slot w.i ∧ slot = w.slot) →
        Fades (slotWindow t.shared.db.heap (t.entry o) slot)
          (slotWindow s'.db.heap (t.entry o) slot))
      (hsize : slotSize s'.db.heap (t.shared.db.objmeta w.i) w.slot =
        slotSize t.shared.db.heap (t.shared.db.objmeta w.i) w.slot)
  | publish {c : WriteCall} {w : Put} (hpc : pc = .write c (.put w .publish))
      (htable : s'.db.objmeta = Function.update t.shared.db.objmeta w.i
        { t.shared.db.objmeta w.i with historySlot := w.slot })
      (hheap : s'.db.heap = t.shared.db.heap)
  | enter {c : InsertCall} {i : Nat} (hpc : pc = .insert c (.enter i))
      (htable : s'.db.objmeta = Function.update t.shared.db.objmeta i c.metadata)
      (hheap : s'.db.heap = t.shared.db.heap)
  | setOid {c : InsertCall} {i : Nat} {oid parentOid : ObjId}
      (hpc : pc = .insert c (.setOid i oid))
      (htable : s'.db.objmeta = Function.update t.shared.db.objmeta i
        { t.shared.db.objmeta i with parentOid := parentOid, oid := oid })
      (hheap : s'.db.heap = t.shared.db.heap)

/-- A step with what it does; only an insert that takes an oid counts on. -/
structure StepsRings (t : Threads) (pc : Pc) (s' : Shared) : Prop where
  ring : RingStep t pc s'
  noNotifies : s'.db.noNotifies = t.shared.db.noNotifies
  next : s'.db.objmetaOidNext = t.shared.db.objmetaOidNext ∨ ∃ c i, pc = .insert c (.takeOid i)

section Steps

variable {env : Env} {limit : Int} {t : Threads} {s' : Shared} {p : Pid} {l : Label}

theorem StepsRings.of_heap {pc : Pc} (htable : s'.db.objmeta = t.shared.db.objmeta)
    (hheap : s'.db.heap = t.shared.db.heap) (hno : s'.db.noNotifies = t.shared.db.noNotifies)
    (hnext : s'.db.objmetaOidNext = t.shared.db.objmetaOidNext ∨
      ∃ c i, pc = .insert c (.takeOid i)) : StepsRings t pc s' := by
  refine ⟨.calm htable fun o slot _ _ => ?_, hno, hnext⟩
  rw [hheap]
  exact .refl _

theorem StepsRings.of_db {pc : Pc} (h : s'.db = t.shared.db) : StepsRings t pc s' :=
  .of_heap (by rw [h]) (by rw [h]) (by rw [h]) (Or.inl (by rw [h]))

theorem StepsRings.store {pc : Pc} {i n len : Nat} {slot addr : Int} {data : Mem}
    (hp : t.Placed limit) (hidx : (t.shared.db.objmeta i).bufferIdx ≠ 0)
    (hslot : InRing (t.shared.db.objmeta i) slot)
    (haddr : addr = (t.shared.db.objmeta i).slotAddr slot + (4 * n : Nat))
    (hroom : ((4 * n + len : Nat) : Int) ≤ (t.shared.db.objmeta i).sizeMax)
    (hlen : n ≤ 5 → len = 4) (h01 : n ≤ 1 → data.read32 0 = hiWord invalidTs)
    (h5 : n = 5 → 0 ≤ (data.read32 0).toInt)
    (hs : s' = t.shared.setDb
      { t.shared.db with heap := t.shared.db.heap.put addr data len }) : StepsRings t pc s' := by
  subst hs haddr
  refine ⟨.calm rfl fun o slot' hidx' hslot' => ?_, rfl, Or.inl rfl⟩
  by_cases heq : o = .slot i ∧ slot' = slot
  · obtain ⟨rfl, rfl⟩ := heq
    show Fades (t.shared.db.heap.window ((t.shared.db.objmeta i).slotAddr slot'))
      ((t.shared.db.heap.put _ data len).window ((t.shared.db.objmeta i).slotAddr slot'))
    rw [Heap.window_put_add]
    exact .store hlen h01 h5
  · have h24 := (hp.ring o hidx').sizeMin
    refine .of_bytes fun b hb => ?_
    exact hp.store (o := .slot i) hidx hidx' hslot hslot' heq hroom data (by omega)

theorem Put.stepsRings {c : WriteCall} {w : Put} {pc : PutPc} {pc' : WritePc}
    (hp : t.Placed limit) (hk : PutKnows t.shared.db w pc)
    (h : w.step p t.shared pc = some (s', pc')) :
    StepsRings t (.write c (.put w pc)) s' := by
  have h24 := (hp.ring (.slot w.i) hk.idx).sizeMin
  have h24 : 24 ≤ (t.shared.db.objmeta w.i).sizeMax := h24
  have haddr := hk.addr
  have hword {n : Nat} {v : BitVec 32} (h5 : n ≤ 4) (h01 : n ≤ 1 → v = hiWord invalidTs)
      {a : Int} (ha : a = w.addr + (4 * n : Nat)) :
      StepsRings t (.write c (.put w pc)) (t.shared.store32 a v) := by
    refine .store hp hk.idx hk.inRing (by rw [ha, haddr]) ?_ (fun _ => rfl) (fun hn => ?_)
      (fun hn => by omega) rfl
    · omega
    · rw [Mem.read32_leBytes]
      exact h01 hn
  have hraise {n : Nat} {v : BitVec 32} (hn : n ≤ 1) (hpc : pc = .valLow ∨ pc = .valHigh)
      {a : Int} (ha : a = w.addr + (4 * n : Nat)) :
      StepsRings t (.write c (.put w pc)) (t.shared.store32 a v) := by
    rw [ha, haddr]
    refine ⟨.raise rfl hpc rfl (fun o slot hidx hslot hne => ?_) ?_, rfl, Or.inl rfl⟩
    · have h24' := (hp.ring o hidx).sizeMin
      refine .of_bytes fun b hb => ?_
      refine hp.store (o := .slot w.i) hk.idx hidx hk.inRing hslot hne ?_ _ (by omega)
      show ((4 * n + 4 : Nat) : Int) ≤ (t.shared.db.objmeta w.i).sizeMax
      omega
    · show ((Heap.window (Heap.put _ _ _ 4) _).read32 20).toInt = _
      rw [Heap.window_put_add, size_copy (by omega)]
      rfl
  cases pc with
  | invHigh =>
      cases h
      exact hword (n := 1) (by omega) (fun _ => rfl) rfl
  | invLow =>
      cases h
      exact hword (n := 0) (by omega) (fun _ => rfl) (by simp)
  | copy n =>
      have hkind : w.kind = .writedata := hk.kind
      obtain ⟨hmin, hmax, hlow, hhigh, hsize⟩ := hk.copies hkind
      simp only [Put.step] at h
      split at h <;> cases h
      · refine .store hp hk.idx hk.inRing (by rw [haddr]) (by omega) (by omega) (fun hn => ?_)
          (fun hn => ?_) rfl
        · obtain rfl | rfl : n = 0 ∨ n = 1 := by omega
          · exact hlow
          · exact hhigh
        · subst hn
          exact hsize
      · exact .of_db rfl
  | proc =>
      cases h
      exact hword (n := 2) (by omega) (fun hn => by omega) rfl
  | dataTest =>
      cases h
      exact .of_db rfl
  | dataLow =>
      cases h
      exact hword (n := 3) (by omega) (fun hn => by omega) rfl
  | dataHigh =>
      cases h
      exact hword (n := 4) (by omega) (fun hn => by omega) rfl
  | prepare =>
      obtain ⟨u, hu, heq⟩ := Option.map_eq_some_iff.mp h
      cases heq
      exact .of_db (OnlyLocks.lockNotify hu).db
  | valLow =>
      cases h
      exact hraise (n := 0) (by omega) (Or.inl rfl) (by simp)
  | valHigh =>
      cases h
      exact hraise (n := 1) (by omega) (Or.inr rfl) rfl
  | publish =>
      cases h
      exact ⟨.publish rfl rfl rfl, rfl, Or.inl rfl⟩
  | unlockObj =>
      cases h
      refine .of_db ?_
      split <;> rfl
  | broadcast | unlock =>
      cases h
      exact .of_db rfl

theorem WriteCall.stepsRings [Rounding] {c : WriteCall} {pc pc' : WritePc} (hp : t.Placed limit)
    (hk : WriteKnows t.shared.db c pc) (h : c.step p t.shared pc = some (s', pc')) :
    StepsRings t (.write c pc) s' := by
  cases pc with
  | find =>
      simp only [WriteCall.step] at h
      split at h <;> cases h <;> exact .of_db rfl
  | lockObj i =>
      obtain ⟨u, hu, heq⟩ := Option.map_eq_some_iff.mp h
      cases heq
      exact .of_db (OnlyLocks.lockObj hu).db
  | refuse i =>
      cases h
      refine .of_db ?_
      split <;> rfl
  | put w pc => exact w.stepsRings hp hk h
  | filling i addr sizeMax => cases h
  | done ret => cases h
  | _ =>
      cases h
      exact .of_db rfl

theorem InsertCall.stepsRings [Rounding] {c c' : InsertCall} {pc pc' : InsertPc}
    (hp : t.Placed limit) (hf : AllocSound limit env.alloc) (hr : RefusesNegative env.alloc)
    (h : c.step env p t.shared pc = some (s', c', pc')) : StepsRings t (.insert c pc) s' := by
  cases pc with
  | lock | relock =>
      obtain ⟨u, hu, heq⟩ := Option.map_eq_some_iff.mp h
      cases heq
      exact .of_db (OnlyLocks.lockObjmeta hu).db
  | alloc =>
      simp only [InsertCall.step] at h
      split at h
      · cases h
        exact .of_db rfl
      · rename_i hsize
        split at h <;> cases h
        · exact .of_db rfl
        · rename_i idx halloc
          rw [hr] at halloc
          have hapart := (hf _ _ _ hp.held.live.legit (by omega) halloc).2.2
          refine ⟨.calm rfl fun o slot hidx hslot => ?_, rfl, Or.inl rfl⟩
          have h24 := (hp.ring o hidx).sizeMin
          refine .of_bytes fun b hb => ?_
          exact hp.clear hidx hslot hapart (by omega) (by omega)
  | enter i =>
      cases h
      exact ⟨.enter rfl rfl rfl, rfl, Or.inl rfl⟩
  | setOid i oid =>
      cases h
      exact ⟨.setOid rfl rfl rfl, rfl, Or.inl rfl⟩
  | freeClash | freeNoOid =>
      simp only [InsertCall.step] at h
      cases h
      split
      · exact .of_heap rfl rfl rfl (Or.inl rfl)
      · exact .of_db rfl
  | takeOid i =>
      cases h
      exact .of_heap rfl rfl rfl (Or.inr ⟨c, i, rfl⟩)
  | done ret => cases h
  | _ =>
      simp only [InsertCall.step] at h
      repeat' split at h
      all_goals
        cases h
        exact .of_heap rfl rfl rfl (Or.inl rfl)

def Pc.WriterKnows (db : Db) : Pc → Prop
  | .write c pc => WriteKnows db c pc
  | _ => True

theorem Label.stepsRings [Rounding] {pc' : Pc} (hp : t.Placed limit)
    (hf : AllocSound limit env.alloc)
    (hr : RefusesNegative env.alloc) (hkeeps : (t.pc l.pid).keepsObjects)
    (hk : (t.pc l.pid).WriterKnows t.shared.db)
    (hm : l.move env t.shared (t.pc l.pid) = some (s', pc')) :
    StepsRings t (t.pc l.pid) s' := by
  generalize hpc : t.pc l.pid = pc at hkeeps hk hm
  cases l with
  | start p call now =>
      simp only [Label.move] at hm
      split at hm <;> cases hm
      exact .of_db rfl
  | next p now =>
      cases pc with
      | idle => cases hm
      | waitnext c pc =>
          obtain ⟨⟨u, pc₁⟩, hstep, heq⟩ := Option.map_eq_some_iff.mp hm
          cases heq
          exact .of_db (c.onlyLocks hstep).db
      | searchWait c pc =>
          obtain ⟨⟨u, pc₁⟩, hstep, heq⟩ := Option.map_eq_some_iff.mp hm
          cases heq
          exact .of_db (c.onlyLocks hstep).db
      | write c pc =>
          obtain ⟨⟨u, pc₁⟩, hstep, heq⟩ := Option.map_eq_some_iff.mp hm
          cases heq
          exact c.stepsRings hp hk hstep
      | insert c pc =>
          obtain ⟨⟨u, c₁, pc₁⟩, hstep, heq⟩ := Option.map_eq_some_iff.mp hm
          cases heq
          exact c.stepsRings hp hf hr hstep
      | delete c pc => exact hkeeps.elim
      | purge c pc => exact hkeeps.elim
  | wake p timedOut =>
      simp only [Label.move, Pc.wake] at hm
      split at hm
      · split at hm <;> cases hm
        exact .of_db rfl
      · split at hm <;> cases hm
        exact .of_db rfl
      · cases hm
  | fill p n v =>
      cases pc with
      | write c pc =>
          obtain ⟨u, hu, heq⟩ := Option.map_eq_some_iff.mp hm
          cases heq
          cases pc with
          | filling i addr sizeMax =>
              obtain ⟨hidx, hsize, slot, hslot, haddr⟩ := hk
              simp only [fillWord] at hu
              split at hu <;> cases hu
              rename_i hn
              refine .store hp hidx hslot (by rw [haddr]) ?_ (fun _ => rfl) (fun h1 => by omega)
                (fun h5 => ?_) rfl
              · omega
              · rw [Mem.read32_leBytes]
                exact hn.2.2 h5
          | _ => cases hu
      | _ => cases hm

end Steps

end KogmoRtdb
