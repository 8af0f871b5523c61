import KogmoRtdb.Meta.RefusedFrees
import KogmoRtdb.Notify.Numbers

/-!
# The blocks over a step

Every step of a thread leaves the blocks apart and the rings in them (`Threads.Placed.move`): a
block goes from the allocator to the thread that inserts an object, from there into the table, and
back to the allocator only if the object does not get there.

`Interleaved` collects what holds in every state of a run without deletes. An object with a buffer
keeps it for good then (`Interleaved.buffersKept`).
-/

namespace KogmoRtdb

/-! ## What is in hand -/

/-- The insert's block goes to the allocator or comes from it, or goes into the table. -/
def InsertPc.moves : InsertPc → Bool
  | .alloc | .freeClash | .freeNoOid | .enter _ => true
  | _ => false

section Hand

variable {env : Env} {s s' : Shared} {p : Pid}

theorem InsertCall.hand_step [Rounding] {c c' : InsertCall} {pc pc' : InsertPc}
    (hmoves : pc.moves = false) (hlive : ∀ i, (s.db.objmeta i).deletedTs = 0)
    (hbare : pc.bare = true → c.metadata.bufferIdx = 0)
    (h : c.step env p s pc = some (s', c', pc')) :
    s'.heapLog = s.heapLog ∧
      ((Pc.insert c' pc').inHand.bufferIdx ≠ 0 →
        (Pc.insert c' pc').inHand = (Pc.insert c pc).inHand) := by
  cases pc with
  | lock =>
      obtain ⟨t, ht, heq⟩ := Option.map_eq_some_iff.mp h
      cases heq
      exact ⟨(OnlyLocks.lockObjmeta ht).heapLog, fun hne => absurd rfl hne⟩
  | relock =>
      obtain ⟨t, ht, heq⟩ := Option.map_eq_some_iff.mp h
      cases heq
      refine ⟨(OnlyLocks.lockObjmeta ht).heapLog, fun _ => ?_⟩
      split <;> rfl
  | reuse =>
      simp only [InsertCall.step, findReusable_of_live hlive] at h
      split at h <;> cases h
      · exact ⟨rfl, fun hne => absurd rfl hne⟩
      · exact ⟨rfl, fun hne => absurd (hbare rfl) hne⟩
  | alloc | freeClash | freeNoOid | enter i => cases hmoves
  | takeOid i =>
      cases h
      refine ⟨rfl, fun hne => absurd ?_ hne⟩
      split <;> rfl
  | done ret => cases h
  | _ =>
      simp only [InsertCall.step] at h
      repeat' split at h
      all_goals
        cases h
        first
          | exact ⟨rfl, fun _ => rfl⟩
          | exact ⟨rfl, fun hne => absurd rfl hne⟩

theorem WriteCall.heapLog_step [Rounding] {c : WriteCall} {pc pc' : WritePc}
    (h : c.step p s pc = some (s', pc')) : s'.heapLog = s.heapLog := by
  cases pc with
  | lockObj i =>
      obtain ⟨t, ht, heq⟩ := Option.map_eq_some_iff.mp h
      cases heq
      exact (OnlyLocks.lockObj ht).heapLog
  | put w pc =>
      cases pc with
      | prepare =>
          obtain ⟨t, ht, heq⟩ := Option.map_eq_some_iff.mp h
          cases heq
          exact (OnlyLocks.lockNotify ht).heapLog
      | _ =>
          simp only [WriteCall.step, Put.step] at h
          repeat' split at h
          all_goals
            cases h
            rfl
  | filling i addr sizeMax => cases h
  | done ret => cases h
  | _ =>
      simp only [WriteCall.step] at h
      repeat' split at h
      all_goals
        cases h
        rfl

theorem Label.hand_move [Rounding] {t : Threads} {l : Label} {pc' : Pc}
    (hkeeps : (t.pc l.pid).keepsObjects) (hlive : ∀ i, (t.shared.db.objmeta i).deletedTs = 0)
    (hk : ∀ c pc, t.pc l.pid = .insert c pc → InsertKnows t.shared.db.objmeta c pc)
    (hmoves : ∀ c pc, t.pc l.pid = .insert c pc → pc.moves = false)
    (hm : l.move env t.shared (t.pc l.pid) = some (s', pc')) :
    s'.heapLog = t.shared.heapLog ∧
      (pc'.inHand.bufferIdx ≠ 0 → pc'.inHand = (t.pc l.pid).inHand) := by
  generalize t.pc l.pid = pc at hkeeps hk hmoves hm
  cases l with
  | start p call now =>
      simp only [Label.move] at hm
      split at hm <;> cases hm
      refine ⟨rfl, fun hne => absurd ?_ hne⟩
      cases call with
      | insert h metadata => dsimp only [Start.enter]; split <;> rfl
      | _ => rfl
  | next p now =>
      cases pc with
      | idle => cases hm
      | waitnext c pc =>
          obtain ⟨⟨u, pc₁⟩, hstep, heq⟩ := Option.map_eq_some_iff.mp hm
          cases heq
          exact ⟨(c.onlyLocks hstep).heapLog, fun hne => absurd rfl hne⟩
      | searchWait c pc =>
          obtain ⟨⟨u, pc₁⟩, hstep, heq⟩ := Option.map_eq_some_iff.mp hm
          cases heq
          exact ⟨(c.onlyLocks hstep).heapLog, fun hne => absurd rfl hne⟩
      | write c pc =>
          obtain ⟨⟨u, pc₁⟩, hstep, heq⟩ := Option.map_eq_some_iff.mp hm
          cases heq
          exact ⟨c.heapLog_step hstep, fun hne => absurd rfl hne⟩
      | insert c pc =>
          obtain ⟨⟨u, c₁, pc₁⟩, hstep, heq⟩ := Option.map_eq_some_iff.mp hm
          cases heq
          exact c.hand_step (hmoves c pc rfl) hlive (fun hb => ((hk c pc rfl).bare hb).2.1) hstep
      | delete c pc => exact hkeeps.elim
      | purge c pc => exact hkeeps.elim
  | wake p timedOut =>
      simp only [Label.move, Pc.wake] at hm
      split at hm
      · split at hm <;> cases hm
        exact ⟨rfl, fun hne => absurd rfl hne⟩
      · split at hm <;> cases hm
        exact ⟨rfl, fun hne => absurd rfl hne⟩
      · cases hm
  | fill p n v =>
      cases pc with
      | write c pc =>
          obtain ⟨u, hu, heq⟩ := Option.map_eq_some_iff.mp hm
          cases heq
          refine ⟨?_, fun hne => absurd rfl hne⟩
          cases pc with
          | filling i addr sizeMax =>
              simp only [fillWord] at hu
              split at hu <;> cases hu
              rfl
          | _ => cases hu
      | _ => cases hm

end Hand

/-! ## Blocks that change hands -/

/-- The object's buffer is that of another entry before, with a latest record of its own at
most. -/
structure Inherits (info info' : ObjInfo) : Prop where
  buffer : KeepsBuffer info info'
  slot : info'.historySlot = info.historySlot ∨ InRing info info'.historySlot

theorem Inherits.refl (info : ObjInfo) : Inherits info info := ⟨.refl info, Or.inl rfl⟩

section Blocks

variable {env : Env} {limit : Int} {t t' : Threads} {s' : Shared} {l : Label} {pc' : Pc}
  {info info' : ObjInfo} {heap : Heap}

theorem KeepsBuffer.block? (h : KeepsBuffer info info') : info'.block? = info.block? := by
  unfold ObjInfo.block? ObjInfo.heapBlock ObjInfo.blockSize
  rw [h.bufferIdx, h.sizeMax, h.historySize]

theorem StoredRing.inherit (h : StoredRing heap info) (hi : Inherits info info') :
    StoredRing heap info' := by
  obtain ⟨n, hb⟩ := h.block
  have hbuf := hi.buffer
  refine ⟨⟨n, ?_, hb.pos, ?_, ?_, ?_⟩, ?_, ?_, fun slot hslot => ?_⟩
  · rw [hbuf.historySize]
    exact hb.historySize
  · rw [hbuf.sizeMax]
    exact hb.sizeMin
  · rw [hbuf.bufferIdx]
    exact hb.idx
  · rw [hbuf.bufferIdx, hbuf.sizeMax]
    exact hb.bound
  · rcases hi.slot with heq | hin
    · rw [heq]
      exact h.low
    · have := hin.1
      omega
  · rw [hbuf.historySize]
    rcases hi.slot with heq | hin
    · rw [heq]
      exact h.high
    · exact hin.2
  · have hslot : InRing info slot := by
      unfold InRing at hslot ⊢
      rwa [hbuf.historySize] at hslot
    show 0 ≤ slotSize heap info' slot
    unfold slotSize slotWindow
    rw [hbuf.slotAddr]
    exact h.sizes slot hslot

namespace Threads

@[simp] theorem entry_slot (t : Threads) (i : Nat) :
    t.entry (.slot i) = t.shared.db.objmeta i := rfl

@[simp] theorem entry_moved_self : (t.moved l s' pc').entry (.thread l.pid) = pc'.inHand := by
  show ((t.moved l s' pc').pc l.pid).inHand = pc'.inHand
  rw [moved_pc_self]

theorem entry_moved_of_ne {q : Pid} (h : q ≠ l.pid) :
    (t.moved l s' pc').entry (.thread q) = t.entry (.thread q) := by
  show ((t.moved l s' pc').pc q).inHand = (t.pc q).inHand
  rw [moved_pc_of_ne h]

namespace Placed

theorem ring_kept {pc : Pc} {o : Owner} (h : t.Placed limit) (hr : RingStep t pc s')
    (ho : (t.entry o).bufferIdx ≠ 0) : StoredRing s'.db.heap (t.entry o) := by
  have hring := h.ring o ho
  cases hr with
  | calm htable hfade => exact hring.of_sizes fun slot hslot => (hfade o slot ho hslot).size
  | @raise c w wpc hpc hwpc htable hfade hsize =>
      refine hring.of_sizes fun slot hslot h0 => ?_
      by_cases heq : o = .slot w.i ∧ slot = w.slot
      · obtain ⟨rfl, rfl⟩ := heq
        rw [entry_slot, hsize]
        exact h0
      · exact (hfade o slot ho hslot heq).size h0
  | publish hpc htable hheap => rwa [hheap]
  | enter hpc htable hheap => rwa [hheap]
  | setOid hpc htable hheap => rwa [hheap]

/-- Blocks change hands, and none is handed out or given back. -/
theorem pass {σ : Owner → Owner} (h : t.Placed limit) (hσ : Function.Injective σ)
    (hlog : acceptedCalls t'.shared.heapLog = acceptedCalls t.shared.heapLog)
    (hheap : ∀ o, (t.entry o).bufferIdx ≠ 0 → StoredRing t'.shared.db.heap (t.entry o))
    (hle : ∀ o, (t'.entry o).bufferIdx ≠ 0 → Inherits (t.entry (σ o)) (t'.entry o)) :
    t'.Placed limit where
  held := by
    rw [hlog]
    refine h.held.pass hσ fun o b hb => ?_
    rw [← (hle o (ObjInfo.block?_eq_some hb).1).buffer.block?]
    exact hb
  ring o ho := by
    have hi := hle o ho
    refine (hheap (σ o) ?_).inherit hi
    rw [← hi.buffer.bufferIdx]
    exact ho

end Placed

end Threads

/-- What a slot's entry is after a step that enters no object. -/
theorem RingStep.inherits {pc : Pc} (h : RingStep t pc s') (hk : pc.WriterKnows t.shared.db)
    (henter : ∀ c i, pc ≠ .insert c (.enter i)) (i : Nat) :
    Inherits (t.shared.db.objmeta i) (s'.db.objmeta i) := by
  cases h with
  | calm htable hfade =>
      rw [htable]
      exact .refl _
  | raise hpc hwpc htable hfade hsize =>
      rw [htable]
      exact .refl _
  | @publish c w hpc htable hheap =>
      rw [htable]
      by_cases hi : i = w.i
      · subst hi
        rw [Function.update_self]
        rw [hpc] at hk
        have hk : PutKnows t.shared.db w .publish := hk
        exact ⟨⟨rfl, rfl, rfl, rfl⟩, Or.inr hk.inRing⟩
      · rw [Function.update_of_ne hi]
        exact .refl _
  | enter hpc htable hheap => exact absurd hpc (henter _ _)
  | @setOid c j oid parentOid hpc htable hheap =>
      rw [htable]
      by_cases hi : i = j
      · subst hi
        rw [Function.update_self]
        exact ⟨⟨rfl, rfl, rfl, rfl⟩, Or.inl rfl⟩
      · rw [Function.update_of_ne hi]
        exact .refl _

end Blocks

/-! ## A step of any thread -/

/-- The condition on a call: it deletes nothing, and an object's size is one of `int32_t`. -/
def Start.Keeps : Start → Prop
  | .delete .. | .purgeObjs => False
  | .insert _ metadata => metadata.sizeMax < 2 ^ 31
  | _ => True

/-- The condition on a step that asks for a block: the size of the ring does not leave the 32-bit
range. -/
def Pc.FitsRing : Pc → Prop
  | .insert c .alloc => 0 < c.metadata.blockSize → c.metadata.Fits
  | _ => True

/-- The condition on a run's steps: no call deletes, and the rings fit. -/
def Threads.Keeps (t : Threads) : Label → Prop
  | .start _ call _ => call.Keeps
  | .next p _ => (t.pc p).FitsRing
  | _ => True

instance : DecidablePred Start.Keeps
  | .delete .. | .purgeObjs => isFalse id
  | .insert _ metadata => inferInstanceAs (Decidable (metadata.sizeMax < 2 ^ 31))
  | .waitnext _ | .searchWait _ | .writedata .. | .ptrBegin .. | .ptrCommit .. => isTrue trivial

instance : DecidablePred Pc.FitsRing
  | .insert c .alloc =>
      inferInstanceAs (Decidable (0 < c.metadata.blockSize → c.metadata.Fits))
  | .idle | .waitnext .. | .searchWait .. | .write .. | .delete .. | .purge .. => isTrue trivial
  | .insert _ .lock | .insert _ .reuse | .insert _ .unlock | .insert _ .relock
  | .insert _ .findFree | .insert _ .unique | .insert _ .unlockClash | .insert _ .freeClash
  | .insert _ (.enter _) | .insert _ (.takeOid _) | .insert _ .freeNoOid | .insert _ (.setOid ..)
  | .insert _ (.broadcast _) | .insert _ (.release _) | .insert _ (.done _) => isTrue trivial

instance (t : Threads) : DecidablePred t.Keeps
  | .start _ call _ => inferInstanceAs (Decidable call.Keeps)
  | .next p _ => inferInstanceAs (Decidable (t.pc p).FitsRing)
  | .wake .. | .fill .. => isTrue trivial

namespace Threads.Placed

variable {env : Env} {limit : Int} {t : Threads} {s' : Shared} {l : Label} {pc' : Pc}

theorem alloc [Rounding] {c c' : InsertCall} {pc₁ : InsertPc} (h : t.Placed limit)
    (hf : AllocSound limit env.alloc) (hr : RefusesNegative env.alloc) (hlimit : limit < 2 ^ 31)
    (hfits : 0 < c.metadata.blockSize → c.metadata.Fits)
    (hk : InsertKnows t.shared.db.objmeta c .alloc)
    (hheap : ∀ o, (t.entry o).bufferIdx ≠ 0 → StoredRing s'.db.heap (t.entry o))
    (hs : c.step env l.pid t.shared .alloc = some (s', c', pc₁)) :
    (t.moved l s' (.insert c' pc₁)).Placed limit := by
  obtain ⟨hnew, hidx, -, hsize⟩ := hk.bare rfl
  have hslot := hk.fresh.2.2
  -- no block comes into the hands of the thread
  have hnone (hlog : s'.heapLog = t.shared.heapLog)
      (htable : s'.db.objmeta = t.shared.db.objmeta)
      (hhand : (Pc.insert c' pc₁).inHand.bufferIdx = 0) :
      (t.moved l s' (.insert c' pc₁)).Placed limit := by
    refine h.pass Function.injective_id (by rw [moved_shared, hlog]) hheap fun o ho => ?_
    cases o with
    | slot i =>
        show Inherits (t.shared.db.objmeta i) (s'.db.objmeta i)
        rw [htable]
        exact .refl _
    | thread q =>
        by_cases hq : q = l.pid
        · rw [hq, entry_moved_self] at ho
          exact absurd hhand ho
        · rw [entry_moved_of_ne hq]
          exact .refl _
  simp only [InsertCall.step] at hs
  split at hs
  · cases hs
    exact hnone rfl rfl hidx
  · rename_i hpos
    have hpos : 0 < c.metadata.blockSize := by omega
    split at hs <;> cases hs
    · exact hnone rfl rfl hidx
    · rename_i idx halloc
      rw [hr] at halloc
      obtain ⟨h0, hend, -⟩ := hf _ _ _ h.held.live.legit hpos halloc
      have hneg : ¬ idx < 0 := by omega
      simp only [if_neg hneg] at hheap ⊢
      refine ⟨h.held.alloc (p := .thread l.pid) hf hpos halloc fun o b hb => ?_, fun o ho => ?_⟩
      · cases o with
        | slot i => exact Or.inl ⟨Owner.noConfusion, hb⟩
        | thread q =>
            by_cases hq : q = l.pid
            · rw [hq, entry_moved_self] at hb
              exact Or.inr ⟨by rw [hq], (ObjInfo.block?_eq_some hb).2⟩
            · rw [entry_moved_of_ne hq] at hb
              exact Or.inl ⟨fun heq => hq (Owner.thread.inj heq), hb⟩
      · cases o with
        | slot i => exact hheap (.slot i) ho
        | thread q =>
            by_cases hq : q = l.pid
            · rw [hq, entry_moved_self] at ho ⊢
              have hne : idx ≠ 0 := ho
              obtain ⟨n, hb⟩ := exists_block (m := { c.metadata with bufferIdx := idx }) hsize
                (hfits hpos) hpos (by show 0 < idx; omega) (Int.lt_of_le_of_lt hend hlimit)
              exact .fresh hb hslot
            · rw [entry_moved_of_ne hq] at ho ⊢
              exact hheap (.thread q) ho

/-- An insert that found a clash gives its block back. -/
theorem freeClash [Rounding] {c c' : InsertCall} {pc₁ : InsertPc} (h : t.Placed limit)
    (hpc : t.pc l.pid = .insert c .freeClash) (hk : InsertKnows t.shared.db.objmeta c .freeClash)
    (hs : c.step env l.pid t.shared .freeClash = some (s', c', pc₁)) :
    (t.moved l s' (.insert c' pc₁)).Placed limit := by
  have hentry : t.entry (.thread l.pid) = c.metadata := by
    show (t.pc l.pid).inHand = c.metadata
    rw [hpc]
    rfl
  simp only [InsertCall.step, Option.some.injEq, Prod.mk.injEq] at hs
  obtain ⟨rfl, rfl, rfl⟩ := hs
  -- only the thread's own block is let go
  have hinherits (o : Owner) {s : Shared} (hs : s.db.objmeta = t.shared.db.objmeta)
      (ho : ((t.moved l s (.insert c (.done (-Err.notUniq.code)))).entry o).bufferIdx ≠ 0) :
      o ≠ .thread l.pid ∧
        (t.moved l s (.insert c (.done (-Err.notUniq.code)))).entry o = t.entry o := by
    cases o with
    | slot i =>
        refine ⟨Owner.noConfusion, ?_⟩
        show s.db.objmeta i = t.shared.db.objmeta i
        rw [hs]
    | thread q =>
        by_cases hq : q = l.pid
        · rw [hq, entry_moved_self] at ho
          exact absurd rfl ho
        · exact ⟨fun heq => hq (Owner.thread.inj heq), entry_moved_of_ne hq⟩
  by_cases hidx : c.newIdx = 0
  · rw [if_neg (by simpa using hidx)]
    refine h.pass Function.injective_id rfl h.ring fun o ho => ?_
    rw [(hinherits o rfl ho).2]
    exact .refl _
  rw [if_pos hidx]
  rcases hk.carries rfl with hblock | ⟨hneg, -⟩
  · have hne : c.metadata.bufferIdx ≠ 0 := by rwa [hblock] at hidx
    have hmine : (t.entry (.thread l.pid)).block? = some ⟨c.newIdx, c.metadata.blockSize⟩ := by
      rw [hentry, ObjInfo.block?_of_ne hne, hblock]
      rfl
    have hpos : 0 ≤ c.newIdx := (h.held.live.inside _ (h.held.mem _ _ hmine)).1
    refine ⟨?_, fun o ho => ?_⟩
    · show Held limit (acceptedCalls (.free ⟨c.newIdx, c.metadata.blockSize⟩ ::
        t.shared.heapLog)) _
      rw [acceptedCalls_free hpos]
      refine h.held.free hmine fun o b hb => ?_
      obtain ⟨ho, heq⟩ := hinherits o (s := t.shared.freed c.newIdx c.metadata.blockSize) rfl
        (ObjInfo.block?_eq_some hb).1
      rw [heq] at hb
      exact ⟨ho, hb⟩
    · have heq := (hinherits o (s := t.shared.freed c.newIdx c.metadata.blockSize) rfl ho).2
      rw [heq] at ho ⊢
      exact h.ring o ho
  · refine h.pass Function.injective_id ?_ h.ring fun o ho => ?_
    · exact acceptedCalls_refused hneg _
    · rw [(hinherits o (s := t.shared.freed c.newIdx c.metadata.blockSize) rfl ho).2]
      exact .refl _

theorem enter {c : InsertCall} {i : Nat} (h : t.Placed limit)
    (hpc : t.pc l.pid = .insert c (.enter i)) :
    (t.moved l (t.shared.setDb (t.shared.db.setMeta i c.metadata))
      (.insert c (.takeOid i))).Placed limit := by
  have hentry : t.entry (.thread l.pid) = c.metadata := by
    show (t.pc l.pid).inHand = c.metadata
    rw [hpc]
    rfl
  refine h.pass (σ := Equiv.swap (.slot i) (.thread l.pid)) (Equiv.injective _) rfl h.ring
    fun o ho => ?_
  cases o with
  | slot j =>
      by_cases hj : j = i
      · subst hj
        rw [Equiv.swap_apply_left, hentry]
        show Inherits c.metadata ((t.shared.db.setMeta j c.metadata).objmeta j)
        rw [Db.setMeta_objmeta_self]
        exact .refl _
      · rw [Equiv.swap_apply_of_ne_of_ne (fun heq => hj (Owner.slot.inj heq)) Owner.noConfusion]
        show Inherits (t.shared.db.objmeta j) ((t.shared.db.setMeta i c.metadata).objmeta j)
        rw [Db.setMeta_objmeta_ne hj]
        exact .refl _
  | thread q =>
      by_cases hq : q = l.pid
      · rw [hq, entry_moved_self] at ho
        exact absurd rfl ho
      · rw [Equiv.swap_apply_of_ne_of_ne Owner.noConfusion fun heq => hq (Owner.thread.inj heq),
          entry_moved_of_ne hq]
        exact .refl _

theorem move [Rounding] (h : t.Placed limit) (hf : AllocSound limit env.alloc)
    (hr : RefusesNegative env.alloc) (hlimit : limit < 2 ^ 31) (hg : t.Keeps l)
    (hlive : ∀ i, (t.shared.db.objmeta i).deletedTs = 0)
    (hk : ∀ c pc, t.pc l.pid = .insert c pc → InsertKnows t.shared.db.objmeta c pc)
    (hkeeps : (t.pc l.pid).keepsObjects) (hw : (t.pc l.pid).WriterKnows t.shared.db)
    (hring : RingStep t (t.pc l.pid) s')
    (hm : l.move env t.shared (t.pc l.pid) = some (s', pc')) : (t.moved l s' pc').Placed limit := by
  have hheap {o : Owner} (ho : (t.entry o).bufferIdx ≠ 0) : StoredRing s'.db.heap (t.entry o) :=
    h.ring_kept hring ho
  by_cases hmoves : ∃ c pc, t.pc l.pid = .insert c pc ∧ pc.moves = true
  · obtain ⟨c, pc, hpc, hmoves⟩ := hmoves
    have hinsert := hk c pc hpc
    have hm' := hm
    rw [hpc] at hm'
    obtain ⟨c', pc₁, rfl, hstep⟩ := l.insert_step (by cases pc <;> first | rfl | cases hmoves) hm'
    cases pc with
    | alloc =>
        refine h.alloc hf hr hlimit (fun hpos => ?_) hinsert (fun o => hheap) hstep
        cases l with
        | next p now =>
            have hg : (t.pc p).FitsRing := hg
            have hpc : t.pc p = .insert c .alloc := hpc
            rw [hpc] at hg
            exact hg hpos
        | start p call now =>
            rw [hpc] at hm
            cases hm
        | wake p timedOut =>
            rw [hpc] at hm
            cases hm
        | fill p n v =>
            rw [hpc] at hm
            cases hm
    | freeClash => exact h.freeClash hpc hinsert hstep
    | freeNoOid => exact absurd rfl hinsert.numbered
    | enter i =>
        cases hstep
        exact h.enter hpc
    | _ => cases hmoves
  · have hmoves : ∀ c pc, t.pc l.pid = .insert c pc → pc.moves = false := by
      intro c pc hpc
      by_contra hnot
      exact hmoves ⟨c, pc, hpc, by simpa using hnot⟩
    obtain ⟨hlog, hhand⟩ := l.hand_move hkeeps hlive hk hmoves hm
    refine h.pass Function.injective_id (by rw [moved_shared, hlog]) (fun o => hheap)
      fun o ho => ?_
    cases o with
    | slot i =>
        refine hring.inherits hw (fun c j hpc => ?_) i
        cases hmoves c _ hpc
    | thread q =>
        by_cases hq : q = l.pid
        · rw [hq, entry_moved_self] at ho ⊢
          rw [hhand ho]
          exact .refl _
        · rw [entry_moved_of_ne hq]
          exact .refl _

end Threads.Placed

/-! ## Runs without deletes -/

/-- What holds in every state of a run whose steps meet the condition. -/
structure Interleaved (limit : Int) (t : Threads) : Prop where
  locks : LocksInv t
  placed : t.Placed limit
  numbered : t.Numbered
  inserts : ∀ p c pc, t.pc p = .insert c pc → InsertKnows t.shared.db.objmeta c pc
  writers : ∀ p, (t.pc p).WriterKnows t.shared.db
  keeps : ∀ p, (t.pc p).keepsObjects

namespace Interleaved

variable {env : Env} {limit heapSize : Int} {t : Threads} {s' : Shared} {l : Label} {pc' : Pc}

theorem stepsRings [Rounding] (h : Interleaved limit t) (hf : AllocSound limit env.alloc)
    (hr : RefusesNegative env.alloc)
    (hm : l.move env t.shared (t.pc l.pid) = some (s', pc')) : StepsRings t (t.pc l.pid) s' :=
  l.stepsRings h.placed hf hr (h.keeps l.pid) (h.writers l.pid) hm

theorem bufferIdx_of_enter (h : Interleaved limit t) {p : Pid} {c : InsertCall} {i : Nat}
    (hpc : t.pc p = .insert c (.enter i)) : (t.shared.db.objmeta i).bufferIdx = 0 := by
  by_contra hidx
  obtain ⟨q, c', pc, hq, hent⟩ := h.numbered.vacant i ((h.inserts p c _ hpc).free i rfl).2 hidx
  rw [Threads.Numbered.eq_of_entered h.locks hpc rfl hq hent, hpc] at hq
  cases hq
  cases hent

theorem buffersKept (h : Interleaved limit t) (hs : StepsRings t (t.pc l.pid) s') :
    BuffersKept t.shared.db s'.db := by
  refine ⟨fun i hidx => ?_, hs.noNotifies⟩
  by_cases henter : ∃ c j, t.pc l.pid = .insert c (.enter j)
  · obtain ⟨c, j, hpc⟩ := henter
    have hring := hs.ring
    rw [hpc] at hring
    have hsame (heq : s'.db.objmeta i = t.shared.db.objmeta i) :
        KeepsBuffer (t.shared.db.objmeta i) (s'.db.objmeta i) := by
      rw [heq]
      exact .refl _
    cases hring with
    | calm htable hfade => exact hsame (by rw [htable])
    | raise hpc hwpc htable hfade hsize => cases hpc
    | publish hpc htable hheap => cases hpc
    | enter hpc' htable hheap =>
        cases hpc'
        have hij : i ≠ j := by
          rintro rfl
          exact hidx (h.bufferIdx_of_enter hpc)
        exact hsame (by rw [htable, Function.update_of_ne hij])
    | setOid hpc htable hheap => cases hpc
  · refine (hs.ring.inherits (h.writers l.pid) (fun c j hpc => henter ⟨c, j, hpc⟩) i).buffer

theorem initial_objmeta (env : Env) (heapSize : Int) (i : Nat) :
    (Shared.initial env heapSize).db.objmeta i = {} := by
  unfold Shared.initial World.initial World.afterAlloc
  rw [if_neg (by decide)]
  split <;> rfl

/-- The block that the initialisation keeps for itself. -/
theorem liveInv_initial (hf : AllocSound limit env.alloc) :
    LiveInv limit (acceptedCalls (Shared.initial env heapSize).heapLog) := by
  unfold Shared.initial World.initial World.afterAlloc
  rw [if_neg (by decide)]
  split
  · exact .nil
  · rename_i idx hsome
    exact LiveInv.nil.alloc hf (by decide) hsome

theorem initial [Rounding] (hf : AllocSound limit env.alloc)
    (hinit : (threadsLts env heapSize).init t) : Interleaved limit t := by
  have hlocks := LocksInv.initial hinit
  cases hinit
  have hfree : ∀ i, (Shared.initial env heapSize).db.objmeta i = {} := initial_objmeta env heapSize
  have hnext : (Shared.initial env heapSize).db.objmetaOidNext = 1 :=
    initial_objmetaOidNext env heapSize
  have hentry (o : Owner) :
      Threads.entry ⟨.initial env heapSize, fun _ => .idle, []⟩ o = {} := by
    cases o with
    | slot i => exact hfree i
    | thread p => rfl
  refine ⟨hlocks, ⟨⟨liveInv_initial hf, fun o b hb => ?_, fun o o' b b' hb => ?_⟩, fun o ho => ?_⟩,
    ⟨?_, ?_, fun i hi => ?_, fun i j hi => ?_, fun k hpos hlt => ?_, fun p c i oid hp => ?_,
      fun i => ?_, fun i _ hi => ?_⟩,
    fun p c pc hp => ?_, fun p => trivial, fun p => trivial⟩
  · rw [hentry] at hb
    cases hb
  · rw [hentry] at hb
    cases hb
  · rw [hentry] at ho
    exact absurd rfl ho
  · show 1 ≤ (Shared.initial env heapSize).db.objmetaOidNext
    rw [hnext]
  · show (Shared.initial env heapSize).db.objmetaOidNext ≤ objMax + 1
    rw [hnext]
    exact Nat.le_add_left 1 _
  · rw [hfree] at hi
    exact absurd rfl hi
  · rw [hfree] at hi
    exact absurd rfl hi
  · rw [hnext] at hlt
    omega
  · cases hp
  · rw [hfree]
  · rw [hfree] at hi
    exact absurd rfl hi
  · cases hp

theorem keeps_move [Rounding] {pc : Pc} {s : Shared} (hg : t.Keeps l) (hk : pc.keepsObjects)
    (hm : l.move env s pc = some (s', pc')) : pc'.keepsObjects := by
  cases l with
  | start p call now =>
      simp only [Label.move] at hm
      split at hm <;> cases hm
      cases call with
      | delete h oid immediatelyDelete => exact hg.elim
      | purgeObjs => exact hg.elim
      | _ => trivial
  | next p now =>
      cases pc with
      | idle => cases hm
      | delete c pc => exact hk.elim
      | purge c pc => exact hk.elim
      | _ =>
          obtain ⟨u, -, heq⟩ := Option.map_eq_some_iff.mp hm
          cases heq
          trivial
  | wake p timedOut =>
      simp only [Label.move, Pc.wake] at hm
      split at hm
      · split at hm <;> cases hm
        trivial
      · split at hm <;> cases hm
        trivial
      · cases hm
  | fill p n v =>
      cases pc with
      | write c pc =>
          obtain ⟨u, -, heq⟩ := Option.map_eq_some_iff.mp hm
          cases heq
          trivial
      | _ => cases hm

theorem writerKnows_move [Rounding] (h : Interleaved limit t)
    (hm : l.move env t.shared (t.pc l.pid) = some (s', pc')) : pc'.WriterKnows s'.db := by
  have hk := h.writers l.pid
  have hring : ∀ i, (t.shared.db.objmeta i).bufferIdx ≠ 0 →
      StoredRing t.shared.db.heap (t.shared.db.objmeta i) := fun i hi => h.placed.ring (.slot i) hi
  generalize t.pc l.pid = pc at hk hm
  cases l with
  | start p call now =>
      simp only [Label.move] at hm
      split at hm <;> cases hm
      cases call <;> trivial
  | next p now =>
      cases pc with
      | idle => cases hm
      | write c pc =>
          obtain ⟨⟨u, pc₁⟩, hstep, heq⟩ := Option.map_eq_some_iff.mp hm
          cases heq
          exact c.knows hring hk hstep
      | _ =>
          obtain ⟨u, -, heq⟩ := Option.map_eq_some_iff.mp hm
          cases heq
          trivial
  | wake p timedOut =>
      simp only [Label.move, Pc.wake] at hm
      split at hm
      · split at hm <;> cases hm
        trivial
      · split at hm <;> cases hm
        trivial
      · cases hm
  | fill p n v =>
      cases pc with
      | write c pc =>
          obtain ⟨u, hu, heq⟩ := Option.map_eq_some_iff.mp hm
          cases heq
          cases pc with
          | filling i addr sizeMax =>
              simp only [fillWord] at hu
              split at hu <;> cases hu
              exact hk
          | _ => cases hu
      | _ => cases hm

theorem insertKnows_move [Rounding] {c : InsertCall} {pc : InsertPc} (h : Interleaved limit t)
    (hg : t.Keeps l) (hm : l.move env t.shared (t.pc l.pid) = some (s', .insert c pc)) :
    InsertKnows s'.db.objmeta c pc := by
  have hk := h.inserts l.pid
  have hpos : ∀ c i, t.pc l.pid = .insert c (.takeOid i) → 0 < t.shared.db.nextOid := fun c i hpc =>
    (h.numbered.takeOid h.locks hpc (hk c _ hpc)).1
  generalize t.pc l.pid = qc at hk hpos hm
  cases l with
  | start p call now =>
      simp only [Label.move] at hm
      split at hm
      · cases call with
        | insert hd metadata =>
            cases hm
            exact .start hg
        | _ => cases hm
      · cases hm
  | next p now =>
      cases qc with
      | idle => cases hm
      | insert c₀ pc₀ =>
          obtain ⟨⟨u, c₁, pc₁⟩, hstep, heq⟩ := Option.map_eq_some_iff.mp hm
          cases heq
          refine InsertCall.newKnows h.numbered.live (fun i hi => hpos c₀ i ?_) (hk c₀ pc₀ rfl)
            hstep
          rw [hi]
      | _ =>
          obtain ⟨u, -, heq⟩ := Option.map_eq_some_iff.mp hm
          cases heq
  | wake p timedOut =>
      simp only [Label.move, Pc.wake] at hm
      split at hm
      · split at hm <;> cases hm
      · split at hm <;> cases hm
      · cases hm
  | fill p n v =>
      cases qc with
      | write c₀ pc₀ =>
          obtain ⟨u, -, heq⟩ := Option.map_eq_some_iff.mp hm
          cases heq
      | _ => cases hm

theorem move [Rounding] (h : Interleaved limit t) (hf : AllocSound limit env.alloc)
    (hr : RefusesNegative env.alloc) (hlimit : limit < 2 ^ 31) (hg : t.Keeps l)
    (hm : l.move env t.shared (t.pc l.pid) = some (s', pc')) :
    Interleaved limit (t.moved l s' pc') := by
  have hs := h.stepsRings hf hr hm
  refine ⟨h.locks.move hm, ?_, ?_, fun q c pc hq => ?_, fun q => ?_, fun q => ?_⟩
  · exact h.placed.move hf hr hlimit hg h.numbered.live (h.inserts l.pid) (h.keeps l.pid)
      (h.writers l.pid) hs.ring hm
  · exact h.numbered.move h.locks (h.inserts l.pid) hs hm
  · by_cases hql : q = l.pid
    · rw [hql, Threads.moved_pc_self] at hq
      subst hq
      exact h.insertKnows_move hg hm
    · rw [Threads.moved_pc_of_ne hql] at hq
      refine (h.inserts q c pc hq).kept fun hlocked => ?_
      rcases (l.tableStep hm).cases_locked with halike | hlocked'
      · exact halike
      · refine absurd (h.locks.eq_of_locksObjmeta ?_ hlocked') hql
        rw [hq]
        exact hlocked
  · by_cases hql : q = l.pid
    · rw [hql, Threads.moved_pc_self]
      exact h.writerKnows_move hm
    · rw [Threads.moved_pc_of_ne hql]
      have hk := h.writers q
      generalize t.pc q = qc at hk
      cases qc with
      | write c pc => exact WriteKnows.kept hk (h.buffersKept hs)
      | _ => trivial
  · by_cases hql : q = l.pid
    · rw [hql, Threads.moved_pc_self]
      exact keeps_move hg (h.keeps l.pid) hm
    · rw [Threads.moved_pc_of_ne hql]
      exact h.keeps q

theorem of_guarded [Rounding] (hf : AllocSound limit env.alloc) (hr : RefusesNegative env.alloc)
    (hlimit : limit < 2 ^ 31) (h : (threadsLts env heapSize).Guarded Threads.Keeps t) :
    Interleaved limit t := by
  refine h.invariant (fun _ => initial hf) fun u l u' hI hg hs => ?_
  obtain ⟨s', pc', hm, rfl⟩ := threadsLts_step hs
  exact hI.move hf hr hlimit hg hm

theorem inside (h : Interleaved limit t) {o : Owner} {k : Int}
    (hidx : (t.entry o).bufferIdx ≠ 0) (hk : InRing (t.entry o) k) :
    0 < (t.entry o).slotAddr k ∧ (t.entry o).slotAddr k + (t.entry o).sizeMax ≤ limit := by
  obtain ⟨n, hb⟩ := (h.placed.ring o hidx).block
  obtain ⟨hlo, hhi⟩ := hb.inRing_range hk
  obtain ⟨-, hend⟩ :=
    h.placed.held.live.inside _ (h.placed.held.mem o _ (ObjInfo.block?_of_ne hidx))
  have hend : (t.entry o).bufferIdx + (t.entry o).blockSize ≤ limit := hend
  have hpos := hb.idx
  omega

end Interleaved

/-- Every history slot is its object's own, whoever is just writing or inserting. -/
structure ObjectsApart (limit : Int) (t : Threads) : Prop where
  oids : ∀ i j, (t.shared.db.objmeta i).oid ≠ 0 →
    (t.shared.db.objmeta i).oid = (t.shared.db.objmeta j).oid → i = j
  inside : ∀ o k, (t.entry o).bufferIdx ≠ 0 → InRing (t.entry o) k →
    0 < (t.entry o).slotAddr k ∧ (t.entry o).slotAddr k + (t.entry o).sizeMax ≤ limit
  apart : ∀ o o' k k', (t.entry o).bufferIdx ≠ 0 → (t.entry o').bufferIdx ≠ 0 →
    InRing (t.entry o) k → InRing (t.entry o') k' → ¬ (o' = o ∧ k' = k) →
    (t.entry o').slotAddr k' + (t.entry o').sizeMax ≤ (t.entry o).slotAddr k ∨
      (t.entry o).slotAddr k + (t.entry o).sizeMax ≤ (t.entry o').slotAddr k'
  stores : ∀ p c w pc, t.pc p = .write c (.put w pc) →
    (t.shared.db.objmeta w.i).bufferIdx ≠ 0 ∧ InRing (t.shared.db.objmeta w.i) w.slot ∧
      w.addr = (t.shared.db.objmeta w.i).slotAddr w.slot ∧
      (w.kind = .writedata → (w.size : Int) ≤ (t.shared.db.objmeta w.i).sizeMax)
  oidLeft : ∀ p c, t.pc p ≠ .insert c .freeNoOid

/-- In every run that deletes nothing, whatever the interleaving, oids are unique, the history
slots of all objects are apart and below the limit, and a commit stores into one of its object. -/
theorem objectsApart_of_guarded [Rounding] {env : Env} {limit heapSize : Int} {t : Threads}
    (hf : AllocSound limit env.alloc) (hr : RefusesNegative env.alloc) (hlimit : limit < 2 ^ 31)
    (h : (threadsLts env heapSize).Guarded Threads.Keeps t) : ObjectsApart limit t := by
  have hI := Interleaved.of_guarded hf hr hlimit h
  refine ⟨hI.numbered.unique, fun o k hidx hk => hI.inside hidx hk,
    fun o o' k k' hidx hidx' hk hk' hne => hI.placed.slots_apart hidx hidx' hk hk' hne,
    fun p c w pc hpc => ?_, fun p c hpc => (hI.inserts p c _ hpc).numbered rfl⟩
  have hk := hI.writers p
  rw [hpc] at hk
  have hk : PutKnows t.shared.db w pc := hk
  exact ⟨hk.idx, hk.inRing, hk.addr, fun hkind => (hk.copies hkind).max⟩

/-- A thread copies its record while another one inserts an object. -/
def insertDuringWrite : List Label :=
  [.start 0 (.insert ⟨2, false⟩ anObject) 1] ++ Label.steps 0 1 12 ++
    [.start 0 (.writedata ⟨2, false⟩ 1 (Mem.zero.write32 20 24)) 2] ++ Label.steps 0 2 9 ++
    [.start 1 (.insert ⟨3, false⟩ { anObject with name := ['b'] }) 3] ++ Label.steps 1 3 5

theorem objectsApart_of_guarded_writing :
    ∃ t, (threadsLts (exampleEnv 4096) 4096).Guarded Threads.Keeps t ∧ ObjectsApart 4096 t ∧
      (t.entry (.slot 0)).bufferIdx = 2 ∧ (t.entry (.thread 1)).bufferIdx = 66 := by
  obtain ⟨t, hr, hp⟩ := (threadsLts (exampleEnv 4096) 4096).exists_of_execGuarded
    (G := Threads.Keeps) (g := fun t l => decide (t.Keeps l)) (fun _ _ => of_decide_eq_true)
    insertDuringWrite
    (fun t => decide ((t.entry (.slot 0)).bufferIdx = 2 ∧ (t.entry (.thread 1)).bufferIdx = 66))
    (s := ⟨.initial (exampleEnv 4096) 4096, fun _ => .idle, []⟩) rfl (by decide +kernel)
  exact ⟨t, hr, objectsApart_of_guarded (bumpAlloc_sound 4096) (bumpAlloc_refusesNegative 4096)
    (by decide) hr, of_decide_eq_true hp⟩

end KogmoRtdb
