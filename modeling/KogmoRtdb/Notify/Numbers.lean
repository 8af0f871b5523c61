import Mathlib.Data.Finset.Card
import Mathlib.Order.Interval.Finset.Nat
import KogmoRtdb.Notify.Deleted
import KogmoRtdb.Notify.RingSteps

/-!
# Slots and object ids of concurrent inserts

Without deletes every oid that has been taken is one of an object in the table, so there are no
more of them than slots, and an insert that has found a free slot gets a new one
(`Threads.Numbered`). `InsertKnows` is what an insert knows on its way there.
-/

namespace KogmoRtdb

/-! ## What an insert knows -/

def InsertPc.bare : InsertPc → Bool
  | .lock | .reuse | .unlock | .alloc => true
  | _ => false

def InsertPc.searching : InsertPc → Bool
  | .relock | .findFree => true
  | _ => false

def InsertPc.target : InsertPc → Option Nat
  | .enter i | .takeOid i | .setOid i _ => some i
  | _ => none

/-- What an insert knows of its metadata and of its slot. -/
structure InsertKnows (m : Nat → ObjInfo) (c : InsertCall) (pc : InsertPc) : Prop where
  fresh : c.metadata.oid = 0 ∧ c.metadata.deletedTs = 0 ∧ c.metadata.historySlot = -1
  bare : pc.bare = true → c.newIdx = 0 ∧ c.metadata.bufferIdx = 0 ∧ c.found = none ∧
    (c.metadata.sizeMax = 0 ∨ 24 ≤ c.metadata.sizeMax ∨ c.metadata.sizeMax = -2 ^ 31)
  carries : pc.inHand = true →
    c.newIdx = c.metadata.bufferIdx ∨ c.newIdx < 0 ∧ c.metadata.bufferIdx = 0
  searching : pc.searching = true → c.found = none
  found : pc = .unique → ∀ i, c.found = some i → i < objMax ∧ (m i).oid = 0
  numbered : pc ≠ .freeNoOid
  free : ∀ i, pc.target = some i → i < objMax ∧ (m i).oid = 0

section Insert

variable {env : Env} {s s' : Shared} {p : Pid} {c c' : InsertCall} {pc pc' : InsertPc}
  {m m' : Nat → ObjInfo}

/-- What an insert knows outlives the steps of others, who can take no slot from it. -/
theorem InsertKnows.kept (h : InsertKnows m c pc)
    (halike : pc.locked = true → ∀ j, (m j).Alike (m' j)) : InsertKnows m' c pc := by
  refine ⟨h.fresh, h.bare, h.carries, h.searching, fun hpc i hi => ?_, h.numbered, fun i hi => ?_⟩
  · rw [(halike (by rw [hpc]; rfl) i).oid]
    exact h.found hpc i hi
  · rw [(halike (by cases pc <;> first | rfl | cases hi) i).oid]
    exact h.free i hi

/-- The insert goes on where its slot matters no more. -/
theorem InsertKnows.next (h : InsertKnows m c pc) (hbare : pc'.bare = true → pc.bare = true)
    (hhand : pc'.inHand = true → pc.inHand = true)
    (hsearch : pc'.searching = false) (hunique : pc' ≠ .unique) (hnum : pc' ≠ .freeNoOid)
    (htarget : pc'.target = none) : InsertKnows m' c pc' :=
  ⟨h.fresh, fun hb => h.bare (hbare hb), fun hb => h.carries (hhand hb),
    (fun hb => by rw [hsearch] at hb; cases hb), fun hpc => absurd hpc hunique, hnum,
    fun i hi => by rw [htarget] at hi; cases hi⟩

theorem InsertKnows.past (hfresh : c.metadata.oid = 0 ∧ c.metadata.deletedTs = 0 ∧
      c.metadata.historySlot = -1) (hbare : pc.bare = false)
    (hcarries : pc.inHand = true →
      c.newIdx = c.metadata.bufferIdx ∨ c.newIdx < 0 ∧ c.metadata.bufferIdx = 0)
    (hsearch : pc.searching = true → c.found = none)
    (hfound : pc = .unique → ∀ i, c.found = some i → i < objMax ∧ (m i).oid = 0)
    (hnum : pc ≠ .freeNoOid)
    (hfree : ∀ i, pc.target = some i → i < objMax ∧ (m i).oid = 0) : InsertKnows m c pc :=
  ⟨hfresh, (fun hb => by rw [hbare] at hb; cases hb), hcarries, hsearch, hfound, hnum, hfree⟩

theorem findReusable_of_live [Rounding] {db : Db} (h : ∀ i, (db.objmeta i).deletedTs = 0)
    (hd : Handle)
    (metadata : ObjInfo) (ts : Timestamp) : findReusable db hd metadata ts = none := by
  refine List.find?_eq_none.mpr fun i _ => ?_
  simp [Db.reusable, h i]

theorem InsertCall.newKnows [Rounding] (hlive : ∀ i, (s.db.objmeta i).deletedTs = 0)
    (hpos : ∀ i, pc = .takeOid i → 0 < s.db.nextOid)
    (hk : InsertKnows s.db.objmeta c pc) (h : c.step env p s pc = some (s', c', pc')) :
    InsertKnows s'.db.objmeta c' pc' := by
  cases pc with
  | lock =>
      obtain ⟨t, -, heq⟩ := Option.map_eq_some_iff.mp h
      cases heq
      exact hk.next (fun _ => rfl) (fun hb => by cases hb) rfl (fun hpc => by cases hpc)
        (fun hpc => by cases hpc) rfl
  | reuse =>
      simp only [InsertCall.step, findReusable_of_live hlive] at h
      obtain ⟨hnew, hidx, hfound, -⟩ := hk.bare rfl
      split at h <;> cases h
      · exact hk.next (fun _ => rfl) (fun hb => by cases hb) rfl (fun hpc => by cases hpc)
          (fun hpc => by cases hpc) rfl
      · exact .past hk.fresh rfl (fun _ => Or.inl (hnew.trans hidx.symm)) (fun _ => hfound)
          (fun hpc => by cases hpc) (fun hpc => by cases hpc) (fun _ hi => by cases hi)
  | unlock =>
      cases h
      exact hk.next (fun _ => rfl) (fun hb => by cases hb) rfl (fun hpc => by cases hpc)
        (fun hpc => by cases hpc) rfl
  | alloc =>
      obtain ⟨hnew, hidx, hfound, -⟩ := hk.bare rfl
      have hrelock {c' : InsertCall} (hfresh : c'.metadata.oid = 0 ∧ c'.metadata.deletedTs = 0 ∧
          c'.metadata.historySlot = -1) (hcarries : c'.newIdx = c'.metadata.bufferIdx ∨
            c'.newIdx < 0 ∧ c'.metadata.bufferIdx = 0) (hfound : c'.found = none) :
          InsertKnows s'.db.objmeta c' .relock :=
        .past hfresh rfl (fun _ => hcarries) (fun _ => hfound) (fun hpc => by cases hpc)
          (fun hpc => by cases hpc) (fun _ hi => by cases hi)
      simp only [InsertCall.step] at h
      split at h
      · cases h
        exact hrelock hk.fresh (Or.inr ⟨(by decide : (-1 : Int) < 0), hidx⟩) hfound
      · split at h <;> cases h
        · exact hrelock hk.fresh (Or.inr ⟨(by decide : (-1 : Int) < 0), hidx⟩) hfound
        · rename_i idx halloc
          by_cases hneg : idx < 0
          · refine hrelock ?_ (Or.inr ⟨hneg, ?_⟩) hfound <;> rw [if_pos hneg]
            · exact hk.fresh
            · exact hidx
          · refine hrelock ?_ (Or.inl ?_) hfound <;> rw [if_neg hneg]
            exact hk.fresh
  | relock =>
      obtain ⟨t, -, heq⟩ := Option.map_eq_some_iff.mp h
      cases heq
      have hnone := hk.searching rfl
      split
      · refine .past hk.fresh rfl (fun _ => hk.carries rfl) (fun _ => hnone) (fun _ i hi => ?_)
          (fun hpc => by cases hpc) (fun _ hi => by cases hi)
        rw [hnone] at hi
        cases hi
      · exact .past hk.fresh rfl (fun _ => hk.carries rfl) (fun _ => hnone)
          (fun hpc => by cases hpc) (fun hpc => by cases hpc) (fun _ hi => by cases hi)
  | findFree =>
      have hnone := hk.searching rfl
      simp only [InsertCall.step] at h
      split at h <;> cases h
      · rename_i i hi
        refine .past hk.fresh rfl (fun _ => hk.carries rfl) (fun hb => by cases hb)
          (fun _ j hj => ?_) (fun hpc => by cases hpc) (fun _ hi => by cases hi)
        cases hj
        exact Db.findmetaById_some hi
      · refine .past hk.fresh rfl (fun _ => hk.carries rfl) (fun hb => by cases hb)
          (fun _ j hj => ?_) (fun hpc => by cases hpc) (fun _ hi => by cases hi)
        rw [hnone] at hj
        cases hj
  | unique =>
      simp only [InsertCall.step] at h
      split at h
      · cases h
        exact hk.next (fun hb => by cases hb) (fun _ => rfl) rfl (fun hpc => by cases hpc)
          (fun hpc => by cases hpc) rfl
      · split at h <;> cases h
        · exact hk.next (fun hb => by cases hb) (fun _ => rfl) rfl (fun hpc => by cases hpc)
            (fun hpc => by cases hpc) rfl
        · rename_i i hi
          refine .past hk.fresh rfl (fun _ => hk.carries rfl) (fun hb => by cases hb)
            (fun hpc => by cases hpc) (fun hpc => by cases hpc) (fun j hj => ?_)
          cases hj
          exact hk.found rfl i hi
  | unlockClash =>
      cases h
      exact hk.next (fun hb => by cases hb) (fun _ => rfl) rfl (fun hpc => by cases hpc)
        (fun hpc => by cases hpc) rfl
  | enter i =>
      obtain ⟨hlt, -⟩ := hk.free i rfl
      cases h
      refine .past hk.fresh rfl (fun hb => by cases hb) (fun hb => by cases hb)
        (fun hpc => by cases hpc) (fun hpc => by cases hpc) (fun j hj => ?_)
      cases hj
      refine ⟨hlt, ?_⟩
      show ((s.db.setMeta i c.metadata).objmeta i).oid = 0
      rw [Db.setMeta_objmeta_self]
      exact hk.fresh.1
  | takeOid i =>
      have hoid := hpos i rfl
      simp only [InsertCall.step] at h
      rw [if_neg (Int.not_le.mpr hoid)] at h
      cases h
      refine .past hk.fresh rfl (fun hb => by cases hb) (fun hb => by cases hb)
        (fun hpc => by cases hpc) (fun hpc => by cases hpc) (fun j hj => ?_)
      exact hk.free j hj
  | freeNoOid => exact absurd rfl hk.numbered
  | done ret => cases h
  | _ =>
      cases h
      exact hk.next (fun hb => by cases hb) (fun hb => by cases hb) rfl
        (fun hpc => by cases hpc) (fun hpc => by cases hpc) rfl

/-- An insert begins with the metadata of an object that is not in the table. -/
theorem InsertKnows.start [Rounding] {h : Handle} {now : Timestamp} {metadata : ObjInfo}
    (hsize : metadata.sizeMax < 2 ^ 31) : InsertKnows m
      { h := h, ts := now, metadata := initMetadata env h now metadata, newIdx := 0
        found := none }
      (if metadata.refused then .done (-Err.invalid.code) else .lock) := by
  by_cases href : metadata.refused = true
  · rw [if_pos href]
    exact .past ⟨rfl, rfl, rfl⟩ rfl (fun hb => by cases hb) (fun hb => by cases hb)
      (fun hpc => by cases hpc) (fun hpc => by cases hpc) (fun _ hi => by cases hi)
  · rw [if_neg href]
    have href : metadata.refused = false := by simpa using href
    exact ⟨⟨rfl, rfl, rfl⟩, fun _ => ⟨rfl, rfl, rfl, sizeMax_initMetadata href hsize⟩,
      (fun hb => by cases hb), (fun hb => by cases hb), (fun hpc => by cases hpc),
      (fun hpc => by cases hpc), fun _ hi => by cases hi⟩

end Insert

/-! ## The oids -/

/-- The oids in the table are those that have been taken, but for the one of an insert that is about
to set it; nothing has been deleted, and a free slot has a buffer only while it is being
filled. -/
structure Threads.Numbered (t : Threads) : Prop where
  low : 1 ≤ t.shared.db.objmetaOidNext
  high : t.shared.db.objmetaOidNext ≤ objMax + 1
  range : ∀ i, (t.shared.db.objmeta i).oid ≠ 0 → i < objMax ∧ 0 < (t.shared.db.objmeta i).oid ∧
    (t.shared.db.objmeta i).oid < t.shared.db.objmetaOidNext
  unique : ∀ i j, (t.shared.db.objmeta i).oid ≠ 0 →
    (t.shared.db.objmeta i).oid = (t.shared.db.objmeta j).oid → i = j
  used : ∀ k : Nat, 0 < k → k < t.shared.db.objmetaOidNext →
    (∃ i, (t.shared.db.objmeta i).oid = k) ∨ ∃ p c i, t.pc p = .insert c (.setOid i k)
  given : ∀ p c i oid, t.pc p = .insert c (.setOid i oid) →
    0 < oid ∧ oid < t.shared.db.objmetaOidNext ∧ ∀ j, (t.shared.db.objmeta j).oid ≠ oid
  live : ∀ i, (t.shared.db.objmeta i).deletedTs = 0
  vacant : ∀ i, (t.shared.db.objmeta i).oid = 0 → (t.shared.db.objmeta i).bufferIdx ≠ 0 →
    ∃ p c pc, t.pc p = .insert c pc ∧ pc.entered = some i

/-- Objects with the oids from 1 on leave a slot free only if there are fewer of them than
slots. -/
theorem le_objMax_of_free {m : Nat → ObjInfo} {n i : Nat} (hi : i < objMax) (hfree : (m i).oid = 0)
    (hrange : ∀ j, (m j).oid ≠ 0 → j < objMax)
    (hused : ∀ k : Nat, 0 < k → k < n → ∃ j, (m j).oid = k) : n ≤ objMax := by
  have hsurj : Set.SurjOn (fun j => (m j).oid.toNat) ↑((Finset.range objMax).erase i)
      ↑(Finset.Ico 1 n) := by
    intro k hk
    obtain ⟨hpos, hlt⟩ := Finset.mem_Ico.mp (Finset.mem_coe.mp hk)
    obtain ⟨j, hj⟩ := hused k hpos hlt
    have hne : (m j).oid ≠ 0 := by
      rw [hj]
      exact Int.natCast_ne_zero.mpr (by omega)
    refine ⟨j, Finset.mem_coe.mpr (Finset.mem_erase.mpr ⟨?_, ?_⟩), ?_⟩
    · rintro rfl
      exact hne hfree
    · exact Finset.mem_range.mpr (hrange j hne)
    · show (m j).oid.toNat = k
      rw [hj]
      exact Int.toNat_natCast k
  have hcard := Finset.card_le_card_of_surjOn _ hsurj
  rw [Nat.card_Ico, Finset.card_erase_of_mem (Finset.mem_range.mpr hi), Finset.card_range] at hcard
  omega

section Numbers

variable {env : Env} {t : Threads} {l : Label} {s' : Shared} {pc' : Pc} {p : Pid}

theorem InsertPc.target_of_entered {pc : InsertPc} {i : Nat} (h : pc.entered = some i) :
    pc.target = some i := by
  cases pc <;> first | exact h | cases h

theorem InsertCall.entered_step [Rounding] {c c' : InsertCall} {s : Shared} {pc pc' : InsertPc}
    {i : Nat} (h : c.step env p s pc = some (s', c', pc')) (hi : pc'.entered = some i) :
    pc = .enter i ∨ pc = .takeOid i := by
  cases pc with
  | lock =>
      obtain ⟨t, -, heq⟩ := Option.map_eq_some_iff.mp h
      cases heq
      cases hi
  | relock =>
      obtain ⟨t, -, heq⟩ := Option.map_eq_some_iff.mp h
      cases heq
      split at hi <;> cases hi
  | enter j =>
      cases h
      cases hi
      exact Or.inl rfl
  | takeOid j =>
      cases h
      split at hi <;> cases hi
      exact Or.inr rfl
  | done ret => cases h
  | _ =>
      simp only [InsertCall.step] at h
      repeat' split at h
      all_goals
        cases h
        cases hi

theorem Label.insert_step [Rounding] {c : InsertCall} {pc : InsertPc} {s : Shared}
    (hpc : (Pc.insert c pc).finished = false) (hm : l.move env s (.insert c pc) = some (s', pc')) :
    ∃ c' pc₁, pc' = .insert c' pc₁ ∧ c.step env l.pid s pc = some (s', c', pc₁) := by
  cases l with
  | start p call now =>
      simp only [Label.move, hpc] at hm
      cases hm
  | next p now =>
      obtain ⟨⟨u, c', pc₁⟩, hstep, heq⟩ := Option.map_eq_some_iff.mp hm
      cases heq
      exact ⟨c', pc₁, rfl, hstep⟩
  | wake p timedOut => cases hm
  | fill p n v => cases hm

/-- A thread that has entered an object's metadata has just done so, or has taken the oid. -/
theorem Label.entered_move [Rounding] {c' : InsertCall} {pc₁ : InsertPc} {i : Nat}
    (hm : l.move env t.shared (t.pc l.pid) = some (s', .insert c' pc₁))
    (hi : pc₁.entered = some i) :
    ∃ c, t.pc l.pid = .insert c (.enter i) ∨ t.pc l.pid = .insert c (.takeOid i) := by
  generalize t.pc l.pid = pc at hm
  cases l with
  | start p call now =>
      simp only [Label.move] at hm
      split at hm
      · cases call with
        | insert h metadata =>
            cases hm
            split at hi <;> cases hi
        | _ => cases hm
      · cases hm
  | next p now =>
      cases pc with
      | idle => cases hm
      | insert c pc =>
          obtain ⟨⟨u, c₁, pc₂⟩, hstep, heq⟩ := Option.map_eq_some_iff.mp hm
          cases heq
          refine ⟨c, ?_⟩
          rcases c.entered_step hstep hi with rfl | rfl
          · exact Or.inl rfl
          · exact Or.inr rfl
      | _ =>
          obtain ⟨u, -, heq⟩ := Option.map_eq_some_iff.mp hm
          cases heq
  | wake p timedOut =>
      simp only [Label.move, Pc.wake] at hm
      split at hm
      · split at hm <;> cases hm
      · split at hm <;> cases hm
      · cases hm
  | fill p n v =>
      cases pc with
      | write c pc =>
          obtain ⟨u, -, heq⟩ := Option.map_eq_some_iff.mp hm
          cases heq
      | _ => cases hm

namespace Threads.Numbered

theorem other [Rounding] (h : t.Numbered) (hm : l.move env t.shared (t.pc l.pid) = some (s', pc'))
    (htable : ∀ j, (s'.db.objmeta j).oid = (t.shared.db.objmeta j).oid ∧
      (s'.db.objmeta j).bufferIdx = (t.shared.db.objmeta j).bufferIdx ∧
      (s'.db.objmeta j).deletedTs = (t.shared.db.objmeta j).deletedTs)
    (hnext : s'.db.objmetaOidNext = t.shared.db.objmetaOidNext)
    (hfills : ∀ c pc, t.pc l.pid = .insert c pc → pc.target = none) :
    (t.moved l s' pc').Numbered := by
  have hoid j := (htable j).1
  have hpc {q c pc i} (hq : (t.moved l s' pc').pc q = .insert c pc)
      (hi : pc.entered = some i) : t.pc q = .insert c pc := by
    by_cases hql : q = l.pid
    · rw [hql, moved_pc_self] at hq
      rw [hq] at hm
      obtain ⟨c₀, hc | hc⟩ := l.entered_move hm hi <;> cases hfills c₀ _ hc
    · rwa [moved_pc_of_ne hql] at hq
  have hpc' {q c pc i} (hq : t.pc q = .insert c pc) (hi : pc.entered = some i) :
      (t.moved l s' pc').pc q = .insert c pc := by
    by_cases hql : q = l.pid
    · rw [hql] at hq
      have hnone := hfills c pc hq
      rw [InsertPc.target_of_entered hi] at hnone
      cases hnone
    · rwa [moved_pc_of_ne hql]
  refine ⟨?_, ?_, fun i hi => ?_, fun i j hi hij => ?_, fun k hk hlt => ?_, fun q c i oid hq => ?_,
    fun i => ?_, fun i hi hidx => ?_⟩ <;> rw [moved_shared] at *
  · rw [hnext]
    exact h.low
  · rw [hnext]
    exact h.high
  · rw [hoid] at hi ⊢
    rw [hnext]
    exact h.range i hi
  · rw [hoid] at hi
    rw [hoid, hoid] at hij
    exact h.unique i j hi hij
  · rw [hnext] at hlt
    rcases h.used k hk hlt with ⟨i, hi⟩ | ⟨q, c, i, hq⟩
    · exact Or.inl ⟨i, (hoid i).trans hi⟩
    · exact Or.inr ⟨q, c, i, hpc' hq rfl⟩
  · rw [hnext]
    obtain ⟨hpos, hlt, hno⟩ := h.given q c i oid (hpc hq rfl)
    refine ⟨hpos, hlt, fun j => ?_⟩
    rw [hoid]
    exact hno j
  · rw [(htable i).2.2]
    exact h.live i
  · rw [hoid] at hi
    rw [(htable i).2.1] at hidx
    obtain ⟨q, c, pc, hq, hent⟩ := h.vacant i hi hidx
    exact ⟨q, c, pc, hpc' hq hent, hent⟩

/-- The inserts that have taken a slot are in the hands of one thread. -/
theorem eq_of_entered {pc : InsertPc} {c₀ c : InsertCall} {pc₀ : InsertPc} {q : Pid} {i : Nat}
    (hlocks : LocksInv t) (hp : t.pc p = .insert c₀ pc₀) (hlocked : pc₀.locked = true)
    (hq : t.pc q = .insert c pc) (hi : pc.entered = some i) : q = p := by
  refine hlocks.eq_of_locksObjmeta ?_ ?_
  · rw [hq]
    cases pc <;> first | rfl | cases hi
  · rw [hp]
    exact hlocked

variable {c : InsertCall} {i : Nat}

theorem enter (h : t.Numbered) (hlocks : LocksInv t) (hl : t.pc l.pid = .insert c (.enter i))
    (hk : InsertKnows t.shared.db.objmeta c (.enter i)) :
    (t.moved l (t.shared.setDb (t.shared.db.setMeta i c.metadata))
      (.insert c (.takeOid i))).Numbered := by
  have hfree := (hk.free i rfl).2
  have hnone {q c' pc' j} (hq : t.pc q = .insert c' pc') : pc'.entered ≠ some j := by
    intro hj
    rw [eq_of_entered hlocks hl rfl hq hj, hl] at hq
    cases hq
    cases hj
  have hself : (t.shared.db.setMeta i c.metadata).objmeta i = c.metadata :=
    Db.setMeta_objmeta_self ..
  have hother {j} (hj : j ≠ i) :
      (t.shared.db.setMeta i c.metadata).objmeta j = t.shared.db.objmeta j :=
    Db.setMeta_objmeta_ne hj
  have hocc {j} (hj : ((t.shared.db.setMeta i c.metadata).objmeta j).oid ≠ 0) : j ≠ i := by
    rintro rfl
    rw [hself] at hj
    exact hj hk.fresh.1
  refine ⟨h.low, h.high, fun j hj => ?_, fun j k hj hjk => ?_, fun k hpos hlt => ?_,
    fun q c' j oid hq => ?_, fun j => ?_, fun j hj hidx => ?_⟩ <;>
    simp only [moved_shared, Shared.setDb] at *
  · have hji := hocc hj
    rw [hother hji] at hj ⊢
    exact h.range j hj
  · have hji := hocc hj
    have hki := hocc (j := k) (by rwa [← hjk])
    rw [hother hji] at hj hjk
    rw [hother hki] at hjk
    exact h.unique j k hj hjk
  · rcases h.used k hpos hlt with ⟨j, hj⟩ | ⟨q, c', j, hq⟩
    · refine Or.inl ⟨j, ?_⟩
      rw [hother]
      · exact hj
      · rintro rfl
        rw [hfree] at hj
        exact absurd hj.symm (Int.natCast_ne_zero.mpr (by omega))
    · exact absurd rfl (hnone (j := j) hq)
  · by_cases hql : q = l.pid
    · rw [hql, moved_pc_self] at hq
      cases hq
    · rw [moved_pc_of_ne hql] at hq
      exact absurd rfl (hnone (j := j) hq)
  · by_cases hji : j = i
    · rw [hji, hself]
      exact hk.fresh.2.1
    · rw [hother hji]
      exact h.live j
  · by_cases hji : j = i
    · exact ⟨l.pid, c, .takeOid i, moved_pc_self, by rw [hji]; rfl⟩
    · rw [hother hji] at hj hidx
      obtain ⟨q, c', pc', hq, hent⟩ := h.vacant j hj hidx
      exact absurd hent (hnone hq)

theorem takeOid (h : t.Numbered) (hlocks : LocksInv t) (hl : t.pc l.pid = .insert c (.takeOid i))
    (hk : InsertKnows t.shared.db.objmeta c (.takeOid i)) :
    0 < t.shared.db.nextOid ∧
      (t.moved l (t.shared.setDb { t.shared.db with
          objmetaOidNext := (t.shared.db.objmetaOidNext + 1) % 2 ^ 64 })
        (.insert c (.setOid i t.shared.db.nextOid))).Numbered := by
  have hsome {q c' pc' j} (hq : t.pc q = .insert c' pc') (hj : pc'.entered = some j) :
      q = l.pid ∧ pc' = .takeOid i := by
    have heq := eq_of_entered hlocks hl rfl hq hj
    rw [heq, hl] at hq
    cases hq
    exact ⟨heq, rfl⟩
  have hused : ∀ k : Nat, 0 < k → k < t.shared.db.objmetaOidNext →
      ∃ j, (t.shared.db.objmeta j).oid = k := by
    intro k hpos hlt
    rcases h.used k hpos hlt with hj | ⟨q, c', j, hq⟩
    · exact hj
    · cases (hsome hq rfl).2
  obtain ⟨hlt, hfree⟩ := hk.free i rfl
  have hmax := le_objMax_of_free hlt hfree (fun j hj => (h.range j hj).1) hused
  have hlow := h.low
  have h1000 : objMax = 1000 := by unfold objMax; rfl
  have hoid : t.shared.db.nextOid = (t.shared.db.objmetaOidNext : Int) :=
    wrap32_of_bounds (by omega) (by omega)
  have hnext : (t.shared.db.objmetaOidNext + 1) % 2 ^ 64 = t.shared.db.objmetaOidNext + 1 :=
    Nat.mod_eq_of_lt (by omega)
  have hpos : (0 : Int) < t.shared.db.objmetaOidNext := Int.natCast_pos.mpr hlow
  have hsucc : (t.shared.db.objmetaOidNext : Int) < (t.shared.db.objmetaOidNext + 1 : Nat) :=
    Int.ofNat_lt.mpr (Nat.lt_succ_self _)
  rw [hoid, hnext]
  refine ⟨hpos, ?_⟩
  refine ⟨Nat.le_add_left 1 _, Nat.succ_le_succ hmax, fun j hj => ?_, h.unique, fun k hpos hk => ?_,
    fun q c' j oid hq => ?_, h.live, fun j hj hidx => ?_⟩ <;>
    simp only [moved_shared, Shared.setDb] at *
  · obtain ⟨h1, h2, h3⟩ := h.range j hj
    exact ⟨h1, h2, Int.lt_trans h3 hsucc⟩
  · by_cases hlast : k = t.shared.db.objmetaOidNext
    · subst hlast
      exact Or.inr ⟨l.pid, c, i, moved_pc_self⟩
    · exact Or.inl (hused k hpos (by omega))
  · by_cases hql : q = l.pid
    · rw [hql, moved_pc_self] at hq
      cases hq
      refine ⟨hpos, hsucc, fun j hj => ?_⟩
      have hlt := (h.range j (by rw [hj]; exact Int.ne_of_gt hpos)).2.2
      rw [hj] at hlt
      exact absurd hlt (Int.lt_irrefl _)
    · rw [moved_pc_of_ne hql] at hq
      exact absurd (hsome hq rfl).1 hql
  · obtain ⟨q, c', pc', hq, hent⟩ := h.vacant j hj hidx
    obtain ⟨rfl, rfl⟩ := hsome hq hent
    cases hent
    exact ⟨l.pid, c, _, moved_pc_self, rfl⟩

theorem setOid {oid parentOid : ObjId} (h : t.Numbered) (hlocks : LocksInv t)
    (hl : t.pc l.pid = .insert c (.setOid i oid))
    (hk : InsertKnows t.shared.db.objmeta c (.setOid i oid)) :
    (t.moved l (t.shared.setDb (t.shared.db.setMeta i
      { t.shared.db.objmeta i with parentOid := parentOid, oid := oid }))
      (.insert c (.broadcast oid))).Numbered := by
  have hsome {q c' pc' j} (hq : t.pc q = .insert c' pc') (hj : pc'.entered = some j) :
      q = l.pid ∧ pc' = .setOid i oid := by
    have heq := eq_of_entered hlocks hl rfl hq hj
    rw [heq, hl] at hq
    cases hq
    exact ⟨heq, rfl⟩
  obtain ⟨hlt, hfree⟩ := hk.free i rfl
  obtain ⟨hpos, hmax, hno⟩ := h.given _ _ _ _ hl
  have hself : (t.shared.db.setMeta i
      { t.shared.db.objmeta i with parentOid := parentOid, oid := oid }).objmeta i =
        { t.shared.db.objmeta i with parentOid := parentOid, oid := oid } :=
    Db.setMeta_objmeta_self ..
  have hother {j} (hj : j ≠ i) : (t.shared.db.setMeta i
      { t.shared.db.objmeta i with parentOid := parentOid, oid := oid }).objmeta j =
        t.shared.db.objmeta j := Db.setMeta_objmeta_ne hj
  refine ⟨h.low, h.high, fun j hj => ?_, fun j k hj hjk => ?_, fun k hpos hlt => ?_,
    fun q c' j oid hq => ?_, fun j => ?_, fun j hj hidx => ?_⟩ <;>
    simp only [moved_shared, Shared.setDb] at *
  · by_cases hji : j = i
    · rw [hji, hself]
      exact ⟨hlt, hpos, hmax⟩
    · rw [hother hji] at hj ⊢
      exact h.range j hj
  · by_cases hji : j = i
    · by_cases hki : k = i
      · rw [hji, hki]
      · rw [hji, hself, hother hki] at hjk
        exact absurd hjk.symm (hno k)
    · rw [hother hji] at hj hjk
      by_cases hki : k = i
      · rw [hki, hself] at hjk
        exact absurd hjk (hno j)
      · rw [hother hki] at hjk
        exact h.unique j k hj hjk
  · rcases h.used k hpos hlt with ⟨j, hj⟩ | ⟨q, c', j, hq⟩
    · refine Or.inl ⟨j, ?_⟩
      rw [hother]
      · exact hj
      · rintro rfl
        rw [hfree] at hj
        exact absurd hj.symm (Int.natCast_ne_zero.mpr (by omega))
    · cases (hsome hq rfl).2
      exact Or.inl ⟨i, by rw [hself]⟩
  · by_cases hql : q = l.pid
    · rw [hql, moved_pc_self] at hq
      cases hq
    · rw [moved_pc_of_ne hql] at hq
      exact absurd (hsome hq rfl).1 hql
  · by_cases hji : j = i
    · rw [hji, hself]
      exact h.live i
    · rw [hother hji]
      exact h.live j
  · have hji : j ≠ i := by
      rintro rfl
      rw [hself] at hj
      exact absurd hj (Int.ne_of_gt hpos)
    rw [hother hji] at hj hidx
    obtain ⟨q, c', pc', hq, hent⟩ := h.vacant j hj hidx
    obtain ⟨-, rfl⟩ := hsome hq hent
    cases hent
    exact absurd rfl hji

theorem move [Rounding] (h : t.Numbered) (hlocks : LocksInv t)
    (hk : ∀ c pc, t.pc l.pid = .insert c pc → InsertKnows t.shared.db.objmeta c pc)
    (hr : StepsRings t (t.pc l.pid) s')
    (hm : l.move env t.shared (t.pc l.pid) = some (s', pc')) : (t.moved l s' pc').Numbered := by
  by_cases hfills : ∃ c pc i, t.pc l.pid = .insert c pc ∧ pc.target = some i
  · obtain ⟨c, pc, i, hpc, hi⟩ := hfills
    have hinsert := hk c pc hpc
    have hm' := hm
    rw [hpc] at hm'
    obtain ⟨c', pc₁, rfl, hstep⟩ := l.insert_step (by cases pc <;> first | rfl | cases hi) hm'
    cases pc with
    | enter j =>
        cases hstep
        exact h.enter hlocks hpc hinsert
    | takeOid j =>
        obtain ⟨hpos, hnew⟩ := h.takeOid hlocks hpc hinsert
        simp only [InsertCall.step] at hstep
        rw [if_neg (Int.not_le.mpr hpos)] at hstep
        cases hstep
        exact hnew
    | setOid j oid =>
        cases hstep
        exact h.setOid hlocks hpc hinsert
    | _ => cases hi
  · have hnone : ∀ c pc, t.pc l.pid = .insert c pc → pc.target = none := by
      intro c pc hpc
      by_contra hsome
      obtain ⟨i, hi⟩ := Option.ne_none_iff_exists'.mp hsome
      exact hfills ⟨c, pc, i, hpc, hi⟩
    have hnext : s'.db.objmetaOidNext = t.shared.db.objmetaOidNext := by
      rcases hr.next with heq | ⟨c, i, hpc⟩
      · exact heq
      · cases hnone c _ hpc
    refine h.other hm (fun j => ?_) hnext hnone
    cases hr.ring with
    | calm htable hfade => rw [htable]; exact ⟨rfl, rfl, rfl⟩
    | raise hpc hwpc htable hfade hsize => rw [htable]; exact ⟨rfl, rfl, rfl⟩
    | @publish c w hpc htable hheap =>
        rw [htable]
        exact ⟨field_update ObjInfo.oid (by rfl) j, field_update ObjInfo.bufferIdx (by rfl) j,
          field_update ObjInfo.deletedTs (by rfl) j⟩
    | enter hpc htable hheap => cases hnone _ _ hpc
    | setOid hpc htable hheap => cases hnone _ _ hpc

end Threads.Numbered

end Numbers

end KogmoRtdb
