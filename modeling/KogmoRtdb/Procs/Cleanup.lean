import KogmoRtdb.Procs.PurgeProcs

/-!
# The cleanup touches only the dead

`purge_procs` loads the pid from a slot, asks `kill` about it, and then reads the slot's
`proc_oid` again. A process that disconnects between the first and the second of these and
then ends leaves a free slot behind: `proc_oid` is 0 then, which the search takes
for a wildcard, every object in the database is deleted, and the free slot is
counted once more. If another process has taken the slot meanwhile, that process loses
its objects and the slot.

The condition of `CleanupGuard` is that a pid which `kill` does not find is still the pid
in the slot. A dead process does not disconnect and its slot is not free,
so from there on the slot does not change, and `DeadSlot` carries the rest.
-/

namespace KogmoRtdb

variable {env : Env} {s s' : CleanupState} {table : ProcTable} {w w' : World}

/-! ## What is claimed -/

/-- What a delete by the cleanup took was in the tree below an object whose creator
is not connected and alive. -/
def Deletion.OfDead (d : Deletion) : Prop :=
  ∀ i, d.after i ≠ d.before i → ∃ r, (d.before r).oid ≠ 0 ∧
    (d.before r).createdProc ∉ d.live ∧ Relation.ReflTransGen (GoesWith d.before) r i

structure CleanupSound (s : CleanupState) : Prop where
  deletions : ∀ d ∈ s.deletions, d.OfDead
  clearings : ∀ c ∈ s.clearings, c.slot.procOid ∉ c.live
  free : s.table.procFree = freeSlots s.table.proc

/-! ## The process table -/

/-- Changing one entry changes the count by what happens to that entry. -/
theorem freeSlots_update (proc : Nat → ProcSlot) {i : Nat} (slot : ProcSlot) (hi : i < procMax) :
    freeSlots (Function.update proc i slot) + (if (proc i).procOid = 0 then 1 else 0) =
      freeSlots proc + (if slot.procOid = 0 then 1 else 0) := by
  have hperm := List.perm_cons_erase (List.mem_range.mpr hi)
  have hrest : ((List.range procMax).erase i).countP
      (fun j => decide ((Function.update proc i slot j).procOid = 0)) =
      ((List.range procMax).erase i).countP fun j => decide ((proc j).procOid = 0) := by
    refine List.countP_congr fun j hj => ?_
    rw [Function.update_of_ne (List.nodup_range.mem_erase_iff.mp hj).1]
  unfold freeSlots
  rw [hperm.countP_eq, hperm.countP_eq, List.countP_cons, List.countP_cons, hrest]
  simp only [Function.update_self, decide_eq_true_eq]
  omega

namespace ProcTable

/-- `proc_free` is right, and free slots are all zeroes. -/
structure Counted (table : ProcTable) : Prop where
  free : table.procFree = freeSlots table.proc
  zero : ∀ i, (table.proc i).procOid = 0 → table.proc i = {}

theorem counted_initial : ProcTable.initial.Counted where
  free := by
    have hall : freeSlots ProcTable.initial.proc = procMax :=
      (List.countP_eq_length.mpr fun _ _ => rfl).trans List.length_range
    rw [hall]
    rfl
  zero _ _ := rfl

theorem Counted.clear {i : Nat} (h : table.Counted) (hi : i < procMax)
    (hocc : (table.proc i).procOid ≠ 0) : (table.clear i).Counted where
  free := by
    have hcount := freeSlots_update table.proc {} hi
    have hfree := h.free
    rw [if_neg hocc, if_pos rfl] at hcount
    show table.procFree + 1 = (freeSlots (Function.update table.proc i {}) : Int)
    omega
  zero j hj := by
    by_cases hji : j = i
    · subst hji
      exact Function.update_self ..
    · have hsame : (table.clear i).proc j = table.proc j := Function.update_of_ne hji ..
      rw [hsame] at hj ⊢
      exact h.zero j hj

theorem connect_some {pid : Int} {immediatelyDelete : Bool} {r : ObjId × ProcTable}
    (hrun : table.connect pid immediatelyDelete = some r) :
    ∃ i, i < procMax ∧ (table.proc i).procOid = 0 ∧ r.1 = table.nextOid ∧
      r.2.proc = Function.update table.proc i ⟨table.nextOid, pid, immediatelyDelete⟩ ∧
      r.2.procFree = table.procFree - 1 := by
  obtain ⟨i, hi, rfl⟩ := Option.map_eq_some_iff.mp hrun
  have h0 := List.find?_some hi
  dsimp only
  exact ⟨i, List.mem_range.mp (List.mem_of_find?_eq_some hi), of_decide_eq_true h0, rfl, rfl, rfl⟩

theorem Counted.connect {pid : Int} {immediatelyDelete : Bool} {r : ObjId × ProcTable}
    (h : table.Counted) (hne : table.nextOid ≠ 0)
    (hrun : table.connect pid immediatelyDelete = some r) : r.2.Counted := by
  obtain ⟨i, hi, h0, -, hproc, hfree⟩ := connect_some hrun
  generalize table.nextOid = oid at hne hproc
  refine ⟨?_, fun j hj => ?_⟩
  · have hcount := freeSlots_update table.proc ⟨oid, pid, immediatelyDelete⟩ hi
    have hold := h.free
    rw [if_pos h0, if_neg hne] at hcount
    rw [hproc, hfree]
    omega
  · rw [hproc] at hj ⊢
    by_cases hji : j = i
    · subst hji
      rw [Function.update_self] at hj
      exact absurd hj hne
    · rw [Function.update_of_ne hji] at hj ⊢
      exact h.zero j hj

/-- The loop of a disconnect counts what it clears, and clears slots of `procOid` only. -/
theorem Counted.clearAll {procOid : ObjId} (hne : procOid ≠ 0) :
    ∀ {is : List Nat} {table : ProcTable}, (∀ i ∈ is, i < procMax) → table.Counted →
      (clearAll procOid is table).Counted ∧ ∀ j, (clearAll procOid is table).proc j = table.proc j ∨
        (table.proc j).procOid = procOid ∧ (clearAll procOid is table).proc j = {}
  | [], table, _, h => ⟨h, fun j => Or.inl rfl⟩
  | i :: is, table, his, h => by
      rw [ProcTable.clearAll]
      have hrest := fun k hk => his k (List.mem_cons_of_mem i hk)
      by_cases hmatch : (table.proc i).procOid = procOid
      · rw [if_pos hmatch]
        have hcleared := h.clear (his i List.mem_cons_self) (hmatch ▸ hne)
        obtain ⟨hcount, hproc⟩ := Counted.clearAll hne hrest hcleared
        refine ⟨hcount, fun j => ?_⟩
        by_cases hji : j = i
        · subst hji
          have hself : (table.clear j).proc j = {} := Function.update_self ..
          refine Or.inr ⟨hmatch, ?_⟩
          rcases hproc j with h' | ⟨-, h'⟩
          · rw [h', hself]
          · exact h'
        · have hother : (table.clear i).proc j = table.proc j := Function.update_of_ne hji ..
          have := hproc j
          rwa [hother] at this
      · rw [if_neg hmatch]
        exact Counted.clearAll hne hrest h

theorem Counted.disconnect {procOid : ObjId} (hne : procOid ≠ 0) (h : table.Counted) :
    (table.disconnect procOid).Counted ∧ ∀ j, (table.disconnect procOid).proc j = table.proc j ∨
      (table.proc j).procOid = procOid ∧ (table.disconnect procOid).proc j = {} := by
  unfold ProcTable.disconnect
  rw [if_neg hne]
  exact Counted.clearAll hne (fun i hi => List.mem_range.mp hi) h

end ProcTable

/-! ## The condition -/

def MgrPc.slot? : MgrPc → Option Nat
  | .idle | .test _ | .load _ | .kill _ _ => none
  | .flags i | .reread i _ | .search i _ _ | .read i _ _ | .delete i _ _ _ | .clear i => some i

def MgrPc.objlist : MgrPc → List ObjId
  | .read _ _ objlist => objlist
  | .delete _ _ usedObjmeta objlist => usedObjmeta.oid :: objlist
  | _ => []

/-- A call's condition: the oid an insert hands out is not in use, and no delete names
a free slot. -/
def CleanupState.FreshOid (s : CleanupState) : Op → Prop
  | .insert _ _ =>
      s.world.db.findmetaById s.world.db.nextOid = none ∧ s.world.db.nextOid ∉ s.mgr.objlist
  | .deleteImm _ metadata _ _ => metadata.oid ≠ 0
  | _ => True

/-- The condition on the manager's steps: a pid that `kill` does not find is still the
pid in the slot, and the lists do not overflow. -/
def CleanupState.StillThere (s : CleanupState) : Prop :=
  match s.mgr with
  | .kill i pid => s.exists_ pid ∨ (s.table.proc i).pid = pid
  | .search _ _ procOid => s.world.db.ListFits 0 procOid
  | .delete _ _ _ _ => NoFullFamily s.world.db.objmeta
  | _ => True

/-- Of it, what keeps the manager to the slot of one dead process. -/
def CleanupState.SlotKept (s : CleanupState) : Prop :=
  match s.mgr with
  | .kill i pid => s.exists_ pid ∨ (s.table.proc i).pid = pid
  | .search _ _ procOid => s.world.db.ListFits 0 procOid
  | _ => True

/-- The condition on a run's steps. -/
def CleanupGuard (s : CleanupState) : CleanupStep → Prop
  | .connect _ _ => s.table.nextOid ≠ 0 ∧ s.table.nextOid ∉ s.live ∧
      ∀ i < procMax, (s.table.proc i).procOid ≠ s.table.nextOid
  | .call op => s.FreshOid op
  | .manager _ => s.StillThere
  | _ => True

/-- The same without what the deletes of the manager need. -/
def ManagerGuard (s : CleanupState) : CleanupStep → Prop
  | .connect _ _ => s.table.nextOid ≠ 0 ∧ s.table.nextOid ∉ s.live ∧
      ∀ i < procMax, (s.table.proc i).procOid ≠ s.table.nextOid
  | .call op => s.FreshOid op
  | .manager _ => s.SlotKept
  | _ => True

instance (s : CleanupState) : DecidablePred s.FreshOid
  | .insert _ _ => inferInstanceAs (Decidable
      (s.world.db.findmetaById s.world.db.nextOid = none ∧ s.world.db.nextOid ∉ s.mgr.objlist))
  | .deleteImm _ metadata _ _ => inferInstanceAs (Decidable (metadata.oid ≠ 0))
  | .purgeObjs | .changeinfo .. | .writedata .. => isTrue trivial

instance CleanupState.instDecidableStillThere (s : CleanupState) : Decidable s.StillThere :=
  match s with
  | { mgr := .kill i pid, table, .. } =>
      inferInstanceAs (Decidable (_ ∨ (table.proc i).pid = pid))
  | { mgr := .search _ _ procOid, world, .. } =>
      inferInstanceAs (Decidable (world.db.ListFits 0 procOid))
  | { mgr := .delete .., world, .. } =>
      inferInstanceAs (Decidable (NoFullFamily world.db.objmeta))
  | { mgr := .idle, .. } | { mgr := .test _, .. } | { mgr := .load _, .. }
  | { mgr := .flags _, .. } | { mgr := .reread .., .. } | { mgr := .read .., .. }
  | { mgr := .clear _, .. } => isTrue trivial

instance CleanupState.instDecidableSlotKept (s : CleanupState) : Decidable s.SlotKept :=
  match s with
  | { mgr := .kill i pid, table, .. } =>
      inferInstanceAs (Decidable (_ ∨ (table.proc i).pid = pid))
  | { mgr := .search _ _ procOid, world, .. } =>
      inferInstanceAs (Decidable (world.db.ListFits 0 procOid))
  | { mgr := .idle, .. } | { mgr := .test _, .. } | { mgr := .load _, .. }
  | { mgr := .flags _, .. } | { mgr := .reread .., .. } | { mgr := .read .., .. }
  | { mgr := .delete .., .. } | { mgr := .clear _, .. } => isTrue trivial

instance (s : CleanupState) : DecidablePred (ManagerGuard s)
  | .connect _ _ => inferInstanceAs (Decidable (s.table.nextOid ≠ 0 ∧ s.table.nextOid ∉ s.live ∧
      ∀ i < procMax, (s.table.proc i).procOid ≠ s.table.nextOid))
  | .call op => inferInstanceAs (Decidable (s.FreshOid op))
  | .manager _ => inferInstanceAs (Decidable s.SlotKept)
  | .start _ | .exit _ | .disconnect _ | .purgeProcs => isTrue trivial

instance (s : CleanupState) : DecidablePred (CleanupGuard s)
  | .connect _ _ => inferInstanceAs (Decidable (s.table.nextOid ≠ 0 ∧ s.table.nextOid ∉ s.live ∧
      ∀ i < procMax, (s.table.proc i).procOid ≠ s.table.nextOid))
  | .call op => inferInstanceAs (Decidable (s.FreshOid op))
  | .manager _ => inferInstanceAs (Decidable s.StillThere)
  | .start _ | .exit _ | .disconnect _ | .purgeProcs => isTrue trivial

/-! ## The invariant -/

/-- All objects with this oid, if any, were created by `procOid`. -/
def CreatedBy (w : World) (procOid oid : ObjId) : Prop :=
  oid ≠ 0 ∧ ∀ i, (w.db.objmeta i).oid = oid → (w.db.objmeta i).createdProc = procOid

/-- The slot is occupied, and its process is not connected and alive. -/
structure DeadSlot (s : CleanupState) (i : Nat) : Prop where
  lt : i < procMax
  occupied : (s.table.proc i).procOid ≠ 0
  dead : (s.table.proc i).procOid ∉ s.live

structure MgrInv (s : CleanupState) : Prop where
  slot : ∀ i, s.mgr.slot? = some i → DeadSlot s i
  objlist : ∀ i, s.mgr.slot? = some i →
    ∀ oid ∈ s.mgr.objlist, CreatedBy s.world (s.table.proc i).procOid oid
  search : ∀ i imm procOid, s.mgr = .search i imm procOid → procOid = (s.table.proc i).procOid
  load : ∀ i, s.mgr = .load i → i < procMax
  kill : ∀ i pid, s.mgr = .kill i pid → i < procMax

structure ProcInv (s : CleanupState) : Prop where
  counted : s.table.Counted
  notManager : ∀ i < procMax, (s.table.proc i).procOid ≠ managerOid
  connOid : ∀ c ∈ s.conns, c.procOid ≠ 0
  running : ∀ c ∈ s.conns, c.alive = true → c.pid ∈ s.pids
  slotPid : ∀ c ∈ s.conns, c.alive = true → ∀ i < procMax,
    (s.table.proc i).procOid = c.procOid → (s.table.proc i).pid = c.pid

structure CleanupInv (s : CleanupState) : Prop where
  sound : CleanupSound s
  procs : ProcInv s
  mgr : MgrInv s
  oids : OidTable s.world.db.objmeta

/-- The part of it that does not speak about the past. -/
structure CleanupCore (s : CleanupState) : Prop where
  procs : ProcInv s
  mgr : MgrInv s
  oids : OidTable s.world.db.objmeta

theorem CleanupState.StillThere.slotKept (h : s.StillThere) : s.SlotKept := by
  unfold CleanupState.StillThere at h
  unfold CleanupState.SlotKept
  cases hpc : s.mgr <;> simp only [hpc] at h ⊢ <;> exact h

theorem CleanupGuard.managerGuard {l : CleanupStep} (h : CleanupGuard s l) : ManagerGuard s l := by
  cases l with
  | manager fuel => exact CleanupState.StillThere.slotKept h
  | start pid => exact trivial
  | exit pid => exact trivial
  | connect pid imm => exact h
  | disconnect c => exact trivial
  | call op => exact h
  | purgeProcs => exact trivial

theorem mem_live {s : CleanupState} {oid : ObjId} :
    oid ∈ s.live ↔ oid = managerOid ∨ ∃ c ∈ s.conns, c.alive = true ∧ c.procOid = oid := by
  unfold CleanupState.live
  simp only [List.mem_cons, List.mem_map, List.mem_filter, and_assoc]

theorem CleanupSound.of_eq (h : CleanupSound s) (hcore : CleanupCore s')
    (hdel : s'.deletions = s.deletions) (hclear : s'.clearings = s.clearings) :
    CleanupSound s' := by
  refine ⟨?_, ?_, hcore.procs.counted.free⟩
  · rw [hdel]
    exact h.deletions
  · rw [hclear]
    exact h.clearings

theorem ProcInv.of_eq (h : ProcInv s) (htable : s'.table = s.table) (hpids : s'.pids = s.pids)
    (hconns : s'.conns = s.conns) : ProcInv s' := by
  obtain ⟨h1, h2, h3, h4, h5⟩ := h
  rw [← htable] at h1 h2 h5
  rw [← hconns] at h3 h4 h5
  rw [← hpids] at h4
  exact ⟨h1, h2, h3, h4, h5⟩

/-- The manager's knowledge outlives steps of others: the slot stays as it was, and the
objects on the list keep their creator. -/
theorem MgrInv.transport (h : MgrInv s) (hmgr : s'.mgr = s.mgr)
    (hproc : ∀ i, DeadSlot s i → s'.table.proc i = s.table.proc i)
    (hlive : ∀ i, DeadSlot s i → (s.table.proc i).procOid ∉ s'.live)
    (hcreated : ∀ procOid, ∀ oid ∈ s.mgr.objlist, CreatedBy s.world procOid oid →
      CreatedBy s'.world procOid oid) : MgrInv s' := by
  refine ⟨fun i hi => ?_, fun i hi oid hoid => ?_, fun i imm procOid hpc => ?_, ?_, ?_⟩
  · have hd := h.slot i (hmgr ▸ hi)
    have hsame := hproc i hd
    exact ⟨hd.lt, by rw [hsame]; exact hd.occupied, by rw [hsame]; exact hlive i hd⟩
  · rw [hmgr] at hi hoid
    rw [hproc i (h.slot i hi)]
    exact hcreated _ oid hoid (h.objlist i hi oid hoid)
  · rw [hmgr] at hpc
    rw [hproc i (h.slot i (by rw [hpc]; rfl))]
    exact h.search i imm procOid hpc
  · rw [hmgr]
    exact h.load
  · rw [hmgr]
    exact h.kill

/-! ## Steps of the other processes -/

/-- What a step that is not the manager's does, and when it can be taken. -/
inductive OthersStep [Rounding] (env : Env)
    (s : CleanupState) : CleanupStep → CleanupState → Prop where
  | start {pid : Int} : OthersStep env s (.start pid) { s with pids := pid :: s.pids }
  | exit {pid : Int} :
      OthersStep env s (.exit pid)
        { s with pids := s.pids.filter (· ≠ pid), conns := s.conns.map (·.exit pid) }
  | connect {pid : Int} {imm : Bool} {oid : ObjId} {table : ProcTable} (hpid : pid ∈ s.pids)
      (hconn : s.table.connect pid imm = some (oid, table)) :
      OthersStep env s (.connect pid imm)
        { s with table := table, conns := ⟨oid, pid, true⟩ :: s.conns }
  | disconnect {c : Conn} (hc : c ∈ s.conns) (halive : c.alive = true) :
      OthersStep env s (.disconnect c)
        { s with table := s.table.disconnect c.procOid, conns := s.conns.erase c }
  | call {op : Op} {events : List ApiEvent} {w : World}
      (hrun : op.run env.atomic s.world = some (events, w)) :
      OthersStep env s (.call op) { s with world := w }
  | purgeProcs : OthersStep env s .purgeProcs { s with mgr := .test 0 }

/-- A step is one of the manager's or one of the others. -/
theorem next_cases [Rounding] {l : CleanupStep} (hs : CleanupState.next env s l = some s') :
    (∃ fuel, l = .manager fuel ∧ managerStep env s fuel = some s') ∨ OthersStep env s l s' := by
  cases l with
  | start pid =>
      rw [CleanupState.next] at hs
      split at hs <;> cases hs
      exact Or.inr .start
  | exit pid =>
      rw [CleanupState.next] at hs
      split at hs <;> cases hs
      exact Or.inr .exit
  | connect pid imm =>
      rw [CleanupState.next] at hs
      split at hs
      · rename_i hpid
        obtain ⟨⟨oid, table⟩, hconn, rfl⟩ := Option.map_eq_some_iff.mp hs
        exact Or.inr (.connect hpid hconn)
      · cases hs
  | disconnect c =>
      rw [CleanupState.next] at hs
      split at hs
      · rename_i hc
        cases hs
        exact Or.inr (.disconnect hc.1 hc.2)
      · cases hs
  | call op =>
      rw [CleanupState.next] at hs
      split at hs
      · obtain ⟨⟨events, w⟩, hrun, rfl⟩ := Option.map_eq_some_iff.mp hs
        exact Or.inr (.call hrun)
      · cases hs
  | purgeProcs =>
      rw [CleanupState.next] at hs
      split at hs <;> cases hs
      exact Or.inr .purgeProcs
  | manager fuel => exact Or.inl ⟨fuel, rfl, hs⟩

theorem core_start (pid : Int) (h : CleanupCore s) :
    CleanupCore { s with pids := pid :: s.pids } := by
  refine ⟨⟨h.procs.counted, h.procs.notManager, h.procs.connOid, ?_, h.procs.slotPid⟩,
    h.mgr.transport rfl (fun _ _ => rfl) (fun i hd => hd.dead) fun _ _ _ hc => hc, h.oids⟩
  exact fun c hc halive => List.mem_cons_of_mem pid (h.procs.running c hc halive)

theorem alive_exit {pid : Int} {c : Conn} (h : (c.exit pid).alive = true) :
    c.exit pid = c ∧ c.pid ≠ pid := by
  unfold Conn.exit at h ⊢
  split at h
  · cases h
  · rename_i hne
    exact ⟨if_neg hne, hne⟩

/-- An alive connection after an exit was alive before. -/
theorem mem_exit {pid : Int} {conns : List Conn} {c : Conn} (hc : c ∈ conns.map (·.exit pid))
    (halive : c.alive = true) : c ∈ conns ∧ c.pid ≠ pid := by
  obtain ⟨c₀, hc₀, rfl⟩ := List.mem_map.mp hc
  obtain ⟨heq, hne⟩ := alive_exit halive
  rw [heq]
  exact ⟨hc₀, hne⟩

theorem core_exit (pid : Int) (h : CleanupCore s) :
    CleanupCore
      { s with pids := s.pids.filter (· ≠ pid), conns := s.conns.map (·.exit pid) } := by
  refine ⟨⟨h.procs.counted, h.procs.notManager, ?_, ?_, ?_⟩, ?_, h.oids⟩
  · intro c hc
    obtain ⟨c₀, hc₀, rfl⟩ := List.mem_map.mp hc
    have hoid := h.procs.connOid c₀ hc₀
    unfold Conn.exit
    split <;> exact hoid
  · intro c hc halive
    obtain ⟨hmem, hne⟩ := mem_exit hc halive
    exact List.mem_filter.mpr ⟨h.procs.running c hmem halive, decide_eq_true hne⟩
  · intro c hc halive
    exact h.procs.slotPid c (mem_exit hc halive).1 halive
  · refine h.mgr.transport rfl (fun _ _ => rfl) (fun i hd hmem => ?_) fun _ _ _ hc => hc
    rcases mem_live.mp hmem with hman | ⟨c, hc, halive, hoid⟩
    · exact hd.dead (mem_live.mpr (Or.inl hman))
    · exact hd.dead (mem_live.mpr (Or.inr ⟨c, (mem_exit hc halive).1, halive, hoid⟩))

theorem core_connect {pid : Int} {imm : Bool} {oid : ObjId} {table : ProcTable}
    (h : CleanupCore s) (hg : ManagerGuard s (.connect pid imm)) (hpid : pid ∈ s.pids)
    (hconn : s.table.connect pid imm = some (oid, table)) :
    CleanupCore { s with table := table, conns := ⟨oid, pid, true⟩ :: s.conns } := by
  obtain ⟨hne, hnotLive, hunused⟩ := hg
  have hcounted := h.procs.counted.connect hne hconn
  obtain ⟨k, hk, hfree, hoid, hproc, -⟩ := ProcTable.connect_some hconn
  generalize s.table.nextOid = o at hne hnotLive hunused hoid hproc
  dsimp only at hoid hproc hcounted ⊢
  subst hoid
  refine ⟨⟨hcounted, ?_, ?_, ?_, ?_⟩, ?_, h.oids⟩
  · intro i hi
    show (table.proc i).procOid ≠ managerOid
    rw [hproc]
    by_cases hik : i = k
    · rw [hik, Function.update_self]
      exact fun heq => hnotLive (mem_live.mpr (Or.inl heq))
    · rw [Function.update_of_ne hik]
      exact h.procs.notManager i hi
  · intro c hc
    rcases List.mem_cons.mp hc with rfl | hc
    · exact hne
    · exact h.procs.connOid c hc
  · intro c hc halive
    rcases List.mem_cons.mp hc with rfl | hc
    · exact hpid
    · exact h.procs.running c hc halive
  · intro c hc halive i hi
    show (table.proc i).procOid = c.procOid → (table.proc i).pid = c.pid
    rw [hproc]
    by_cases hik : i = k
    · rw [hik, Function.update_self]
      rcases List.mem_cons.mp hc with rfl | hc
      · exact fun _ => rfl
      · exact fun heq => absurd (mem_live.mpr (Or.inr ⟨c, hc, halive, heq.symm⟩)) hnotLive
    · rw [Function.update_of_ne hik]
      rcases List.mem_cons.mp hc with rfl | hc
      · exact fun heq => absurd heq (hunused i hi)
      · exact h.procs.slotPid c hc halive i hi
  · refine h.mgr.transport rfl (fun i hd => ?_) (fun i hd hmem => ?_) fun _ _ _ hc => hc
    · show table.proc i = s.table.proc i
      rw [hproc, Function.update_of_ne]
      rintro rfl
      exact hd.occupied hfree
    · rcases mem_live.mp hmem with hman | ⟨c, hc, halive, heq⟩
      · exact hd.dead (mem_live.mpr (Or.inl hman))
      · rcases List.mem_cons.mp hc with rfl | hc
        · exact hunused i hd.lt heq.symm
        · exact hd.dead (mem_live.mpr (Or.inr ⟨c, hc, halive, heq⟩))

theorem core_disconnect {c : Conn} (h : CleanupCore s) (hc : c ∈ s.conns)
    (halive : c.alive = true) :
    CleanupCore { s with table := s.table.disconnect c.procOid, conns := s.conns.erase c } := by
  obtain ⟨hcounted, hproc⟩ := h.procs.counted.disconnect (h.procs.connOid c hc)
  have hslot : ∀ i, (s.table.disconnect c.procOid).proc i = s.table.proc i ∨
      (s.table.disconnect c.procOid).proc i = {} := fun i => (hproc i).imp id And.right
  refine ⟨⟨hcounted, ?_, ?_, ?_, ?_⟩, ?_, h.oids⟩
  · intro i hi
    show ((s.table.disconnect c.procOid).proc i).procOid ≠ managerOid
    rcases hslot i with heq | heq <;> rw [heq]
    · exact h.procs.notManager i hi
    · decide
  · exact fun c' hc' => h.procs.connOid c' (List.mem_of_mem_erase hc')
  · exact fun c' hc' => h.procs.running c' (List.mem_of_mem_erase hc')
  · intro c' hc' halive' i hi
    have hmem := List.mem_of_mem_erase hc'
    show ((s.table.disconnect c.procOid).proc i).procOid = c'.procOid →
      ((s.table.disconnect c.procOid).proc i).pid = c'.pid
    rcases hslot i with heq | heq <;> rw [heq]
    · exact h.procs.slotPid c' hmem halive' i hi
    · exact fun h0 => absurd h0.symm (h.procs.connOid c' hmem)
  · refine h.mgr.transport rfl (fun i hd => ?_) (fun i hd hmem => ?_) fun _ _ _ hc => hc
    · refine (hproc i).resolve_right fun ⟨heq, _⟩ => ?_
      exact hd.dead (mem_live.mpr (Or.inr ⟨c, hc, halive, heq.symm⟩))
    · rcases mem_live.mp hmem with hman | ⟨c', hc', halive', hoid⟩
      · exact hd.dead (mem_live.mpr (Or.inl hman))
      · exact hd.dead (mem_live.mpr (Or.inr ⟨c', List.mem_of_mem_erase hc', halive', hoid⟩))

theorem CreatedBy.same {procOid oid : ObjId} (h : CreatedBy w procOid oid)
    (hsame : ∀ i, SameObject (w.db.objmeta i) (w'.db.objmeta i)) : CreatedBy w' procOid oid := by
  refine ⟨h.1, fun i hi => ?_⟩
  obtain ⟨hoid, hproc⟩ := hsame i (by rw [hi]; exact h.1)
  exact hproc.trans (h.2 i (hoid.symm.trans hi))

theorem core_call [Rounding] {op : Op} {events : List ApiEvent} {w : World} (h : CleanupCore s)
    (hg : ManagerGuard s (.call op)) (hrun : op.run env.atomic s.world = some (events, w)) :
    CleanupCore { s with world := w } := by
  have hoid : ∀ h metadata imm fuel, op = .deleteImm h metadata imm fuel →
      metadata.oid ≠ 0 := by
    rintro h metadata imm fuel rfl
    exact hg
  obtain ⟨i, hother, hself⟩ := slots_op hoid hrun
  have hmgr (hcreated : ∀ procOid, ∀ oid ∈ s.mgr.objlist, CreatedBy s.world procOid oid →
      CreatedBy w procOid oid) : MgrInv { s with world := w } :=
    h.mgr.transport rfl (fun _ _ => rfl) (fun i hd => hd.dead) hcreated
  rcases hself with hsame | ⟨⟨h', metadata, rfl⟩, hlt, hnew⟩
  · have hall : ∀ j, SameObject (s.world.db.objmeta j) (w.db.objmeta j) := fun j => by
      by_cases hji : j = i
      · rwa [hji]
      · exact hother j hji
    exact ⟨h.procs.of_eq rfl rfl rfl, hmgr fun _ _ _ hc => hc.same hall, h.oids.same hall⟩
  · obtain ⟨hnone, hnotListed⟩ := hg
    by_cases h0 : s.world.db.nextOid = 0
    · have hall : ∀ j, SameObject (s.world.db.objmeta j) (w.db.objmeta j) := fun j => by
        by_cases hji : j = i
        · rw [hji]
          exact fun hne => absurd (hnew.trans h0) hne
        · exact hother j hji
      exact ⟨h.procs.of_eq rfl rfl rfl, hmgr fun _ _ _ hc => hc.same hall, h.oids.same hall⟩
    · have hunused := Db.findmetaById_none h.oids.bound h0 hnone
      refine ⟨h.procs.of_eq rfl rfl rfl,
        hmgr fun procOid oid hmem hc => ⟨hc.1, fun j hj => ?_⟩,
        h.oids.enter hlt hother fun j => by rw [hnew]; exact hunused j⟩
      by_cases hji : j = i
      · subst hji
        exact absurd (hnew.symm.trans hj ▸ hmem) hnotListed
      · obtain ⟨hjoid, hproc⟩ := hother j hji (by rw [hj]; exact hc.1)
        exact hproc.trans (hc.2 j (hjoid.symm.trans hj))

/-! ## The manager's steps -/

/-- Before `kill` has answered, the manager knows nothing of the slot. -/
theorem MgrInv.of_none (hslot : s.mgr.slot? = none) (hload : ∀ i, s.mgr = .load i → i < procMax)
    (hkill : ∀ i pid, s.mgr = .kill i pid → i < procMax) : MgrInv s := by
  refine ⟨fun i hi => ?_, fun i hi => ?_, fun i imm procOid hpc => ?_, hload, hkill⟩
  · rw [hslot] at hi
    cases hi
  · rw [hslot] at hi
    cases hi
  · rw [hpc] at hslot
    cases hslot

theorem MgrInv.of_dead {i : Nat} (hd : DeadSlot s i) (hslot : s.mgr.slot? = some i)
    (hlist : ∀ oid ∈ s.mgr.objlist, CreatedBy s.world (s.table.proc i).procOid oid)
    (hsearch : ∀ j imm procOid, s.mgr = .search j imm procOid →
      procOid = (s.table.proc j).procOid) : MgrInv s := by
  have hi : ∀ j, s.mgr.slot? = some j → j = i := fun j hj => Option.some.inj (hj.symm.trans hslot)
  refine ⟨fun j hj => ?_, fun j hj => ?_, hsearch, fun j hj => ?_, fun j pid hj => ?_⟩
  · rwa [hi j hj]
  · rwa [hi j hj]
  · rw [hj] at hslot
    cases hslot
  · rw [hj] at hslot
    cases hslot

/-- The process of a slot with a pid that `kill` does not find is dead. -/
theorem deadSlot_of_kill {i : Nat} {pid : Int} (h : ProcInv s) (hi : i < procMax)
    (hpid : ¬ s.exists_ pid) (hsame : (s.table.proc i).pid = pid) : DeadSlot s i := by
  unfold CleanupState.exists_ at hpid
  refine ⟨hi, fun h0 => ?_, fun hmem => ?_⟩
  · rw [h.counted.zero i h0] at hsame
    exact hpid (Or.inl hsame.symm)
  · rcases mem_live.mp hmem with hman | ⟨c, hc, halive, hoid⟩
    · exact h.notManager i hi hman
    · have hpidEq := h.slotPid c hc halive i hi hoid.symm
      exact hpid (Or.inr (by rw [← hsame, hpidEq]; exact h.running c hc halive))

theorem core_search {fuel i : Nat} {imm : Bool} {procOid : ObjId} (h : CleanupCore s)
    (hpc : s.mgr = .search i imm procOid) (hfits : s.world.db.ListFits 0 procOid)
    (hs : managerStep env s fuel = some s') : CleanupCore s' := by
  have hd := h.mgr.slot i (by rw [hpc]; rfl)
  have hproc := h.mgr.search i imm procOid hpc
  rw [managerStep, hpc] at hs
  obtain ⟨⟨⟨err, objlist⟩, w⟩, hrun, rfl⟩ := Option.map_eq_some_iff.mp hs
  have hworld : w.db = s.world.db := searchinfoMode_db hrun
  refine ⟨h.procs.of_eq rfl rfl rfl, ?_, ?_⟩
  · cases err with
    | error e =>
        exact .of_dead ⟨hd.lt, hd.occupied, hd.dead⟩ rfl (fun oid hoid => nomatch hoid)
          fun _ _ _ hpc => nomatch hpc
    | ok n =>
        obtain ⟨list, rfl, hlist⟩ := searchinfoMode_entries hfits hrun
        refine .of_dead ⟨hd.lt, hd.occupied, hd.dead⟩ rfl (fun oid hoid => ?_)
          fun _ _ _ hpc => nomatch hpc
        obtain ⟨j, hj, hne, -, hcreated⟩ := hlist oid hoid
        refine ⟨hne, fun k hk => ?_⟩
        change (w.db.objmeta k).oid = oid at hk
        show (w.db.objmeta k).createdProc = (s.table.proc i).procOid
        rw [hworld] at hk ⊢
        obtain rfl : k = j := h.oids.unique k j (by rwa [hk]) (hk.trans hj.symm)
        exact (hcreated (hproc ▸ hd.occupied)).trans hproc
  · show OidTable w.db.objmeta
    rw [hworld]
    exact h.oids

theorem core_read {fuel i : Nat} {imm : Bool} {oid : ObjId} {objlist : List ObjId}
    (h : CleanupCore s) (hpc : s.mgr = .read i imm (oid :: objlist))
    (hs : managerStep env s fuel = some s') : CleanupCore s' := by
  have hd := h.mgr.slot i (by rw [hpc]; rfl)
  have hlist := h.mgr.objlist i (by rw [hpc]; rfl)
  rw [hpc] at hlist
  rw [managerStep, hpc] at hs
  obtain ⟨⟨⟨err, usedObjmeta⟩, w⟩, hrun, rfl⟩ := Option.map_eq_some_iff.mp hs
  have hworld : w.db = s.world.db := by
    have := readinfo_spec (P := fun w => w.db = s.world.db) (fun _ _ hw hdb _ _ => hdb.trans hw)
      s.world _ w rfl hrun
    exact this.1
  have hsame : ∀ procOid oid, CreatedBy s.world procOid oid → CreatedBy w procOid oid :=
    fun _ _ hc => hc.same fun i => by
      rw [hworld]
      exact fun _ => ⟨rfl, rfl⟩
  refine ⟨h.procs.of_eq rfl rfl rfl, ?_, ?_⟩
  · by_cases hkeep : err.isOk ∧ usedObjmeta.flags.persistent
    · simp only [if_pos hkeep]
      exact .of_dead ⟨hd.lt, hd.occupied, hd.dead⟩ rfl
        (fun o ho => hsame _ o (hlist o (List.mem_cons_of_mem oid ho)))
        fun _ _ _ hpc => nomatch hpc
    · simp only [if_neg hkeep]
      exact .of_dead ⟨hd.lt, hd.occupied, hd.dead⟩ rfl (fun o ho => hsame _ o (hlist o ho))
        fun _ _ _ hpc => nomatch hpc
  · show OidTable w.db.objmeta
    rw [hworld]
    exact h.oids

theorem core_delete {fuel i : Nat} {imm : Bool} {metadata : ObjInfo} {objlist : List ObjId}
    (h : CleanupCore s) (hpc : s.mgr = .delete i imm metadata objlist)
    (hs : managerStep env s fuel = some s') : CleanupCore s' := by
  have hd := h.mgr.slot i (by rw [hpc]; rfl)
  have hlist := h.mgr.objlist i (by rw [hpc]; rfl)
  rw [hpc] at hlist
  rw [managerStep, hpc] at hs
  obtain ⟨⟨r, w⟩, hrun, rfl⟩ := Option.map_eq_some_iff.mp hs
  obtain ⟨hoid, -⟩ := hlist metadata.oid List.mem_cons_self
  have hsame := sameObject_steps
    (Steps.keepsEffects.deleteImm fuel (fun _ => hoid) s.world r w .refl hrun)
  refine ⟨h.procs.of_eq rfl rfl rfl, ?_, h.oids.same hsame⟩
  exact .of_dead ⟨hd.lt, hd.occupied, hd.dead⟩ rfl
    (fun o ho => (hlist o (List.mem_cons_of_mem _ ho)).same hsame)
    fun _ _ _ hpc => nomatch hpc

/-- What a delete takes is below an object of the slot's process. -/
theorem sound_delete {fuel i : Nat} {imm : Bool} {metadata : ObjInfo} {objlist : List ObjId}
    (h : CleanupInv s) (hpc : s.mgr = .delete i imm metadata objlist)
    (hfam : NoFullFamily s.world.db.objmeta)
    (hs : managerStep env s fuel = some s') : CleanupSound s' := by
  have hd := h.mgr.slot i (by rw [hpc]; rfl)
  have hlist := h.mgr.objlist i (by rw [hpc]; rfl)
  rw [hpc] at hlist
  rw [managerStep, hpc] at hs
  obtain ⟨⟨r, w⟩, hrun, rfl⟩ := Option.map_eq_some_iff.mp hs
  obtain ⟨hoid, hcreated⟩ := hlist metadata.oid List.mem_cons_self
  have hkeeps : Prog.Keeps (Within s.world.db.objmeta metadata.oid)
      (deleteImm env.atomic manager fuel metadata imm) :=
    within_deleteImm h.oids hfam fuel hoid fun j hj => ⟨j, hj, .refl⟩
  have hwithin := hkeeps s.world r w .refl hrun
  refine ⟨?_, h.sound.clearings, h.sound.free⟩
  intro d hmem
  rcases List.mem_cons.mp hmem with rfl | hmem
  · intro j hj
    obtain ⟨k, hk, hchain⟩ := hwithin.changed j hj
    refine ⟨k, by rw [hk]; exact hoid, ?_, hchain⟩
    rw [hcreated k hk]
    exact hd.dead
  · exact h.sound.deletions d hmem

theorem core_clear {i : Nat} {fuel : Nat} (h : CleanupCore s) (hpc : s.mgr = .clear i)
    (hs : managerStep env s fuel = some s') : CleanupCore s' := by
  have hd := h.mgr.slot i (by rw [hpc]; rfl)
  rw [managerStep, hpc] at hs
  cases hs
  have hcounted := h.procs.counted.clear hd.lt hd.occupied
  have hslot : ∀ j, (s.table.clear i).proc j = s.table.proc j ∨ (s.table.clear i).proc j = {} := by
    intro j
    by_cases hji : j = i
    · subst hji
      exact Or.inr (Function.update_self ..)
    · exact Or.inl (Function.update_of_ne hji ..)
  refine ⟨⟨hcounted, fun j hj => ?_, h.procs.connOid, h.procs.running, fun c hc halive j hj => ?_⟩,
    .of_none rfl (fun _ hpc => nomatch hpc) (fun _ _ hpc => nomatch hpc), h.oids⟩
  · show ((s.table.clear i).proc j).procOid ≠ managerOid
    rcases hslot j with heq | heq <;> rw [heq]
    · exact h.procs.notManager j hj
    · decide
  · show ((s.table.clear i).proc j).procOid = c.procOid → ((s.table.clear i).proc j).pid = c.pid
    rcases hslot j with heq | heq <;> rw [heq]
    · exact h.procs.slotPid c hc halive j hj
    · exact fun h0 => absurd h0.symm (h.procs.connOid c hc)

/-- The slot that is cleared is that of a dead process. -/
theorem sound_clear {i : Nat} {fuel : Nat} (h : CleanupInv s) (hpc : s.mgr = .clear i)
    (hs : managerStep env s fuel = some s') : CleanupSound s' := by
  have hd := h.mgr.slot i (by rw [hpc]; rfl)
  rw [managerStep, hpc] at hs
  cases hs
  refine ⟨h.sound.deletions, ?_, (h.procs.counted.clear hd.lt hd.occupied).free⟩
  intro c hmem
  rcases List.mem_cons.mp hmem with rfl | hmem
  · exact hd.dead
  · exact h.sound.clearings c hmem

theorem core_manager {fuel : Nat} (h : CleanupCore s) (hg : s.SlotKept)
    (hs : managerStep env s fuel = some s') : CleanupCore s' := by
  have hmove (pc : MgrPc) (hpc : MgrInv { s with mgr := pc }) : CleanupCore { s with mgr := pc } :=
    ⟨h.procs.of_eq rfl rfl rfl, hpc, h.oids⟩
  unfold CleanupState.SlotKept at hg
  cases hpc : s.mgr with
  | idle =>
      rw [managerStep, hpc] at hs
      cases hs
  | test i =>
      rw [managerStep, hpc] at hs
      dsimp only at hs
      split at hs <;> cases hs <;> refine hmove _ (.of_none ?_ ?_ ?_)
      · split <;> rfl
      · intro j hj
        split at hj <;> cases hj
        assumption
      · intro j pid hj
        split at hj <;> cases hj
      · rfl
      · exact fun _ hj => nomatch hj
      · exact fun _ _ hj => nomatch hj
  | load i =>
      rw [managerStep, hpc] at hs
      cases hs
      refine hmove _ (.of_none rfl (fun _ hj => nomatch hj) fun j pid hj => ?_)
      cases hj
      exact h.mgr.load i hpc
  | kill i pid =>
      rw [hpc] at hg
      rw [managerStep, hpc] at hs
      cases hs
      refine hmove _ ?_
      by_cases hexists : s.exists_ pid
      · rw [if_pos hexists]
        exact .of_none rfl (fun _ hj => nomatch hj) fun _ _ hj => nomatch hj
      · rw [if_neg hexists]
        exact .of_dead (i := i) (deadSlot_of_kill (h.procs.of_eq rfl rfl rfl)
          (h.mgr.kill i pid hpc) hexists (hg.resolve_left hexists)) rfl
          (fun _ hoid => nomatch hoid) fun _ _ _ hj => nomatch hj
  | flags i =>
      have hd := h.mgr.slot i (by rw [hpc]; rfl)
      rw [managerStep, hpc] at hs
      cases hs
      exact hmove _ (.of_dead ⟨hd.lt, hd.occupied, hd.dead⟩ rfl (fun _ hoid => nomatch hoid)
        fun _ _ _ hj => nomatch hj)
  | reread i imm =>
      have hd := h.mgr.slot i (by rw [hpc]; rfl)
      rw [managerStep, hpc] at hs
      cases hs
      refine hmove _ (.of_dead ⟨hd.lt, hd.occupied, hd.dead⟩ rfl (fun _ hoid => nomatch hoid)
        fun j imm procOid hj => ?_)
      cases hj
      rfl
  | search i imm procOid =>
      rw [hpc] at hg
      exact core_search h hpc hg hs
  | read i imm objlist =>
      cases objlist with
      | nil =>
          have hd := h.mgr.slot i (by rw [hpc]; rfl)
          rw [managerStep, hpc] at hs
          cases hs
          exact hmove _ (.of_dead ⟨hd.lt, hd.occupied, hd.dead⟩ rfl (fun _ hoid => nomatch hoid)
            fun _ _ _ hj => nomatch hj)
      | cons oid objlist => exact core_read h hpc hs
  | delete i imm metadata objlist => exact core_delete h hpc hs
  | clear i => exact core_clear h hpc hs

theorem sound_manager {fuel : Nat} (h : CleanupInv s) (hg : s.StillThere) (hcore : CleanupCore s')
    (hs : managerStep env s fuel = some s') : CleanupSound s' := by
  unfold CleanupState.StillThere at hg
  cases hpc : s.mgr with
  | idle =>
      rw [managerStep, hpc] at hs
      cases hs
  | test i =>
      rw [managerStep, hpc] at hs
      dsimp only at hs
      split at hs <;> cases hs <;> exact h.sound.of_eq hcore rfl rfl
  | load i =>
      rw [managerStep, hpc] at hs
      cases hs
      exact h.sound.of_eq hcore rfl rfl
  | kill i pid =>
      rw [managerStep, hpc] at hs
      cases hs
      exact h.sound.of_eq hcore rfl rfl
  | flags i =>
      rw [managerStep, hpc] at hs
      cases hs
      exact h.sound.of_eq hcore rfl rfl
  | reread i imm =>
      rw [managerStep, hpc] at hs
      cases hs
      exact h.sound.of_eq hcore rfl rfl
  | search i imm procOid =>
      rw [managerStep, hpc] at hs
      obtain ⟨out, -, rfl⟩ := Option.map_eq_some_iff.mp hs
      exact h.sound.of_eq hcore rfl rfl
  | read i imm objlist =>
      rw [managerStep.eq_def, hpc] at hs
      cases objlist with
      | nil =>
          cases hs
          exact h.sound.of_eq hcore rfl rfl
      | cons oid objlist =>
          obtain ⟨out, -, rfl⟩ := Option.map_eq_some_iff.mp hs
          exact h.sound.of_eq hcore rfl rfl
  | delete i imm metadata objlist =>
      rw [hpc] at hg
      exact sound_delete h hpc hg hs
  | clear i => exact sound_clear h hpc hs

/-! ## Runs -/

theorem inv_initial [Rounding] {heapSize : Int} {s : CleanupState}
    (h : (cleanupLts env heapSize).init s) : CleanupInv s := by
  subst h
  have hoids : OidTable (World.initial env.atomic heapSize).db.objmeta := by
    unfold World.initial World.afterAlloc
    rw [if_neg (by decide)]
    split <;> exact .initial heapSize
  exact ⟨⟨(fun d hd => nomatch hd), (fun c hc => nomatch hc), ProcTable.counted_initial.free⟩,
    ⟨ProcTable.counted_initial, fun i _ => Int.zero_ne_one, (fun c hc => nomatch hc),
      (fun c hc => nomatch hc), fun c hc => nomatch hc⟩,
    .of_none rfl (fun _ hj => nomatch hj) (fun _ _ hj => nomatch hj), hoids⟩

/-- Every step keeps the manager to a dead process's slot. -/
theorem core_step [Rounding] {l : CleanupStep} (h : CleanupCore s) (hg : ManagerGuard s l)
    (hs : CleanupState.next env s l = some s') : CleanupCore s' := by
  rcases next_cases hs with ⟨fuel, rfl, hs⟩ | hs
  · exact core_manager h hg hs
  · cases hs with
    | start => exact core_start _ h
    | exit => exact core_exit _ h
    | connect hpid hconn => exact core_connect h hg hpid hconn
    | disconnect hc halive => exact core_disconnect h hc halive
    | call hrun => exact core_call h hg hrun
    | purgeProcs =>
        exact ⟨h.procs.of_eq rfl rfl rfl,
          .of_none rfl (fun _ hj => nomatch hj) (fun _ _ hj => nomatch hj), h.oids⟩

/-- The other processes' steps delete and clear nothing for the manager. -/
theorem OthersStep.ghosts [Rounding] {l : CleanupStep} (hs : OthersStep env s l s') :
    s'.deletions = s.deletions ∧ s'.clearings = s.clearings := by
  cases hs <;> exact ⟨rfl, rfl⟩

theorem inv_step [Rounding] {l : CleanupStep} (h : CleanupInv s) (hg : CleanupGuard s l)
    (hs : CleanupState.next env s l = some s') : CleanupInv s' := by
  have hcore := core_step ⟨h.procs, h.mgr, h.oids⟩ hg.managerGuard hs
  refine ⟨?_, hcore.procs, hcore.mgr, hcore.oids⟩
  rcases next_cases hs with ⟨fuel, rfl, hs⟩ | hs
  · exact sound_manager h hg hcore hs
  · exact h.sound.of_eq hcore hs.ghosts.1 hs.ghosts.2

/-- Only the dead are cleaned up: in every run in which no pid that `kill` does not find
has left its slot since it was loaded, no object of a connected live process is
deleted by the cleanup, no slot of one is cleared, and `proc_free` is the number of free
slots. -/
theorem cleanupSound_of_guarded [Rounding] {heapSize : Int} {s : CleanupState}
    (h : (cleanupLts env heapSize).Guarded CleanupGuard s) : CleanupSound s :=
  (h.invariant (fun _ => inv_initial) fun _ _ _ hI hg hs => inv_step hI hg hs).sound

def cleanupSchedule : List CleanupStep :=
  [.start 100, .connect 100 false, .call (.insert ⟨2, false⟩ anObject), .exit 100, .purgeProcs] ++
    List.replicate 10 (.manager 1)

theorem cleanupSound_of_guarded_dead :
    ∃ s, (cleanupLts (exampleEnv 4096) 4096).Guarded CleanupGuard s ∧ CleanupSound s ∧
      s.clearings.length = 1 ∧ (s.world.db.objmeta 0).deletedTs ≠ 0 := by
  obtain ⟨s, hr, hp⟩ := (cleanupLts (exampleEnv 4096) 4096).exists_of_execGuarded
    (G := CleanupGuard) (g := fun s l => decide (CleanupGuard s l)) (fun _ _ => of_decide_eq_true)
    cleanupSchedule
    (fun s => decide (s.clearings.length = 1 ∧ (s.world.db.objmeta 0).deletedTs ≠ 0))
    (s := ⟨World.initial (exampleEnv 4096).atomic 4096, .initial, [], [], .idle, [], []⟩) rfl
    (by decide +kernel)
  exact ⟨s, hr, cleanupSound_of_guarded hr, of_decide_eq_true hp⟩

/-- A process disconnects and ends while the manager looks at its slot; a second one loses
its object, and the slot is counted twice. -/
def raceSchedule : List CleanupStep :=
  [.start 100, .connect 100 false, .start 200, .connect 200 false,
    .call (.insert ⟨3, false⟩ anObject), .purgeProcs, .manager 1, .manager 1,
    .disconnect ⟨2, 100, true⟩, .exit 100] ++ List.replicate 8 (.manager 1)

theorem exists_not_cleanupSound :
    ∃ s, (cleanupLts (exampleEnv 4096) 4096).Reachable s ∧ ¬ CleanupSound s ∧
      (s.world.db.objmeta 0).deletedTs ≠ 0 ∧ (s.world.db.objmeta 0).createdProc ∈ s.live := by
  obtain ⟨s, hr, hp⟩ := (cleanupLts (exampleEnv 4096) 4096).exists_of_exec raceSchedule
    (fun s => decide (s.table.procFree ≠ freeSlots s.table.proc ∧
      (s.world.db.objmeta 0).deletedTs ≠ 0 ∧ (s.world.db.objmeta 0).createdProc ∈ s.live))
    (s := ⟨World.initial (exampleEnv 4096).atomic 4096, .initial, [], [], .idle, [], []⟩) rfl
    (by decide +kernel)
  obtain ⟨hfree, hdeleted⟩ := of_decide_eq_true hp
  exact ⟨s, hr, fun hsound => hfree hsound.free, hdeleted⟩

end KogmoRtdb
