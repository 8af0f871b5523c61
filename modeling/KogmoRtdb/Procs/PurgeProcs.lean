import KogmoRtdb.Meta.DeleteTree

/-!
# The process table and its cleanup

The table of connected processes in the shared memory, with
`kogmo_rtdb_ipc_connect` and `kogmo_rtdb_ipc_disconnect` on it, and
`kogmo_rtdb_objmeta_purge_procs`, which the manager runs: for every occupied slot
it asks `kill` whether the process is still there, and if not, deletes what the
process created and clears the slot.

Processes connect and disconnect under `proc_lock`, each an atomic step. The manager
takes `proc_lock` for the clearing only; all its other looks at the slot are
steps of their own, and anything may happen between them.
-/

namespace KogmoRtdb

/-! ## The table -/

/-- `KOGMO_RTDB_PROC_MAX`. -/
@[irreducible] def procMax : Nat := 100

/-- What is read of a `struct kogmo_rtdb_ipc_process_t`; a free slot is all zeroes. -/
structure ProcSlot where
  procOid : ObjId := 0
  pid : Int := 0
  /-- `KOGMO_RTDB_CONNECT_FLAGS_IMMEDIATELYDELETE` -/
  immediatelyDelete : Bool := false
  deriving DecidableEq

/-- The part of `struct kogmo_rtdb_ipc_shm_t` below `proc_lock`. -/
structure ProcTable where
  proc : Nat → ProcSlot
  procFree : Int
  procOidNext : Nat

namespace ProcTable

def initial : ProcTable where
  proc _ := {}
  procFree := procMax
  procOidNext := 2

/-- `proc_oid_next`, as an `int32_t`. -/
def nextOid (table : ProcTable) : ObjId := wrap32 table.procOidNext

def freeSlot (table : ProcTable) : Option Nat :=
  (List.range procMax).find? fun i => decide ((table.proc i).procOid = 0)

/-- `kogmo_rtdb_ipc_connect` for a client: its process oid and the table. Without a
free slot the client gives up. -/
def connect (table : ProcTable) (pid : Int) (immediatelyDelete : Bool) :
    Option (ObjId × ProcTable) :=
  table.freeSlot.map fun i =>
    (table.nextOid,
      { proc := Function.update table.proc i
          { procOid := table.nextOid, pid := pid, immediatelyDelete := immediatelyDelete }
        procFree := table.procFree - 1
        procOidNext := (table.procOidNext + 1) % 2 ^ 64 })

/-- The slot is zeroed, and `proc_free++`. -/
def clear (table : ProcTable) (i : Nat) : ProcTable :=
  { table with proc := Function.update table.proc i {}, procFree := table.procFree + 1 }

def clearAll (procOid : ObjId) : List Nat → ProcTable → ProcTable
  | [], table => table
  | i :: is, table =>
      clearAll procOid is (if (table.proc i).procOid = procOid then table.clear i else table)

/-- `kogmo_rtdb_ipc_disconnect` for a client. -/
def disconnect (table : ProcTable) (procOid : ObjId) : ProcTable :=
  if procOid = 0 then table else clearAll procOid (List.range procMax) table

end ProcTable

def freeSlots (proc : Nat → ProcSlot) : Nat :=
  (List.range procMax).countP fun i => (proc i).procOid = 0

/-! ## The system -/

/-- A process's own copy of its entry, as long as it is connected; `alive` until the
process ends. -/
structure Conn where
  procOid : ObjId
  pid : Int
  alive : Bool
  deriving DecidableEq

/-- Where the manager is in `purge_procs`: the slot `i`, and the local variables. -/
inductive MgrPc where
  | idle
  | test (i : Nat)
  | load (i : Nat)
  | kill (i : Nat) (pid : Int)
  | flags (i : Nat)
  | reread (i : Nat) (immediatelyDelete : Bool)
  | search (i : Nat) (immediatelyDelete : Bool) (procOid : ObjId)
  | read (i : Nat) (immediatelyDelete : Bool) (objlist : List ObjId)
  | delete (i : Nat) (immediatelyDelete : Bool) (usedObjmeta : ObjInfo) (objlist : List ObjId)
  | clear (i : Nat)

/-- A delete by the cleanup: the table before and after it, and whose processes were
connected and alive. -/
structure Deletion where
  before : Nat → ObjInfo
  after : Nat → ObjInfo
  live : List ObjId

/-- A slot cleared by the cleanup, and whose processes were connected and alive. -/
structure Clearing where
  slot : ProcSlot
  live : List ObjId
  deriving DecidableEq

/-- The shared memory, the processes of the system, and what the cleanup has done so
far. -/
structure CleanupState where
  world : World
  table : ProcTable
  pids : List Int
  conns : List Conn
  mgr : MgrPc
  deletions : List Deletion
  clearings : List Clearing

def managerOid : ObjId := 1

def manager : Handle where
  procOid := managerOid
  admin := true

/-- The oids of the connected processes that are alive. -/
def CleanupState.live (s : CleanupState) : List ObjId :=
  managerOid :: (s.conns.filter (·.alive)).map (·.procOid)

/-- `kill(pid, 0)` finds a process; 0 stands for the caller's own group. -/
def CleanupState.exists_ (s : CleanupState) (pid : Int) : Prop := pid = 0 ∨ pid ∈ s.pids

instance (s : CleanupState) (pid : Int) : Decidable (s.exists_ pid) := by
  unfold CleanupState.exists_
  infer_instance

def Conn.exit (pid : Int) (c : Conn) : Conn := if c.pid = pid then { c with alive := false } else c

def Op.handle : Op → Option Handle
  | .insert h _ | .deleteImm h _ _ _ | .changeinfo h _ _ | .writedata h _ _ => some h
  | .purgeObjs => none

/-- What can happen next. `manager` is the manager's next step in `purge_procs`, with
the fuel for a delete; `call` is any call on the database, by any process that is
connected. -/
inductive CleanupStep where
  | start (pid : Int)
  | exit (pid : Int)
  | connect (pid : Int) (immediatelyDelete : Bool)
  | disconnect (c : Conn)
  | call (op : Op)
  | purgeProcs
  | manager (fuel : Nat)

/-- The steps of `kogmo_rtdb_objmeta_purge_procs`. -/
def managerStep (env : Env) (s : CleanupState) (fuel : Nat) : Option CleanupState :=
  match s.mgr with
  | .idle => none
  | .test i =>
      if i < procMax then
        some { s with mgr := if (s.table.proc i).procOid ≠ 0 then .load i else .test (i + 1) }
      else some { s with mgr := .idle }
  | .load i => some { s with mgr := .kill i (s.table.proc i).pid }
  | .kill i pid => some { s with mgr := if s.exists_ pid then .test (i + 1) else .flags i }
  | .flags i => some { s with mgr := .reread i (s.table.proc i).immediatelyDelete }
  | .reread i immediatelyDelete =>
      some { s with mgr := .search i immediatelyDelete (s.table.proc i).procOid }
  | .search i immediatelyDelete procOid =>
      (searchinfoDeleted env.atomic (some []) 0 0 procOid 0 (some env.uninit) 0 s.world).map
        fun ((err, objlist), w) =>
          { s with
            world := w
            mgr := match err with
              | .error _ => .clear i
              | .ok _ => .read i immediatelyDelete (objlist.getD env.uninit).entries }
  | .read i _ [] => some { s with mgr := .clear i }
  | .read i immediatelyDelete (oid :: objlist) =>
      (readinfo env.atomic oid 0 {} s.world).map fun ((err, usedObjmeta), w) =>
        { s with
          world := w
          mgr :=
            if err.isOk ∧ usedObjmeta.flags.persistent then .read i immediatelyDelete objlist
            else .delete i immediatelyDelete { usedObjmeta with oid := oid } objlist }
  | .delete i immediatelyDelete usedObjmeta objlist =>
      (deleteImm env.atomic KogmoRtdb.manager fuel usedObjmeta immediatelyDelete s.world).map
        fun (_, w) =>
          { s with
            world := w
            mgr := .read i immediatelyDelete objlist
            deletions := ⟨s.world.db.objmeta, w.db.objmeta, s.live⟩ :: s.deletions }
  | .clear i =>
      some { s with
        table := s.table.clear i
        mgr := .test (i + 1)
        clearings := ⟨s.table.proc i, s.live⟩ :: s.clearings }

variable [Rounding]

def CleanupState.next (env : Env) (s : CleanupState) : CleanupStep → Option CleanupState
  | .start pid => if 0 < pid ∧ pid ∉ s.pids then some { s with pids := pid :: s.pids } else none
  | .exit pid =>
      if pid ∈ s.pids then
        some { s with pids := s.pids.filter (· ≠ pid), conns := s.conns.map (·.exit pid) }
      else none
  | .connect pid immediatelyDelete =>
      if pid ∈ s.pids then
        (s.table.connect pid immediatelyDelete).map fun (oid, table) =>
          { s with table := table, conns := ⟨oid, pid, true⟩ :: s.conns }
      else none
  | .disconnect c =>
      if c ∈ s.conns ∧ c.alive then
        some { s with table := s.table.disconnect c.procOid, conns := s.conns.erase c }
      else none
  | .call op =>
      if op.handle.all fun h => decide (h.procOid ∈ s.live) then
        (op.run env.atomic s.world).map fun (_, w) => { s with world := w }
      else none
  | .purgeProcs =>
      match s.mgr with
      | .idle => some { s with mgr := .test 0 }
      | _ => none
  | .manager fuel => managerStep env s fuel

/-- A database and its processes, from the manager's initialisation on. -/
def cleanupLts (env : Env) (heapSize : Int) : Lts CleanupState CleanupStep where
  init s := s =
    { world := World.initial env.atomic heapSize, table := .initial, pids := [], conns := [],
      mgr := .idle, deletions := [], clearings := [] }
  step := CleanupState.next env

end KogmoRtdb
