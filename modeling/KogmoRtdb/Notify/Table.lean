import KogmoRtdb.Meta.Delete
import KogmoRtdb.Meta.Insert
import KogmoRtdb.Notify.Shared

/-!
# The calls that change the table

`kogmo_rtdb_obj_insert`, `kogmo_rtdb_obj_delete_imm` and `kogmo_rtdb_objmeta_purge_objs`,
step by step: each lock taken or released, each broadcast, each look at the table and each
store into it is a step.

What a look or a store does is what the modules under `Meta` say; here it is only
spread over time. As there, the loop of the insert that is meant to purge and retry is
left after its first round, and an insert that finds no slot then returns with the lock
held.
-/

namespace KogmoRtdb

/-! ## `kogmo_rtdb_obj_insert` -/

/-- A call past its checks: its clock reading, the completed metadata,
`new_allocated_heap_idx` and `found_slot`. -/
structure InsertCall where
  h : Handle
  ts : Timestamp
  metadata : ObjInfo
  newIdx : Int
  found : Option Nat

inductive InsertPc where
  | lock
  | reuse
  | unlock
  | alloc
  | relock
  | findFree
  | unique
  | unlockClash
  | freeClash
  | enter (i : Nat)
  | takeOid (i : Nat)
  | freeNoOid
  | setOid (i : Nat) (oid : ObjId)
  | broadcast (oid : ObjId)
  | release (ret : Int)
  | done (ret : Int)
  deriving DecidableEq, Repr

def InsertCall.step [Rounding] (c : InsertCall) (env : Env) (p : Pid) (s : Shared) :
    InsertPc → Option (Shared × InsertCall × InsertPc)
  | .lock => (s.lockObjmeta p).map fun s => (s, c, .reuse)
  | .reuse =>
      match findReusable s.db c.h c.metadata c.ts with
      | some i =>
          some (s,
            { c with
              metadata := { c.metadata with bufferIdx := (s.db.objmeta i).bufferIdx }
              found := some i },
            .unique)
      | none => some (s, c, if c.metadata.sizeMax ≠ 0 then .unlock else .findFree)
  | .unlock => some (s.unlockObjmeta p, c, .alloc)
  | .alloc =>
      let size := c.metadata.blockSize
      if size ≤ 0 then some (s, { c with newIdx := -1 }, .relock)
      else
        match env.alloc s.heapLog size with
        | none => some (s, { c with newIdx := -1 }, .relock)
        | some idx =>
            some (s.allocated idx size,
              { c with
                newIdx := idx
                metadata := if idx < 0 then c.metadata else { c.metadata with bufferIdx := idx } },
              .relock)
  | .relock =>
      (s.lockObjmeta p).map fun s => (s, c, if c.newIdx < 0 then .unique else .findFree)
  | .findFree =>
      match s.db.findmetaById 0 with
      | some i => some (s.setDb (s.db.addFree (-1)), { c with found := some i }, .unique)
      | none => some (s, c, .unique)
  | .unique =>
      if s.db.notUniq c.metadata then some (s, c, .unlockClash)
      else
        match c.found with
        | none => some (s, c, .done (-Err.outOfObj.code))
        | some i => some (s, c, .enter i)
  | .unlockClash => some (s.unlockObjmeta p, c, .freeClash)
  | .freeClash =>
      some (if c.newIdx ≠ 0 then s.freed c.newIdx c.metadata.blockSize else s, c,
        .done (-Err.notUniq.code))
  | .enter i => some (s.setDb (s.db.setMeta i c.metadata), c, .takeOid i)
  | .takeOid i =>
      let oid := s.db.nextOid
      some (s.setDb { s.db with objmetaOidNext := (s.db.objmetaOidNext + 1) % 2 ^ 64 }, c,
        if oid ≤ 0 then .freeNoOid else .setOid i oid)
  | .freeNoOid =>
      some (if c.metadata.bufferIdx ≠ 0 then s.freed c.metadata.bufferIdx c.metadata.blockSize
        else s, c, .release (-Err.outOfObj.code))
  | .setOid i oid =>
      let info := s.db.objmeta i
      let parentOid := if c.metadata.parentOid = 0 ∧ 1 < oid then 1 else info.parentOid
      some (s.setDb (s.db.setMeta i { info with parentOid := parentOid, oid := oid }), c,
        .broadcast oid)
  | .broadcast oid => some (s.broadcastObjmeta, c, .release oid)
  | .release ret => some (s.unlockObjmeta p, c, .done ret)
  | .done _ => none

/-! ## `kogmo_rtdb_obj_delete_imm` -/

/-- A delete, and the children of the deleted objects that are still to be looked at; `child`
tells whether it is one of them that is deleted now. -/
structure DeleteCall where
  h : Handle
  oid : ObjId
  immediatelyDelete : Bool
  rest : List ObjId
  child : Bool

inductive DeletePc where
  | lock
  | find
  | checks (i : Nat)
  | children (i : Nat)
  | mark (i : Nat)
  | freeBlock (i : Nat)
  | clearOid (i : Nat)
  | broadcastMeta (i : Nat)
  | unlockMeta (i : Nat)
  | prepare (i : Nat)
  | broadcast (i : Nat)
  | unlock (i : Nat)
  | next
  | readLock (oid : ObjId)
  | read (oid : ObjId)
  | readUnlock (oid : ObjId) (parentDelete : Bool)
  | release (ret : Int)
  | done (ret : Int)
  deriving DecidableEq, Repr

def childObjlist (env : Env) (db : Db) (oid : ObjId) : List ObjId :=
  match searchDb env db (some []) 0 oid 0 0 (some env.uninit.clear) 0 with
  | (.error _, _) => []
  | (.ok _, childObjlist) => (childObjlist.getD env.uninit.clear).entries

/-- `kogmo_rtdb_obj_mem_free` of an object's block, if it has one. -/
def Shared.freeBlock (s : Shared) (i : Nat) : Shared :=
  if (s.db.objmeta i).bufferIdx ≠ 0 then
    s.freed (s.db.objmeta i).bufferIdx (s.db.objmeta i).blockSize
  else s

def Shared.clearOid (s : Shared) (i : Nat) : Shared :=
  s.setDb ((s.db.setMeta i { s.db.objmeta i with oid := 0 }).addFree 1)

/-- The call, up to the deletion of its children, which are deleted in turn. -/
def DeleteCall.step (c : DeleteCall) (env : Env) (p : Pid) (s : Shared) (now : Timestamp) :
    DeletePc → Option (Shared × DeleteCall × DeletePc)
  | .lock => (s.lockObjmeta p).map fun s => (s, c, .find)
  | .find =>
      match s.db.findmetaById c.oid with
      | none => some (s, c, .release (-Err.notFound.code))
      | some i => some (s, c, .checks i)
  | .checks i =>
      let used := s.db.objmeta i
      if used.writeDenied c.h then some (s, c, .release (-Err.noPerm.code))
      else if used.deletedTs ≠ 0 ∧ !used.flags.immediatelyDelete ∧ !c.immediatelyDelete then
        some (s, c, .release (-Err.notFound.code))
      else some (s, c, .children i)
  | .children i => some (s, { c with rest := childObjlist env s.db c.oid ++ c.rest }, .mark i)
  | .mark i =>
      let used := { s.db.objmeta i with deletedProc := c.h.procOid, deletedTs := now }
      some ({ s.setDb (s.db.setMeta i used) with deleted := used.oid :: s.deleted }, c,
        if used.flags.immediatelyDelete || c.immediatelyDelete then .freeBlock i
        else .broadcastMeta i)
  | .freeBlock i => some (s.freeBlock i, c, .clearOid i)
  | .clearOid i => some (s.clearOid i, c, .broadcastMeta i)
  | .broadcastMeta i => some (s.broadcastObjmeta, c, .unlockMeta i)
  | .unlockMeta i => some (s.unlockObjmeta p, c, .prepare i)
  | .prepare i => (s.lockNotify p i).map fun s => (s, c, .broadcast i)
  | .broadcast i => some (s.broadcastNotify i, c, .unlock i)
  | .unlock i => some (s.unlockNotify p i, c, .next)
  | .next =>
      match c.rest with
      | [] => some (s, c, .done 0)
      | oid :: rest => some (s, { c with rest := rest }, .readLock oid)
  -- `kogmo_rtdb_obj_readinfo` of the child
  | .readLock oid => (s.lockObjmeta p).map fun s => (s, c, .read oid)
  | .read oid =>
      match s.db.findmetaById oid with
      | none => some (s, c, .readUnlock oid false)
      | some i =>
          some (s, c, .readUnlock oid
            (!(s.db.objmeta i).hidden 0 && (s.db.objmeta i).flags.parentDelete))
  | .readUnlock oid parentDelete =>
      some (s.unlockObjmeta p,
        if parentDelete then { c with oid := oid, immediatelyDelete := false, child := true }
        else c,
        if parentDelete then .lock else .next)
  -- the answer of a child's delete is ignored
  | .release ret => some (s.unlockObjmeta p, c, if c.child then .next else .done ret)
  | .done _ => none

/-! ## `kogmo_rtdb_objmeta_purge_objs` -/

structure PurgeCall where
  keepAlloc : Bool
  ts : Timestamp

inductive PurgePc where
  | lock (i : Nat)
  | test (i : Nat)
  | freeBlock (i : Nat)
  | clearOid (i : Nat)
  | broadcast (i : Nat)
  | unlock (i : Nat)
  | release
  | done
  deriving DecidableEq, Repr

def PurgeCall.step [Rounding] (c : PurgeCall) (p : Pid) (s : Shared) : PurgePc → Option
    (Shared × PurgePc)
  | .lock i => (s.lockObjmeta p).map fun s => (s, .test i)
  | .test i =>
      if i < objMax then
        some (s, if s.db.purgeDue (s.db.objmeta i) c.keepAlloc c.ts then .freeBlock i
          else .test (i + 1))
      else some (s, .release)
  | .freeBlock i => some (s.freeBlock i, .clearOid i)
  | .clearOid i => some (s.clearOid i, .broadcast i)
  | .broadcast i => some (s.broadcastObjmeta, .unlock i)
  | .unlock i => some (s.unlockObjmeta p, .lock (i + 1))
  | .release => some (s.unlockObjmeta p, .done)
  | .done => none

end KogmoRtdb
