import KogmoRtdb.Meta.Purge
import KogmoRtdb.Meta.Searchinfo
import KogmoRtdb.DataPath.Objdata

/-!
# Deleting objects

`kogmo_rtdb_obj_delete_imm`. The objects that depend on the deleted one are
deleted by recursive calls; the depth of the recursion is the fuel.
-/

namespace KogmoRtdb

/-- The children that the critical section of a delete finds. -/
def findChildren (env : Env) (oid : ObjId) : Call (List ObjId) := do
  let (err, childObjlist) ← searchinfoNolock env (some []) 0 oid 0 0 (some env.uninit.clear) 0
  match err with
  | .error _ => return []
  | .ok _ => return (childObjlist.getD env.uninit.clear).entries

/-- `kogmo_rtdb_obj_delete_imm` up to the release of the lock: the answer, the
caller's copy and the children. -/
def deleteLocked (env : Env) (h : Handle) (metadata : ObjInfo) (immediatelyDelete : Bool) :
    Call (Result × ObjInfo × List ObjId) := do
  objmetaLock env
  let db ← readDb
  match db.findmetaById metadata.oid with
  | none =>
      objmetaUnlock
      return (.error .notFound, metadata, [])
  | some i =>
      let used := db.objmeta i
      if used.writeDenied h then
        objmetaUnlock
        return (.error .noPerm, metadata, [])
      else if used.deletedTs ≠ 0 ∧ !used.flags.immediatelyDelete ∧ !immediatelyDelete then
        objmetaUnlock
        return (.error .notFound, metadata, [])
      else
        let children ← findChildren env metadata.oid
        let deletedTs ← timestampNow env
        let used := { used with deletedProc := h.procOid, deletedTs := deletedTs }
        writeDb fun db => db.setMeta i used
        Prog.when (used.flags.immediatelyDelete || immediatelyDelete) (purgeslot i)
        objmetaUnlockNotify
        return (.ok 0, used, children)

/-- The treatment of one child; `del` is the recursive call. -/
def deleteChild (env : Env) (del : ObjInfo → Call (Result × ObjInfo)) (oid : ObjId) :
    Call PUnit := do
  let (err, childObjmeta) ← readinfo env oid 0 {}
  match err with
  | .error _ => return ⟨⟩
  | .ok _ =>
      if childObjmeta.flags.parentDelete then
        let _ ← del childObjmeta
        return ⟨⟩
      else return ⟨⟩

/-- `kogmo_rtdb_obj_delete_imm`. -/
def deleteImm (env : Env) (h : Handle) :
    Nat → ObjInfo → Bool → Call (Result × ObjInfo)
  | 0, _, _ => Prog.diverge
  | fuel + 1, metadata, immediatelyDelete => do
      let (ret, metadata, children) ← deleteLocked env h metadata immediatelyDelete
      match ret with
      | .error e => return (.error e, metadata)
      | .ok _ =>
          children.forM (deleteChild env fun child => deleteImm env h fuel child false)
          return (.ok 0, metadata)

/-- `kogmo_rtdb_obj_delete`. -/
def delete (env : Env) (h : Handle) (fuel : Nat) (metadata : ObjInfo) :
    Call (Result × ObjInfo) :=
  deleteImm env h fuel metadata false

end KogmoRtdb
