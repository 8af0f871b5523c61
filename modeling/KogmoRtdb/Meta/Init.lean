import KogmoRtdb.Meta.World

/-!
# The initial database

What `kogmo_rtdb_obj_local_init` leaves: an empty table, a cleared heap, and the block
of two bytes that keeps index 0 out of later allocations. `exampleEnv` is an
environment to run calls in.
-/

namespace KogmoRtdb

/-- `KOGMO_RTDB_KEEP_DELETED_INTERVAL`. -/
def keepDeletedInterval : ℚ := 1 / 4

def Db.initial (heapSize : Int) : Db where
  objmeta _ := {}
  objmetaFree := objMax
  objmetaOidNext := 1
  heap _ := 0
  heapSize := heapSize
  heapFree := heapSize
  heapUsed := 0
  defaultKeepDeletedInterval := keepDeletedInterval
  noNotifies := false
  simmode := false

/-- The world of a process that does not hold the lock, on the initial database. -/
def World.initial (env : Env) (heapSize : Int) : World :=
  World.afterAlloc env 2
    { db := Db.initial heapSize, held := false, unguarded := false, heapLog := [], tick := 0 }

theorem initial_objmetaOidNext (env : Env) (heapSize : Int) :
    (World.initial env heapSize).db.objmetaOidNext = 1 := by
  unfold World.initial World.afterAlloc
  rw [if_neg (by decide)]
  split <;> rfl

theorem initial_oid (env : Env) (heapSize : Int) (i : Nat) :
    ((World.initial env heapSize).db.objmeta i).oid = 0 := by
  unfold World.initial World.afterAlloc
  rw [if_neg (by decide)]
  split <;> rfl

def heapTop : List HeapEvent → Int
  | [] => 0
  | .alloc b :: es => max (b.idx + b.size) (heapTop es)
  | .free _ :: es => heapTop es

/-- The allocator of the build that includes none: it never reuses a block. -/
def bumpAlloc (heapSize : Int) (es : List HeapEvent) (size : Int) : Option Int :=
  if heapTop es + size ≤ heapSize then some (heapTop es) else none

theorem heapTop_nonneg (es : List HeapEvent) : 0 ≤ heapTop es := by
  induction es with
  | nil => exact Int.le_refl 0
  | cons e es ih =>
      cases e with
      | alloc b =>
          rw [heapTop]
          omega
      | free b => exact ih

theorem le_heapTop {es : List HeapEvent} {b : HeapBlock} (hb : b ∈ liveBlocks es) :
    b.idx + b.size ≤ heapTop es := by
  induction es with
  | nil => cases hb
  | cons e es ih =>
      cases e with
      | alloc c =>
          rw [heapTop]
          rcases List.mem_cons.mp hb with rfl | hb
          · omega
          · have := ih hb
            omega
      | free c => exact ih (List.mem_of_mem_erase hb)

theorem bumpAlloc_sound (heapSize : Int) : AllocSound heapSize (bumpAlloc heapSize) := by
  intro es size idx _ _ hsome
  unfold bumpAlloc at hsome
  split at hsome
  · cases hsome
    exact ⟨heapTop_nonneg es, ‹_›, fun b hb => Or.inl (le_heapTop hb)⟩
  · cases hsome

/-- An undisturbed call, the clock advancing by one second at every reading. -/
def exampleEnv (heapSize : Int) : Env where
  now tick := BitVec.ofNat 64 ((tick + 10) * 1000000000)
  others _ db := db
  timedOut _ := true
  alloc := bumpAlloc heapSize
  adjustHistory interval _ := interval
  nameRemap := id
  directOid _ := 0
  directType _ := none
  regcomp _ := none
  uninit _ := 0

def aProcess : Handle where
  procOid := 7
  admin := false

/-- Metadata for an object with 32 bytes of data and two history slots. -/
def anObject : ObjInfo where
  name := ['a']
  otype := 1
  sizeMax := 32
  historyInterval := 1
  minCycletime := 1
  maxCycletime := 1
  flags := { keepAlloc := true }

/-- An object of the same name that does not fit into a page. -/
def aBigObject : ObjInfo := { anObject with sizeMax := 4096 }

end KogmoRtdb
