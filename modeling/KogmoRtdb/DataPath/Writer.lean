import KogmoRtdb.DataPath.HistSearch
import KogmoRtdb.DataPath.ObjdataPtr

/-!
# The two ways to write

A commit, by `kogmo_rtdb_obj_writedata` or through a pointer, stores one record in the next
slot of its object's ring and makes that slot the latest (`Stores`). What comes before a
commit through a pointer is confined to the next slot, which is without a stamp meanwhile
(`Prepares`). Readers that keep a place in the ring need to know no more.
-/

namespace KogmoRtdb

/-- The slot that the next commit to the object uses. -/
def ObjInfo.next (info : ObjInfo) : Int := nextSlot info.historySize info.historySlot

/-- What a writer does. Between `ptr_begin` and `ptr_commit` it fills the slot in place. -/
inductive WriterOp where
  | writedata (data : Mem) (committedTs : Timestamp)
  | ptrBegin
  | fill (data : Mem) (size : Nat)
  | ptrCommit (dataPtr : Int) (committedTs : Timestamp)

/-- The bytes behind the stamp of the record at `addr` are set. -/
def fillPtr (db : Db) (addr : Int) (data : Mem) (size : Nat) : Db :=
  { db with heap := db.heap.put (addr + 8) data size }

/-- The database that it leaves behind, and whether it has committed. A slot is filled
only while it has no stamp. -/
def WriterOp.run [Rounding] (h : Handle) (oid : ObjId) (db : Db) : WriterOp → Option (Db × Bool)
  | .writedata data committedTs =>
      let out := KogmoRtdb.writedata db h oid data committedTs
      some (out.db, out.ret.isOk)
  | .ptrBegin => some ((writedataPtrBegin db h oid 0).db, false)
  | .fill data size =>
      match db.findmetaById oid with
      | none => none
      | some i =>
          let info := db.objmeta i
          if info.bufferIdx ≠ 0 ∧ slotTs db.heap info info.next = invalidTs ∧
              (8 + size : Int) ≤ info.sizeMax then
            some (fillPtr db (info.slotAddr info.next) data size, false)
          else none
  | .ptrCommit dataPtr committedTs =>
      let out := writedataPtrCommit db h oid dataPtr committedTs
      some (out.db, out.ret.isOk)

def WriterOp.stamp (db : Db) (i : Nat) : WriterOp → Timestamp
  | .writedata _ committedTs =>
      let info := db.objmeta i
      forge db.simmode committedTs (slotTs db.heap info info.next)
  | .ptrCommit _ committedTs => committedTs
  | _ => invalidTs

variable {db db' : Db} {i n : Nat} {h : Handle} {oid : ObjId} {op : WriterOp} {committed : Bool}
  {info : ObjInfo}

/-! ## What is stored where -/

/-- Outside the next slot of object `i` the heap is the same. -/
def SameElsewhere (db : Db) (i : Nat) (db' : Db) : Prop :=
  let info := db.objmeta i
  ∀ b, b < info.slotAddr info.next ∨ info.slotAddr info.next + info.sizeMax ≤ b →
    db'.heap b = db.heap b

/-- The next slot of object `i`, if it has room for a header, has been written to, and has
no stamp. -/
structure Prepares (db : Db) (i : Nat) (db' : Db) : Prop where
  objmeta : db'.objmeta = db.objmeta
  simmode : db'.simmode = db.simmode
  elsewhere : 24 ≤ (db.objmeta i).sizeMax → SameElsewhere db i db'
  ts : slotTs db'.heap (db.objmeta i) (db.objmeta i).next = invalidTs

/-- A record with stamp `ts` has been stored in the next slot of object `i`, which has
become its latest. -/
structure Stores (db : Db) (i : Nat) (ts : Timestamp) (db' : Db) : Prop where
  objmeta : db'.objmeta =
    Function.update db.objmeta i { db.objmeta i with historySlot := (db.objmeta i).next }
  simmode : db'.simmode = db.simmode
  elsewhere : SameElsewhere db i db'
  ts : slotTs db'.heap (db.objmeta i) (db.objmeta i).next = ts
  sizeMin : 24 ≤ slotSize db'.heap (db.objmeta i) (db.objmeta i).next
  sizeMax : slotSize db'.heap (db.objmeta i) (db.objmeta i).next ≤ (db.objmeta i).sizeMax

/-- The stamp of a commit is the clock reading, forged where it has to differ from the
stamp that is overwritten. -/
theorem writedata_stamp [Rounding] {data : Mem} {committedTs : Timestamp}
    (hfound : db.findmetaById oid = some i)
    (hok : (writedata db h oid data committedTs).ret = .ok 0) :
    (writedata db h oid data committedTs).data.read64 0 =
      (WriterOp.writedata data committedTs).stamp db i := by
  unfold writedata at hok ⊢
  rw [hfound] at hok ⊢
  dsimp only at hok ⊢
  split at hok
  · cases hok
  rename_i hidx
  rw [if_neg hidx]
  split at hok
  · cases hok
  rename_i hmax
  rw [if_neg hmax]
  split at hok
  · cases hok
  rename_i hmin
  rw [if_neg hmin]
  split at hok
  · cases hok
  rename_i hdenied
  rw [if_neg hdenied]
  split at hok
  · cases hok
  rename_i hfast
  rw [if_neg hfast]
  exact Mem.read64_write64 ..

theorem writedata_stores [Rounding] {data : Mem} {committedTs : Timestamp} {out : WriteOut}
    (hout : out = writedata db h oid data committedTs) : (out.ret.isOk = false ∧ out.db = db) ∨
      ∃ i, db.findmetaById oid = some i ∧ (db.objmeta i).bufferIdx ≠ 0 ∧ out.ret.isOk = true ∧
        Stores db i ((WriterOp.writedata data committedTs).stamp db i) out.db := by
  rcases writedata_cases hout with ⟨e, herr, hdb⟩ | ⟨i, hi, hidx, hmin, hmax, hok, hdb⟩
  · exact Or.inl ⟨by rw [herr]; rfl, hdb⟩
  refine Or.inr ⟨i, hi, hidx, by rw [hok]; rfl, ?_⟩
  have hstamp : out.data.read64 0 = (WriterOp.writedata data committedTs).stamp db i := by
    rw [hout] at hok ⊢
    exact writedata_stamp hi hok
  have hnext : nextSlot (db.objmeta i).historySize (db.objmeta i).historySlot =
      (db.objmeta i).next := rfl
  rw [hstamp, hnext] at hdb
  have h24 : 24 ≤ (data.read32 20).toInt.toNat := by omega
  have hwindow : slotWindow (storeRecord db i _ _ _ _).heap (db.objmeta i) (db.objmeta i).next =
      fillSlot _ (commitSource (BitVec.ofInt 32 h.procOid) data) _
        ((WriterOp.writedata data committedTs).stamp db i) := window_storeRecord h24
  have hsrc : ((commitSource (BitVec.ofInt 32 h.procOid) data).read32 20).toInt =
      ((data.read32 20).toInt.toNat : Int) := by
    rw [commitSource_size]
    omega
  have hsize : slotSize out.db.heap (db.objmeta i) (db.objmeta i).next =
      (data.read32 20).toInt := by
    have hread : (slotWindow out.db.heap (db.objmeta i) (db.objmeta i).next).read32 20 =
        (Commit.of _ _ ((WriterOp.writedata data committedTs).stamp db i) h24 hsrc).bytes.read32
          20 := by
      rw [hdb]
      refine Mem.read32_congr fun b _ hb => ?_
      exact (congrFun hwindow b).trans (fillSlot_inside h24 hsrc (by omega))
    rw [slotSize, hread, Commit.size_eq]
    exact Int.toNat_of_nonneg (by omega)
  refine ⟨by rw [hdb]; rfl, by rw [hdb]; rfl, fun b hb => ?_, ?_, by omega, by omega⟩
  · rw [hdb]
    exact Heap.put_outside (by omega)
  · rw [slotTs, hdb]
    exact (congrArg (Mem.read64 · 0) hwindow).trans (Mem.read64_write64 ..)

theorem invalidate_prepares (db : Db) (i : Nat) :
    Prepares db i (invalidate db ((db.objmeta i).slotAddr (db.objmeta i).next)) := by
  refine ⟨rfl, rfl, fun h24 b hb => Heap.put_outside (by omega), ?_⟩
  have hwindow : slotWindow (invalidate db ((db.objmeta i).slotAddr (db.objmeta i).next)).heap
      (db.objmeta i) (db.objmeta i).next =
      (slotWindow db.heap (db.objmeta i) (db.objmeta i).next).write64 0 invalidTs :=
    Heap.window_put_self fun k hk => Mem.write64_outside (Or.inr hk)
  exact (congrArg (Mem.read64 · 0) hwindow).trans (Mem.read64_write64 ..)

theorem ptrBegin_prepares {dataPtr : Int} {out : PtrOut}
    (hout : out = writedataPtrBegin db h oid dataPtr) :
    out.db = db ∨ ∃ i, db.findmetaById oid = some i ∧ (db.objmeta i).bufferIdx ≠ 0 ∧
      Prepares db i out.db := by
  unfold writedataPtrBegin at hout
  split at hout
  · exact Or.inl (by rw [hout])
  rename_i i hi
  dsimp only at hout
  split at hout
  · exact Or.inl (by rw [hout])
  split at hout
  · exact Or.inl (by rw [hout])
  rename_i hidx _
  refine Or.inr ⟨i, hi, hidx, ?_⟩
  rw [hout]
  exact invalidate_prepares db i

theorem fillPtr_prepares {data : Mem} {size : Nat}
    (hts : slotTs db.heap (db.objmeta i) (db.objmeta i).next = invalidTs)
    (hsize : (8 + size : Int) ≤ (db.objmeta i).sizeMax) :
    Prepares db i (fillPtr db ((db.objmeta i).slotAddr (db.objmeta i).next) data size) := by
  refine ⟨rfl, rfl, fun _ b hb => Heap.put_outside (by omega), ?_⟩
  rw [← hts]
  exact Mem.read64_congr fun b _ hb => Heap.window_put_of_disjoint (Or.inl (by omega))

/-- The header that a commit through a pointer completes. -/
theorem window_validate {slot : Int} {proc : BitVec 32} {committedTs : Timestamp} :
    slotWindow (validate db i slot ((db.objmeta i).slotAddr slot) proc committedTs).heap
        (db.objmeta i) slot =
      (defaultDataTs ((slotWindow db.heap (db.objmeta i) slot).write32 8 proc)
        committedTs).write64 0 committedTs := by
  refine Heap.window_put_self fun k hk => ?_
  rw [Mem.write64_outside (Or.inr (by omega)), defaultDataTs_outside (Or.inr (by omega)),
    Mem.write32_outside (Or.inr (by omega))]

theorem ptrCommit_stores [Rounding] {dataPtr : Int} {committedTs : Timestamp} {out : PtrOut}
    (hout : out = writedataPtrCommit db h oid dataPtr committedTs) :
    (out.ret.isOk = false ∧ out.db = db) ∨
      ∃ i, db.findmetaById oid = some i ∧ (db.objmeta i).bufferIdx ≠ 0 ∧ out.ret.isOk = true ∧
        Stores db i committedTs out.db := by
  unfold writedataPtrCommit at hout
  dsimp only at hout
  split at hout
  · exact Or.inl (by rw [hout]; exact ⟨rfl, rfl⟩)
  rename_i i hi
  split at hout
  · exact Or.inl (by rw [hout]; exact ⟨rfl, rfl⟩)
  split at hout
  · exact Or.inl (by rw [hout]; exact ⟨rfl, rfl⟩)
  split at hout
  · exact Or.inl (by rw [hout]; exact ⟨rfl, rfl⟩)
  split at hout
  · exact Or.inl (by rw [hout]; exact ⟨rfl, rfl⟩)
  split at hout
  · exact Or.inl (by rw [hout]; exact ⟨rfl, rfl⟩)
  split at hout
  · exact Or.inl (by rw [hout]; exact ⟨rfl, rfl⟩)
  rename_i hidx hmax hmin _ _ hptr
  refine Or.inr ⟨i, hi, hidx, by rw [hout]; rfl, ?_⟩
  have hptr : dataPtr = (db.objmeta i).slotAddr (db.objmeta i).next := not_not.mp hptr
  have hdb : out.db = validate db i (db.objmeta i).next
      ((db.objmeta i).slotAddr (db.objmeta i).next) (BitVec.ofInt 32 h.procOid) committedTs := by
    rw [hout]
    rfl
  have hwindow : slotWindow out.db.heap (db.objmeta i) (db.objmeta i).next = _ :=
    (congrArg (fun d : Db => slotWindow d.heap (db.objmeta i) (db.objmeta i).next) hdb).trans
      window_validate
  have hsize : slotSize out.db.heap (db.objmeta i) (db.objmeta i).next =
      ((db.heap.window dataPtr).read32 20).toInt := by
    rw [slotSize, hwindow, hptr]
    congr 1
    refine Mem.read32_congr fun b hb _ => ?_
    rw [Mem.write64_outside (Or.inr (by omega)), defaultDataTs_outside (Or.inr hb),
      Mem.write32_outside (Or.inr (by omega))]
    rfl
  refine ⟨by rw [hdb]; rfl, by rw [hdb]; rfl, fun b hb => ?_, ?_, by omega, by omega⟩
  · rw [hdb]
    exact Heap.put_outside (by omega)
  · rw [slotTs, hwindow]
    exact Mem.read64_write64 ..

theorem WriterOp.run_cases [Rounding] (hrun : op.run h oid db = some (db', committed)) :
    (committed = false ∧ db' = db) ∨
      ∃ i, db.findmetaById oid = some i ∧ (db.objmeta i).bufferIdx ≠ 0 ∧
        (committed = false ∧ Prepares db i db' ∨
          committed = true ∧ Stores db i (op.stamp db i) db') := by
  unfold WriterOp.run at hrun
  cases op with
  | writedata data committedTs =>
      obtain ⟨rfl, rfl⟩ := Prod.mk.inj (Option.some.inj hrun)
      rcases writedata_stores rfl with ⟨hret, hdb⟩ | ⟨i, hi, hidx, hret, hs⟩
      · exact Or.inl ⟨hret, hdb⟩
      · exact Or.inr ⟨i, hi, hidx, Or.inr ⟨hret, hs⟩⟩
  | ptrBegin =>
      obtain ⟨rfl, rfl⟩ := Prod.mk.inj (Option.some.inj hrun)
      rcases ptrBegin_prepares rfl with hdb | ⟨i, hi, hidx, hp⟩
      · exact Or.inl ⟨rfl, hdb⟩
      · exact Or.inr ⟨i, hi, hidx, Or.inl ⟨rfl, hp⟩⟩
  | fill data size =>
      dsimp only at hrun
      split at hrun
      · cases hrun
      rename_i i hi
      split at hrun
      · rename_i hcond
        obtain ⟨hidx, hts, hsize⟩ := hcond
        obtain ⟨rfl, rfl⟩ := Prod.mk.inj (Option.some.inj hrun)
        exact Or.inr ⟨i, hi, hidx, Or.inl ⟨rfl, fillPtr_prepares hts hsize⟩⟩
      · cases hrun
  | ptrCommit dataPtr committedTs =>
      obtain ⟨rfl, rfl⟩ := Prod.mk.inj (Option.some.inj hrun)
      rcases ptrCommit_stores rfl with ⟨hret, hdb⟩ | ⟨i, hi, hidx, hret, hs⟩
      · exact Or.inl ⟨hret, hdb⟩
      · exact Or.inr ⟨i, hi, hidx, Or.inr ⟨hret, hs⟩⟩

/-! ## What stays -/

theorem SameElsewhere.window {info' : ObjInfo} {slot : Int} (hs : SameElsewhere db i db')
    (hapart : info'.slotAddr slot + info'.sizeMax ≤
        (db.objmeta i).slotAddr (db.objmeta i).next ∨
      (db.objmeta i).slotAddr (db.objmeta i).next + (db.objmeta i).sizeMax ≤ info'.slotAddr slot)
    {b : Nat} (hb : (b : Int) < info'.sizeMax) :
    slotWindow db'.heap info' slot b = slotWindow db.heap info' slot b := by
  refine hs _ ?_
  rcases hapart with hle | hle
  · exact Or.inl (by omega)
  · exact Or.inr (by omega)

def InRing (info : ObjInfo) (slot : Int) : Prop := 0 ≤ slot ∧ slot < info.historySize

theorem Block.next_inRing (hb : Block info n) : InRing info info.next := by
  have hn := hb.pos
  have hsize := hb.historySize
  unfold ObjInfo.next nextSlot InRing
  split
  · omega
  · exact ⟨Int.tmod_nonneg _ (by omega), by
      rw [hsize]
      exact Int.tmod_lt_of_pos _ (by omega)⟩

theorem SameElsewhere.window_of_ne {slot : Int} (hs : SameElsewhere db i db')
    (hb : Block (db.objmeta i) n) (hslot : InRing (db.objmeta i) slot)
    (hne : slot ≠ (db.objmeta i).next) {b : Nat} (hlt : (b : Int) < (db.objmeta i).sizeMax) :
    slotWindow db'.heap (db.objmeta i) slot b = slotWindow db.heap (db.objmeta i) slot b := by
  obtain ⟨h0, hk⟩ := hslot
  obtain ⟨h0', hk'⟩ := hb.next_inRing
  rw [hb.historySize] at hk hk'
  obtain ⟨j, rfl⟩ := Int.eq_ofNat_of_zero_le h0
  obtain ⟨k, hnext⟩ := Int.eq_ofNat_of_zero_le h0'
  refine hs.window ?_ hlt
  rw [hnext]
  rw [hnext] at hk' hne
  exact hb.slotAddr_disjoint (by omega) (by omega) (by omega)

theorem slotTs_congr {heap heap' : Heap} {slot : Int} (h24 : 24 ≤ info.sizeMax)
    (hsame : ∀ b : Nat, (b : Int) < info.sizeMax →
      slotWindow heap' info slot b = slotWindow heap info slot b) :
    slotTs heap' info slot = slotTs heap info slot :=
  Mem.read64_congr fun b _ hb => hsame b (by omega)

theorem copy_eq_of_take {dst src src' : Mem} {n : Nat} (hsame : ∀ b < n, src' b = src b) :
    dst.copy 0 src' 0 n = dst.copy 0 src 0 n := by
  funext b
  by_cases hb : b < n
  · rw [Mem.copy_inside (by omega) (by omega), Mem.copy_inside (by omega) (by omega)]
    exact hsame _ (by omega)
  · rw [Mem.copy_outside (by omega), Mem.copy_outside (by omega)]

/-- What is copied out is the same where the record is. -/
theorem copyOut_congr [Rounding] {heap heap' : Heap} {p : Probe}
    (hsame : ∀ b : Nat, b < 24 ∨ (b : Int) < slotSize heap info p.slot →
      slotWindow heap' info p.slot b = slotWindow heap info p.slot b)
    (size : Int) (buf : Mem) (now : Timestamp) :
    copyOut heap' info p size buf now = copyOut heap info p size buf now := by
  have hcopy (n : Nat) (hn : (n : Int) ≤ slotSize heap info p.slot ∨ n = 0) :
      buf.copy 0 (slotWindow heap' info p.slot) 0 n =
        buf.copy 0 (slotWindow heap info p.slot) 0 n :=
    copy_eq_of_take fun b hb => hsame b (Or.inr (by omega))
  have hsize : (slotWindow heap' info p.slot).read32 20 = (slotWindow heap info p.slot).read32 20 :=
    Mem.read32_congr fun b _ hb => hsame b (Or.inl (by omega))
  have hts : (slotWindow heap' info p.slot).read64 0 = (slotWindow heap info p.slot).read64 0 :=
    Mem.read64_congr fun b _ hb => hsame b (Or.inl (by omega))
  unfold copyOut
  dsimp only
  rw [hsize, hts, hcopy]
  unfold slotSize
  split <;> omega

/-! ## The record in a slot as a commit -/

/-- The commit that the record in a slot stands for, if its header states a size. -/
def slotCommit (heap : Heap) (info : ObjInfo) (slot : Int) : Option Commit :=
  if hsize : 24 ≤ slotSize heap info slot then
    some
      { stamp := slotTs heap info slot
        size := (slotSize heap info slot).toNat
        bytes := slotWindow heap info slot
        size_min := by omega
        size_eq := (Int.toNat_of_nonneg (a := slotSize heap info slot) (by omega)).symm
        stamp_eq := rfl }
  else none

theorem slotCommit_some {heap : Heap} {slot : Int} {c : Commit}
    (hc : slotCommit heap info slot = some c) :
    c.stamp = slotTs heap info slot ∧ (c.size : Int) = slotSize heap info slot ∧
      c.bytes = slotWindow heap info slot := by
  unfold slotCommit at hc
  split at hc
  · cases hc
    exact ⟨rfl, Int.toNat_of_nonneg (by omega), rfl⟩
  · cases hc

theorem Stores.exists_slotCommit {ts : Timestamp} (hs : Stores db i ts db') :
    ∃ c, slotCommit db'.heap (db.objmeta i) (db.objmeta i).next = some c :=
  ⟨_, dif_pos hs.sizeMin⟩

end KogmoRtdb
