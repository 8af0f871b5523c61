import KogmoRtdb.DataPath.HistSearch
import KogmoRtdb.Meta.Ownership

/-!
# Nothing outlives its object

A record that a read returns was committed to the very object that is read.
For a block fresh from `kogmo_rtdb_obj_mem_alloc` the zeroes in it see to that; for a
block that a slot hands on to the next object nothing does: `history_slot` is -1
then, but `histscan` tests the address of its cursor instead of the cursor, and
slot -1 is the last slot of the ring, where a full ring of the old object left
a valid stamp.

`RingOk` is what a ring satisfies: the slots up to `history_slot` hold records
committed to the object, and either all others do too or the last slot of the ring has
no stamp, which is where every backward scan must come past.
-/

namespace KogmoRtdb

variable {heap heap' : Heap} {info info' : ObjInfo} {oid : ObjId} {log log' : List ApiEvent}
  {n : Nat}

/-! ## Rings of an object's own records -/

/-- `c` was committed to `oid`. -/
def CommittedTo (log : List ApiEvent) (oid : ObjId) (c : Commit) : Prop :=
  ∃ proc data stamp, .committed oid proc data stamp ∈ log ∧ IsCommitOf c proc data stamp

/-- History slot `k` holds a record committed to the object. -/
def SlotOwn (heap : Heap) (info : ObjInfo) (log : List ApiEvent) (k : Nat) : Prop :=
  ∃ c, CommittedTo log info.oid c ∧ (c.size : Int) ≤ info.sizeMax ∧
    HoldsRecord (slotWindow heap info k) c

/-- `histscan` finds no stamp in history slot `k`. -/
def Stampless (heap : Heap) (info : ObjInfo) (k : Int) : Prop :=
  (slotWindow heap info k).read32 4 = hiWord invalidTs

instance {k : Int} : Decidable (Stampless heap info k) := by
  unfold Stampless
  infer_instance

/-- The ring of an object with `n` history slots. -/
inductive RingOk (heap : Heap) (info : ObjInfo) (log : List ApiEvent) (n : Nat) : Prop where
  | unwritten (hslot : info.historySlot = -1) (hlast : Stampless heap info (n - 1 : Nat))
  | written {h : Nat} (hslot : info.historySlot = h) (hlt : h < n)
      (hown : ∀ k ≤ h, SlotOwn heap info log k)
      (hrest : (∀ k < n, SlotOwn heap info log k) ∨ Stampless heap info (n - 1 : Nat))

def SlotOk (heap : Heap) (info : ObjInfo) (log : List ApiEvent) : Prop :=
  ∃ n, Block info n ∧ RingOk heap info log n

/-- The two slots are the same as far as their rings go. -/
structure SameRing (info info' : ObjInfo) : Prop where
  oid : info'.oid = info.oid
  sizeMax : info'.sizeMax = info.sizeMax
  historySize : info'.historySize = info.historySize
  historySlot : info'.historySlot = info.historySlot
  bufferIdx : info'.bufferIdx = info.bufferIdx

theorem SameRing.refl (info : ObjInfo) : SameRing info info := ⟨rfl, rfl, rfl, rfl, rfl⟩

theorem SameRing.slotAddr (h : SameRing info info') (k : Int) :
    info'.slotAddr k = info.slotAddr k := by
  rw [ObjInfo.slotAddr, ObjInfo.slotAddr, h.bufferIdx, h.sizeMax]

theorem SameRing.block (h : SameRing info info') (hb : Block info n) : Block info' n where
  historySize := h.historySize.trans hb.historySize
  pos := hb.pos
  sizeMin := by rw [h.sizeMax]; exact hb.sizeMin
  idx := by rw [h.bufferIdx]; exact hb.idx
  bound := by rw [h.bufferIdx, h.sizeMax]; exact hb.bound

/-- The block is as long as what `kogmo_rtdb_obj_mem_alloc` was asked for. -/
theorem Block.blockSize_eq (hb : Block info n) : info.blockSize = n * info.sizeMax := by
  have h24 := hb.sizeMin
  have hidx := hb.idx
  have hbound := hb.bound
  have h0 : 0 ≤ (n : Int) * info.sizeMax := Int.mul_nonneg (by omega) (by omega)
  rw [ObjInfo.blockSize, hb.historySize, Int.mul_comm, wrap32_of_bounds (by omega) (by omega)]

theorem Block.slot_inside (hb : Block info n) {k : Nat} (hk : k < n) {b : Nat}
    (hbyte : (b : Int) < info.sizeMax) :
    info.bufferIdx ≤ info.slotAddr k + b ∧
      info.slotAddr k + b < info.bufferIdx + info.blockSize := by
  have h24 := hb.sizeMin
  rw [hb.slotAddr_eq hk, hb.blockSize_eq]
  have h0 : 0 ≤ (k : Int) * info.sizeMax := Int.mul_nonneg (by omega) (by omega)
  have hle : ((k + 1 : Nat) : Int) * info.sizeMax ≤ n * info.sizeMax :=
    Int.mul_le_mul_of_nonneg_right (by omega) (by omega)
  rw [Int.natCast_succ, Int.add_mul] at hle
  omega

def AgreeOn (info : ObjInfo) (heap heap' : Heap) : Prop :=
  ∀ a, info.bufferIdx ≤ a → a < info.bufferIdx + info.blockSize → heap' a = heap a

section Transport

variable (hs : SameRing info info') (hheap : AgreeOn info heap heap') (hb : Block info n)

include hs hheap hb

theorem window_agree {k b : Nat} (hk : k < n) (hbyte : (b : Int) < info.sizeMax) :
    slotWindow heap' info' k b = slotWindow heap info k b := by
  obtain ⟨h1, h2⟩ := hb.slot_inside hk hbyte
  rw [slotWindow, slotWindow, hs.slotAddr]
  exact hheap _ h1 h2

theorem SlotOwn.transport {k : Nat} (hlog : ∀ e ∈ log, e ∈ log') (hk : k < n)
    (hown : SlotOwn heap info log k) : SlotOwn heap' info' log' k := by
  obtain ⟨c, ⟨proc, data, stamp, hmem, hc⟩, hsize, hheld⟩ := hown
  refine ⟨c, ⟨proc, data, stamp, ?_, hc⟩, ?_, fun b hbs => ?_⟩
  · rw [hs.oid]
    exact hlog _ hmem
  · rw [hs.sizeMax]
    exact hsize
  · rw [window_agree hs hheap hb hk (by omega)]
    exact hheld b hbs

theorem Stampless.transport {k : Nat} (hk : k < n) (hno : Stampless heap info k) :
    Stampless heap' info' k := by
  unfold Stampless at hno ⊢
  rw [← hno]
  have h24 := hb.sizeMin
  exact Mem.read32_congr fun b _ h2 => window_agree hs hheap hb hk (by omega)

theorem RingOk.transport (hlog : ∀ e ∈ log, e ∈ log') (hr : RingOk heap info log n) :
    RingOk heap' info' log' n := by
  have hpos := hb.pos
  cases hr with
  | unwritten hslot hlast =>
      exact .unwritten (hs.historySlot.trans hslot) (hlast.transport hs hheap hb (by omega))
  | written hslot hlt hown hrest =>
      refine .written (hs.historySlot.trans hslot) hlt
        (fun k hk => (hown k hk).transport hs hheap hb hlog (by omega)) ?_
      exact hrest.imp (fun hall k hk => (hall k hk).transport hs hheap hb hlog hk)
        fun hlast => hlast.transport hs hheap hb (by omega)

end Transport

theorem SlotOk.transport (hs : SameRing info info') (hheap : AgreeOn info heap heap')
    (hlog : ∀ e ∈ log, e ∈ log') (hok : SlotOk heap info log) : SlotOk heap' info' log' := by
  obtain ⟨n, hb, hr⟩ := hok
  exact ⟨n, hs.block hb, hr.transport hs hheap hb hlog⟩

/-! ## Writes -/

/-- A record committed to the object in its next slot keeps the ring. -/
theorem RingOk.store {db : Db} {i : Nat} {c : Commit} {src : Mem}
    (hb : Block (db.objmeta i) n) (hr : RingOk db.heap (db.objmeta i) log n)
    (hbytes : c.bytes = (defaultDataTs src c.stamp).write64 0 c.stamp)
    (hsrc : (src.read32 20).toInt = c.size) (hsize : (c.size : Int) ≤ (db.objmeta i).sizeMax)
    (hlog : ∀ e ∈ log, e ∈ log') (hc : CommittedTo log' (db.objmeta i).oid c) :
    ∃ k : Nat, k < n ∧
      nextSlot (db.objmeta i).historySize (db.objmeta i).historySlot = k ∧
      RingOk (storeRecord db i k src c.size c.stamp).heap
        ((storeRecord db i k src c.size c.stamp).objmeta i) log' n := by
  have hpos := hb.pos
  have hinfo (k : Nat) : (storeRecord db i k src c.size c.stamp).objmeta i =
      { db.objmeta i with historySlot := (k : Nat) } := Db.setMeta_objmeta_self ..
  have hself (k : Nat) : SlotOwn (storeRecord db i k src c.size c.stamp).heap
      ((storeRecord db i k src c.size c.stamp).objmeta i) log' k := by
    rw [hinfo]
    exact ⟨c, hc, hsize, holdsRecord_storeRecord hbytes hsrc⟩
  have hother {j k : Nat} (hj : j < n) (hk : k < n) (hne : j ≠ k) {b : Nat}
      (hbyte : (b : Int) < (db.objmeta i).sizeMax) :
      slotWindow (storeRecord db i k src c.size c.stamp).heap
        ((storeRecord db i k src c.size c.stamp).objmeta i) j b =
      slotWindow db.heap (db.objmeta i) j b := by
    rw [hinfo]
    exact window_storeRecord_ne hb hsize hj hk hne hbyte
  have hkeep {j k : Nat} (hj : j < n) (hk : k < n)
      (hown : j ≠ k → SlotOwn db.heap (db.objmeta i) log j) :
      SlotOwn (storeRecord db i k src c.size c.stamp).heap
        ((storeRecord db i k src c.size c.stamp).objmeta i) log' j := by
    by_cases hne : j = k
    · subst hne
      exact hself j
    · obtain ⟨d, ⟨proc, data, stamp, hmem, hd⟩, hdsize, hheld⟩ := hown hne
      refine ⟨d, ⟨proc, data, stamp, ?_, hd⟩, ?_, fun b hbs => ?_⟩
      · rw [hinfo]
        exact hlog _ hmem
      · rw [hinfo]
        exact hdsize
      · rw [hother hj hk hne (by omega)]
        exact hheld b hbs
  have hlastKeep {k : Nat} (hk : k < n) (hne : n - 1 ≠ k)
      (hno : Stampless db.heap (db.objmeta i) (n - 1 : Nat)) :
      Stampless (storeRecord db i k src c.size c.stamp).heap
        ((storeRecord db i k src c.size c.stamp).objmeta i) (n - 1 : Nat) := by
    unfold Stampless at hno ⊢
    rw [← hno]
    have h24 := hb.sizeMin
    exact Mem.read32_congr fun b _ h2 => hother (by omega) hk hne (by omega)
  have hslot (k : Nat) : ((storeRecord db i k src c.size c.stamp).objmeta i).historySlot = k := by
    rw [hinfo]
  cases hr with
  | unwritten hold hlast =>
      refine ⟨0, hpos, by rw [hold]; rfl, .written (hslot 0) hpos ?_ ?_⟩
      · intro j hj
        exact hkeep (by omega) hpos fun hne => absurd hj (by omega)
      · by_cases h1 : n = 1
        · exact Or.inl fun j hj => hkeep hj hpos fun hne => absurd hj (by omega)
        · exact Or.inr (hlastKeep hpos (by omega) hlast)
  | @written h hold hlt hown hrest =>
      have hnext : nextSlot (db.objmeta i).historySize (db.objmeta i).historySlot =
          ((h + 1) % n : Nat) := by
        rw [nextSlot, hold, if_neg (by omega), hb.historySize, ← Ring.tmod_succ,
          Nat.mod_eq_of_lt hlt]
      refine ⟨(h + 1) % n, Nat.mod_lt _ hpos, hnext,
        .written (hslot _) (Nat.mod_lt _ hpos) ?_ ?_⟩
      · intro j hj
        by_cases hend : h + 1 = n
        · rw [hend, Nat.mod_self] at hj ⊢
          exact hkeep (by omega) hpos fun hne => absurd hj (by omega)
        · rw [Nat.mod_eq_of_lt (by omega)] at hj ⊢
          exact hkeep (by omega) (by omega) fun hne => hown j (by omega)
      · by_cases hend : h + 1 = n
        · exact Or.inl fun j hj => hkeep hj (Nat.mod_lt _ hpos) fun _ => hown j (by omega)
        · rw [Nat.mod_eq_of_lt (show h + 1 < n by omega)]
          by_cases hlastSlot : n - 1 = h + 1
          · exact Or.inl fun j hj => hkeep hj (by omega) fun hne => hown j (by omega)
          · exact hrest.imp (fun hall j hj => hkeep hj (by omega) fun _ => hall j hj)
              (hlastKeep (by omega) hlastSlot)

/-! ## Reads -/

theorem histPos_pred {k : Nat} (hk : k < n) :
    histPos n ((k : Int) - 1) = ((if k = 0 then n - 1 else k - 1 : Nat) : Int) := by
  by_cases h0 : k = 0
  · subst h0
    rw [if_pos rfl, histPos]
    exact Ring.tmod_pred_zero hk
  · rw [if_neg h0, histPos, show (k : Int) - 1 = ((k - 1 : Nat) : Int) by omega]
    exact Ring.tmod_self_add (by omega)

section Reads

variable (hb : Block info n)

include hb

def ScanSlot (heap : Heap) (info : ObjInfo) (log : List ApiEvent) (n : Nat) (slot : Int) :
    Prop :=
  ∃ k : Nat, slot = k ∧ k < n ∧ (∀ j ≤ k, SlotOwn heap info log j) ∧
    ((∀ j < n, SlotOwn heap info log j) ∨ Stampless heap info (n - 1 : Nat))

/-- A step back from such a slot comes to one, or ends the scan at the last slot of the
ring. -/
theorem scanSlot_back {currslot firstslot currslot' firstslot' : Int}
    (hcurr : ScanSlot heap info log n currslot)
    (hscan : histscan heap info (-1) currslot firstslot = some (currslot', firstslot')) :
    ScanSlot heap info log n currslot' := by
  obtain ⟨k, rfl, hk, hown, hrest⟩ := hcurr
  rw [histscan_back hb, histPos_pred hk] at hscan
  by_cases h0 : k = 0
  · rw [if_pos h0] at hscan
    rcases hrest with hall | hlast
    · split at hscan
      · cases hscan
      · split at hscan
        · cases hscan
        · cases hscan
          exact ⟨n - 1, rfl, by omega, fun j hj => hall j (by omega), Or.inl hall⟩
    · split at hscan
      · cases hscan
      · unfold Stampless at hlast
        rw [if_pos hlast] at hscan
        cases hscan
  · rw [if_neg h0] at hscan
    split at hscan
    · cases hscan
    · split at hscan
      · cases hscan
      · cases hscan
        exact ⟨k - 1, rfl, by omega, fun j hj => hown j (by omega), hrest⟩

/-- What a time search selects lies in a slot with a record of the object. -/
theorem scanLoop_own {mode : Mode} {ts : Timestamp} :
    ∀ {fuel : Nat} {currslot firstslot : Int} {kept : Option Probe} {p : Probe},
      ScanSlot heap info log n currslot →
      (∀ q, kept = some q → ∃ k : Nat, q.slot = k ∧ k < n ∧ SlotOwn heap info log k) →
      scanLoop heap info mode ts fuel currslot firstslot kept = some (.ok p) →
      ∃ k : Nat, p.slot = k ∧ k < n ∧ SlotOwn heap info log k
  | 0, _, _, _, _, _, _, hrun => by cases hrun
  | fuel + 1, currslot, firstslot, kept, p, hcurr, hkept, hrun => by
      have hhere : ∃ k : Nat, (probeAt heap info mode currslot).slot = k ∧ k < n ∧
          SlotOwn heap info log k := by
        obtain ⟨k, hslot, hk, hown, -⟩ := hcurr
        exact ⟨k, hslot, hk, hown k (Nat.le_refl k)⟩
      rw [scanLoop] at hrun
      cases hv : mode.verdict ts kept (probeAt heap info mode currslot) with
      | notFound =>
          rw [hv] at hrun
          cases hrun
      | take q =>
          rw [hv] at hrun
          cases hrun
          rcases Mode.verdict_take hv with rfl | hq
          · exact hhere
          · exact hkept p hq
      | back kept' =>
          have hkept' : ∀ q, kept' = some q →
              ∃ k : Nat, q.slot = k ∧ k < n ∧ SlotOwn heap info log k := by
            intro q hq
            rw [Mode.verdict_back hv q hq]
            exact hhere
          rw [hv] at hrun
          dsimp only at hrun
          cases hscan : histscan heap info (-1) currslot firstslot with
          | none =>
              rw [hscan] at hrun
              cases kept' with
              | none => cases hrun
              | some q =>
                  cases hrun
                  exact hkept' p rfl
          | some next =>
              rw [hscan] at hrun
              exact scanLoop_own (scanSlot_back hb hcurr hscan) hkept' hrun

theorem histscan_zero (currslot firstslot : Int) :
    histscan heap info 0 currslot firstslot =
      if Stampless heap info (histPos n info.historySlot) then none
      else some (histPos n info.historySlot, info.historySlot) := by
  have hpos := hb.pos
  have hne : info.historySize ≠ 0 := by
    rw [hb.historySize]
    omega
  rw [histscan, if_neg hne]
  simp [hb.historySize, Stampless]

theorem histscan_unwritten (hslot : info.historySlot = -1)
    (hlast : Stampless heap info (n - 1 : Nat)) (currslot firstslot : Int) :
    histscan heap info 0 currslot firstslot = none := by
  have hpos := hb.pos
  have hlastPos : histPos n (-1) = (n - 1 : Nat) := by
    rw [histPos, ← Ring.tmod_pred_zero hpos, Int.zero_sub]
  rw [histscan_zero hb, hslot, hlastPos, if_pos hlast]

theorem scanSlot_zero (hr : RingOk heap info log n) {currslot firstslot a b : Int}
    (hscan : histscan heap info 0 a b = some (currslot, firstslot)) :
    ScanSlot heap info log n currslot := by
  cases hr with
  | unwritten hslot hlast =>
      rw [histscan_unwritten hb hslot hlast] at hscan
      cases hscan
  | @written h hslot hlt hown hrest =>
      rw [histscan_zero hb, hslot, histPos, Ring.tmod_self_add hlt] at hscan
      split at hscan
      · cases hscan
      · cases hscan
        exact ⟨h, rfl, hlt, hown, hrest⟩

end Reads

/-- What a read has selected when it comes to the copy. -/
theorem select_own {db : Db} {h : Handle} {mode : Mode} {ts : Timestamp} {fuel : Nat}
    {p : Probe} {i : Nat} (hfound : db.findmetaById oid = some i)
    (hok : (db.objmeta i).bufferIdx ≠ 0 → SlotOk db.heap (db.objmeta i) log)
    (hsel : select db h mode oid ts fuel = some (.ok (info, p))) :
    info = db.objmeta i ∧ ∃ k : Nat, p.slot = k ∧ SlotOwn db.heap (db.objmeta i) log k := by
  unfold select at hsel
  rw [hfound] at hsel
  dsimp only at hsel
  split at hsel
  · cases hsel
  · rename_i hidx
    obtain ⟨n, hb, hr⟩ := hok hidx
    split at hsel
    · cases hsel
    · cases hscan : histscan db.heap (db.objmeta i) 0 0 0 with
      | none =>
          rw [hscan] at hsel
          cases hsel
      | some slots =>
          rw [hscan] at hsel
          dsimp only at hsel
          split at hsel
          · cases hsel
          · obtain ⟨res, hres, hmap⟩ := Option.map_eq_some_iff.mp hsel
            cases res with
            | error e => cases hmap
            | ok q =>
                cases hmap
                obtain ⟨k, hslot, -, hown⟩ := scanLoop_own hb (scanSlot_zero hb hr hscan)
                  (fun _ hq => by cases hq) hres
                exact ⟨rfl, k, hslot, hown⟩

/-- A copying read that returns a size has copied the record it selected. -/
theorem copyOut_ok [Rounding] {p : Probe} {size : Int} {buf : Mem} {now : Timestamp} {m : Int}
    {c : Commit} (hheld : HoldsRecord (slotWindow heap info p.slot) c)
    (hret : (copyOut heap info p size buf now).ret = .ok m) :
    m = c.size ∧ ∀ b : Nat, (b : Int) < min (c.size : Int) size → ¬ (20 ≤ b ∧ b < 24) →
      (copyOut heap info p size buf now).buf b = c.bytes b := by
  have hmin : (if (c.size : Int) ≤ size then (c.size : Int) else size) =
      min (c.size : Int) size := by
    rw [Int.min_def]
  simp only [copyOut, hheld.read32_size, hheld.read64_stamp] at hret ⊢
  split at hret
  · cases hret
  · rename_i hts
    split at hret
    · cases hret
    · rename_i hold
      cases hret
      rw [if_neg hts, if_neg hold]
      refine ⟨rfl, fun b hlt hns => ?_⟩
      rw [hmin]
      dsimp only
      by_cases h8 : b < 8
      · -- the stamp bytes are the record's own
        refine Mem.byte_eq_of_read64_eq ?_ (Nat.zero_le b) (by omega)
        rw [Mem.read64_write64, c.stamp_eq]
      · rw [Mem.write64_outside (by omega), Mem.write32_outside (by omega),
          Mem.copy_inside (by omega) (by omega)]
        simpa using hheld b (by omega)

end KogmoRtdb
