import KogmoRtdb.Meta.OwnRing

/-!
# No stale data across object lifetimes

The runs of calls for which a read returns records of the object it reads only.
`Lived` is the invariant: every occupied slot with a block has a good ring
(`SlotOk`), and a slot whose object has not been written to since its insert has
`history_slot` -1.

Four things can break it, and `KeepsLives` excludes them. The first is the defect
proper, a slot reused with a stamp left where the scan of the new ring starts; the
others come in from elsewhere: a block smaller than the object's slots (the
product in `int32_t`), an oid given out twice, and a free slot written to or
deleted under the oid 0.
-/

namespace KogmoRtdb

variable {env : Env} {limit : Int} {w w' : World} {log log' : List ApiEvent}

/-! ## What is claimed -/

/-- Nothing was committed to the object since its last insert. -/
def Unwritten (oid : ObjId) : List ApiEvent → Prop
  | [] => False
  | .inserted oid' :: es => oid' = oid ∨ Unwritten oid es
  | .committed oid' _ _ _ :: es => oid' ≠ oid ∧ Unwritten oid es

instance decidableUnwritten (oid : ObjId) : DecidablePred (Unwritten oid)
  | [] => inferInstanceAs (Decidable False)
  | .inserted oid' :: es =>
      have := decidableUnwritten oid es
      inferInstanceAs (Decidable (oid' = oid ∨ Unwritten oid es))
  | .committed oid' _ _ _ :: es =>
      have := decidableUnwritten oid es
      inferInstanceAs (Decidable (oid' ≠ oid ∧ Unwritten oid es))

/-- No read returns a record of another object. `oid` is an oid an insert has
returned. -/
structure NoStaleData [Rounding] (s : RunState) : Prop where
  /-- a copying read with a size as its answer -/
  copied : ∀ h mode oid ts buf size now fuel out m, .inserted oid ∈ s.log →
    readdataMode s.world.db h mode oid ts buf size now fuel = some out → out.ret = .ok m →
    ∃ c, CommittedTo s.log oid c ∧ m = c.size ∧
      ∀ b : Nat, (b : Int) < min (c.size : Int) size → ¬ (20 ≤ b ∧ b < 24) →
        out.buf b = c.bytes b
  /-- a read that returns a pointer -/
  pointed : ∀ h mode oid ts fuel addr m, .inserted oid ∈ s.log →
    readdataModePtr s.world.db h mode oid ts fuel = some (.ok (addr, m)) →
    ∃ c, CommittedTo s.log oid c ∧ m = c.size ∧ HoldsRecord (s.world.db.heap.window addr) c
  /-- from the insert to the first write there is nothing to read, for those that
  may read the object at all -/
  nothing : ∀ h mode oid ts fuel, Unwritten oid s.log →
    (∀ i, s.world.db.findmetaById oid = some i →
      (s.world.db.objmeta i).readDenied h = false) →
    (∀ buf size now, readdataMode s.world.db h mode oid ts buf size now fuel =
      some { ret := .error .notFound, buf := buf }) ∧
    readdataModePtr s.world.db h mode oid ts fuel = some (.error .notFound)

/-! ## The invariant -/

/-- The occupied slots' rings, and what the log says of them. -/
structure Lived (objmeta : Nat → ObjInfo) (heap : Heap) (log : List ApiEvent) : Prop where
  bound : ∀ i, (objmeta i).oid ≠ 0 → i < objMax
  ring : ∀ i, (objmeta i).HasBlock → SlotOk heap (objmeta i) log
  unwritten : ∀ i, (objmeta i).HasBlock → Unwritten (objmeta i).oid log →
    (objmeta i).historySlot = -1
  inserted : ∀ oid, .inserted oid ∈ log → oid ≠ 0

def LivedWorld (w : World) (log : List ApiEvent) : Prop :=
  Lived w.db.objmeta w.db.heap log

theorem Unwritten.inserted {oid : ObjId} {log : List ApiEvent} (h : Unwritten oid log) :
    .inserted oid ∈ log := by
  induction log with
  | nil => exact h.elim
  | cons e es ih =>
      cases e with
      | inserted oid' =>
          rcases h with rfl | h
          · exact List.mem_cons_self
          · exact List.mem_cons_of_mem _ (ih h)
      | committed oid' proc data stamp => exact List.mem_cons_of_mem _ (ih h.2)

theorem LivedWorld.noStaleData [Rounding] {s : RunState} (hl : LivedWorld s.world s.log) :
    NoStaleData s := by
  have hring {oid : ObjId} {i : Nat} (hoid : oid ≠ 0)
      (hfound : s.world.db.findmetaById oid = some i)
      (hidx : (s.world.db.objmeta i).bufferIdx ≠ 0) :
      (s.world.db.objmeta i).HasBlock :=
    ⟨by rwa [(Db.findmetaById_some hfound).2], hidx⟩
  refine ⟨?_, ?_, ?_⟩
  · intro h mode oid ts buf size now fuel out m hins hrun hret
    obtain ⟨res, hsel, hout⟩ := Option.map_eq_some_iff.mp hrun
    cases res with
    | error e =>
        cases hout
        cases hret
    | ok p =>
        obtain ⟨info, p⟩ := p
        cases hfound : s.world.db.findmetaById oid with
        | none =>
            unfold select at hsel
            rw [hfound] at hsel
            cases hsel
        | some i =>
            obtain ⟨rfl, k, hk, c, hc, -, hheld⟩ := select_own hfound
              (fun hidx => hl.ring i (hring (hl.inserted _ hins) hfound hidx)) hsel
            cases hout
            rw [← hk] at hheld
            rw [(Db.findmetaById_some hfound).2] at hc
            exact ⟨c, hc, copyOut_ok hheld hret⟩
  · intro h mode oid ts fuel addr m hins hrun
    obtain ⟨res, hsel, hout⟩ := Option.map_eq_some_iff.mp hrun
    cases res with
    | error e => cases hout
    | ok p =>
        obtain ⟨info, p⟩ := p
        cases hfound : s.world.db.findmetaById oid with
        | none =>
            unfold select at hsel
            rw [hfound] at hsel
            cases hsel
        | some i =>
            obtain ⟨rfl, k, hk, c, hc, -, hheld⟩ := select_own hfound
              (fun hidx => hl.ring i (hring (hl.inserted _ hins) hfound hidx)) hsel
            cases hout
            rw [← hk] at hheld
            rw [(Db.findmetaById_some hfound).2] at hc
            exact ⟨c, hc, hheld.read32_size, hheld⟩
  · intro h mode oid ts fuel hun hallowed
    have hsel : select s.world.db h mode oid ts fuel = some (.error .notFound) := by
      unfold select
      cases hfound : s.world.db.findmetaById oid with
      | none => rfl
      | some i =>
          by_cases hidx : (s.world.db.objmeta i).bufferIdx = 0
          · exact if_pos hidx
          · have hb := hring (hl.inserted _ hun.inserted) hfound hidx
            have hslot : (s.world.db.objmeta i).historySlot = -1 := by
              refine hl.unwritten i hb ?_
              rwa [(Db.findmetaById_some hfound).2]
            obtain ⟨n, hblock, hr⟩ := hl.ring i hb
            have hscan : histscan s.world.db.heap (s.world.db.objmeta i) 0 0 0 = none := by
              cases hr with
              | unwritten _ hlast => exact histscan_unwritten hblock hslot hlast 0 0
              | written hold _ _ _ => omega
            simp only [if_neg hidx, hallowed i hfound, Bool.false_eq_true, if_false, hscan]
    refine ⟨fun buf size now => ?_, ?_⟩
    · rw [readdataMode, hsel]
      rfl
    · rw [readdataModePtr, hsel]
      rfl

/-! ## Purges, deletes and changes -/

/-- Slots may be given up, and what is not their rings' business may change. -/
theorem Lived.of_le {objmeta objmeta' : Nat → ObjInfo} {heap : Heap}
    (hl : Lived objmeta heap log)
    (hle : ∀ i, (objmeta' i).oid ≠ 0 → SameRing (objmeta i) (objmeta' i)) :
    Lived objmeta' heap log := by
  have hold : ∀ i, (objmeta' i).HasBlock → (objmeta i).HasBlock := fun i hi => by
    have hsame := hle i hi.1
    exact ⟨by rw [← hsame.oid]; exact hi.1, by rw [← hsame.bufferIdx]; exact hi.2⟩
  refine ⟨fun i hi => ?_, fun i hi => ?_, fun i hi hun => ?_, hl.inserted⟩
  · exact hl.bound i (by rw [← (hle i hi).oid]; exact hi)
  · exact (hl.ring i (hold i hi)).transport (hle i hi.1) (fun _ _ _ => rfl) fun _ he => he
  · rw [(hle i hi.1).historySlot]
    exact hl.unwritten i (hold i hi) (by rwa [← (hle i hi.1).oid])

theorem Lived.update {objmeta : Nat → ObjInfo} {heap : Heap} {i : Nat} {info : ObjInfo}
    (hl : Lived objmeta heap log) (hsame : info.oid ≠ 0 → SameRing (objmeta i) info) :
    Lived (Function.update objmeta i info) heap log := by
  refine hl.of_le fun j hj => ?_
  by_cases hji : j = i
  · subst hji
    rw [Function.update_self] at hj ⊢
    exact hsame hj
  · rw [Function.update_of_ne hji]
    exact .refl _

theorem livedWorld_effect (hl : LivedWorld w log) (he : Effect env w w') : LivedWorld w' log := by
  cases he with
  | idle hdb hlog =>
      unfold LivedWorld
      rwa [hdb]
  | mark hocc => exact hl.update fun _ => ⟨rfl, rfl, rfl, rfl, rfl⟩
  | purge hocc =>
      unfold LivedWorld
      rw [purged_objmeta, purged_heap]
      exact hl.update fun h => absurd rfl h
  | change => exact hl.update fun _ => ⟨rfl, rfl, rfl, rfl, rfl⟩

/-! ## Writes -/

/-- A store into one object's slot does not touch another object's block. -/
theorem agreeOn_put {info info' : ObjInfo} {n k size : Nat} {heap : Heap} {src : Mem}
    (hb : Block info n) (hk : k < n) (hpos : 0 < size) (hsize : (size : Int) ≤ info.sizeMax)
    (hapart : info'.heapBlock.Apart info.heapBlock) :
    AgreeOn info' heap (heap.put (info.slotAddr k) src size) := by
  intro a h1 h2
  have hfirst := (hb.slot_inside hk (b := 0) (by omega)).1
  have hlast := (hb.slot_inside hk (b := size - 1) (by omega)).2
  unfold HeapBlock.Apart at hapart
  simp only [ObjInfo.heapBlock] at hapart
  exact Heap.put_outside (by omega)

theorem livedWorld_write [Rounding] {h : Handle} {oid : ObjId} {data : Mem} {ts : Timestamp}
    {out : WriteOut} (ho : OwnedWorld limit w) (hl : LivedWorld w log) (hoid : oid ≠ 0)
    (hout : out = writedata w.db h oid data ts) :
    LivedWorld { w.ask with db := out.db }
      (writeEvents h oid data (out.data.read64 0) out.ret ++ log) := by
  unfold LivedWorld
  rcases writedata_commit hout with
    ⟨e, hret, hdb⟩ | ⟨i, c, hfound, hidx, hof, hsrc, hsize, hret, hdb⟩
  · rw [hdb, hret]
    exact hl
  · obtain ⟨-, hioid⟩ := Db.findmetaById_some hfound
    have hi : (w.db.objmeta i).HasBlock := ⟨by rwa [hioid], hidx⟩
    obtain ⟨n, hb, hr⟩ := hl.ring i hi
    rw [hret]
    obtain ⟨hstamp, hsizeEq, hbytes⟩ := hof
    rw [← hstamp] at hbytes ⊢
    have hmem : ∀ e ∈ log, e ∈ writeEvents h oid data c.stamp (.ok 0) ++ log :=
      fun e he => List.mem_append_right _ he
    have hc : CommittedTo (writeEvents h oid data c.stamp (.ok 0) ++ log) (w.db.objmeta i).oid c :=
      ⟨h.procOid, data, c.stamp, by rw [hioid]; exact List.mem_cons_self, rfl, hsizeEq, hbytes⟩
    generalize commitSource (BitVec.ofInt 32 h.procOid) data = src at hdb hsrc hbytes
    obtain ⟨k, hk, hnext, hring⟩ := hr.store (c := c) hb hbytes hsrc hsize hmem hc
    have hdb' : out.db = storeRecord w.db i k src c.size c.stamp := by rw [hdb, hnext]
    have hother {j : Nat} (hji : j ≠ i) : out.db.objmeta j = w.db.objmeta j := by
      rw [hdb']
      exact Db.setMeta_objmeta_ne hji
    have hself : out.db.objmeta i = { w.db.objmeta i with historySlot := k } := by
      rw [hdb']
      exact Db.setMeta_objmeta_self ..
    refine ⟨fun j hj => ?_, fun j hj => ?_, fun j hj hun => ?_, fun o ho' => ?_⟩
    · refine hl.bound j ?_
      rw [← storeRecord_oid w.db i k src c.size c.stamp j, ← hdb']
      exact hj
    · by_cases hji : j = i
      · subst hji
        rw [hdb']
        refine ⟨n, ?_, hring⟩
        rw [← hdb', hself]
        exact ⟨hb.historySize, hb.pos, hb.sizeMin, hb.idx, hb.bound⟩
      · change (out.db.objmeta j).HasBlock at hj
        show SlotOk out.db.heap (out.db.objmeta j) _
        rw [hother hji] at hj ⊢
        refine (hl.ring j hj).transport (.refl _) ?_ hmem
        rw [hdb']
        refine agreeOn_put hb hk (by have := c.size_min; omega) (by omega) ?_
        exact ho.live.apart_of_idx_ne (ho.mem j hj) (ho.mem i hi) (ho.excl j i hji hj hi)
    · change (out.db.objmeta j).HasBlock at hj
      change Unwritten (out.db.objmeta j).oid _ at hun
      by_cases hji : j = i
      · subst hji
        rw [hself, hioid] at hun
        exact absurd rfl hun.1
      · show (out.db.objmeta j).historySlot = -1
        rw [hother hji] at hj hun ⊢
        exact hl.unwritten j hj hun.2
    · rcases List.mem_cons.mp ho' with heq | ho'
      · cases heq
      · exact hl.inserted o ho'

/-! ## Inserts -/

section Insert

variable {h : Handle} {ts : Timestamp} {m m' : ObjInfo} {foundSlot : Option Nat} {newIdx : Int}
  {w₁ : World} {r : Result × ObjInfo}

/-- What is inserted has a header, or no data. The smallest `int32_t` is what the
largest one is rounded up to. -/
theorem sizeMax_initMetadata [Rounding] {metadata : ObjInfo} (href : metadata.refused = false)
    (hint : metadata.sizeMax < 2 ^ 31) : (initMetadata env h ts metadata).sizeMax = 0 ∨
      24 ≤ (initMetadata env h ts metadata).sizeMax ∨
      (initMetadata env h ts metadata).sizeMax = -2 ^ 31 := by
  have hsize : (initMetadata env h ts metadata).sizeMax =
      if metadata.sizeMax % 2 = 1 then wrap32 (metadata.sizeMax + 1) else metadata.sizeMax := rfl
  simp only [ObjInfo.refused, Bool.or_eq_false_iff, Bool.and_eq_false_iff,
    decide_eq_false_iff_not, not_not] at href
  rw [hsize]
  split
  · by_cases hmax : metadata.sizeMax + 1 < 2 ^ 31
    · rw [wrap32_of_bounds (by omega) hmax]
      omega
    · rw [show metadata.sizeMax + 1 = 2 ^ 31 by omega]
      exact Or.inr (Or.inr (by decide))
  · omega

/-- A block that was handed out for an object holds its history slots. -/
theorem exists_block (hsize : m.sizeMax = 0 ∨ 24 ≤ m.sizeMax ∨ m.sizeMax = -2 ^ 31)
    (hfits : m.Fits) (hpos : 0 < m.blockSize) (hidx : 0 < m.bufferIdx)
    (hend : m.bufferIdx + m.blockSize < 2 ^ 31) : ∃ n, Block m n := by
  have hhigh := hfits.2
  rw [hfits.blockSize_eq] at hpos hend
  rcases hsize with h0 | h24 | hmin
  · rw [h0, Int.zero_mul] at hpos
    exact absurd hpos (by decide)
  · have hhist : 0 < m.historySize := by
      by_contra hle
      have h0 : m.sizeMax * m.historySize ≤ 0 :=
        Int.mul_nonpos_of_nonneg_of_nonpos (by omega) (by omega)
      omega
    refine ⟨m.historySize.toNat, ⟨?_, ?_, h24, hidx, ?_⟩⟩
    · exact (Int.toNat_of_nonneg (by omega)).symm
    · omega
    · rw [Int.toNat_of_nonneg (by omega), Int.mul_comm]
      exact hend
  · rw [hmin] at hpos hhigh
    omega

/-- A fresh block is put into the heap apart from all blocks in use. -/
theorem Lived.alloc {objmeta : Nat → ObjInfo} {heap : Heap} {es : List HeapEvent}
    {idx size : Int} (hl : Lived objmeta heap log) (ho : Owned limit objmeta es)
    (hapart : ∀ b ∈ liveBlocks es, b.Apart ⟨idx, size⟩) (hpos : 0 < size) :
    Lived objmeta (heap.put idx Mem.zero size.toNat) log := by
  refine ⟨hl.bound, fun i hi => ?_, hl.unwritten, hl.inserted⟩
  refine (hl.ring i hi).transport (.refl _) ?_ fun _ he => he
  intro a h1 h2
  have hb := hapart _ (ho.mem i hi)
  unfold HeapBlock.Apart at hb
  simp only [ObjInfo.heapBlock] at hb
  exact Heap.put_outside (by omega)

theorem window_fresh {heap : Heap} {n k b : Nat} (hb : Block m n) (hk : k < n)
    (hbyte : (b : Int) < m.sizeMax) :
    slotWindow (heap.put m.bufferIdx Mem.zero m.blockSize.toNat) m k b = Mem.zero b := by
  obtain ⟨h1, h2⟩ := hb.slot_inside hk hbyte
  exact Heap.put_inside h1 (by omega)

theorem stampless_fresh {heap : Heap} {n : Nat} (hb : Block m n) :
    Stampless (heap.put m.bufferIdx Mem.zero m.blockSize.toNat) m (n - 1 : Nat) := by
  have h24 := hb.sizeMin
  have hpos := hb.pos
  have hzero : (slotWindow (heap.put m.bufferIdx Mem.zero m.blockSize.toNat) m
      (n - 1 : Nat)).read32 4 = Mem.zero.read32 4 :=
    Mem.read32_congr fun b _ h2 => window_fresh hb (by omega) (by omega)
  exact hzero.trans (Mem.read32_zero 4)

/-- What an insert has when it comes to the uniqueness check. -/
structure Ready (w : World) (foundSlot : Option Nat) (m : ObjInfo) (log : List ApiEvent) :
    Prop where
  lived : LivedWorld w log
  oid : m.oid = 0
  slot : ∀ i, foundSlot = some i → i < objMax
  historySlot : m.historySlot = -1
  ring : m.bufferIdx ≠ 0 →
    ∃ n, Block m n ∧ Stampless w.db.heap m (n - 1 : Nat)
  newOid : w.db.findmetaById w.db.nextOid = none

/-- No stamp is left in the block of the slot the insert will reuse where a scan of the
new object's ring starts. -/
def CleanReuse [Rounding] (h : Handle) (ts : Timestamp) (m : ObjInfo) (db : Db) : Prop :=
  ∀ i, findReusable db h m ts = some i → (db.objmeta i).bufferIdx ≠ 0 →
    Stampless db.heap { m with bufferIdx := (db.objmeta i).bufferIdx } (m.historySize - 1)

theorem exists_ring {idx size : Int} {P : Nat → Prop} (hlimit : limit < 2 ^ 31)
    (hsize : m.sizeMax = 0 ∨ 24 ≤ m.sizeMax ∨ m.sizeMax = -2 ^ 31) (hfits : m.Fits)
    (hblock : m.blockSize = size) (hpos : 0 < size) (h0 : 0 ≤ idx) (hend : idx + size ≤ limit)
    (hP : ∀ n, Block { m with bufferIdx := idx } n → P n) (hne : idx ≠ 0) :
    ∃ n, Block { m with bufferIdx := idx } n ∧ P n := by
  subst hblock
  have hidx : 0 < idx := by omega
  obtain ⟨n, hb⟩ := exists_block (m := { m with bufferIdx := idx }) hsize hfits hpos hidx
    (Int.lt_of_le_of_lt hend hlimit)
  exact ⟨n, hb, hP n hb⟩

theorem ready_of_slotSearch [Rounding] (ho : OwnedWorld limit w) (hl : LivedWorld w log)
    (hf : AllocSound limit env.alloc) (hlimit : limit < 2 ^ 31) (hoid : m.oid = 0)
    (hidx : m.bufferIdx = 0) (hslot : m.historySlot = -1)
    (hsize : m.sizeMax = 0 ∨ 24 ≤ m.sizeMax ∨ m.sizeMax = -2 ^ 31) (hfits : m.Fits)
    (hclean : CleanReuse h ts m w.db) (hnew : w.db.findmetaById w.db.nextOid = none)
    (hs : SlotSearch env.atomic h ts m w foundSlot newIdx m' w₁) :
    Ready w₁ foundSlot m' log := by
  have hnil {w : World} : m.bufferIdx ≠ 0 →
      ∃ n, Block m n ∧ Stampless w.db.heap m (n - 1 : Nat) := fun h => absurd hidx h
  cases hs with
  | @reuse i hi =>
      obtain ⟨hocc, hblock⟩ := blockSize_of_reusable hi
      refine ⟨hl, hoid, fun j hj => ?_, hslot, fun hne => ?_, hnew⟩
      · rw [← Option.some.inj hj]
        exact findReusable_lt hi
      · have hmem := ho.mem i ⟨hocc, hne⟩
        have hpos := ho.live.pos _ hmem
        obtain ⟨h0, hend⟩ := ho.live.inside _ hmem
        refine exists_ring hlimit hsize hfits hblock.symm hpos h0 hend (fun n hb => ?_) hne
        have hlast := hclean i hi hne
        rwa [show m.historySize - 1 = ((n - 1 : Nat) : Int) by
          have h1 : m.historySize = n := hb.historySize
          have h2 := hb.pos
          omega] at hlast
  | dataless hnone h0 hi =>
      exact ⟨hl, hoid, fun j hj => Option.some.inj hj ▸ (Db.findmetaById_some hi).1, hslot,
        hnil, hnew⟩
  | noSlotDataless hnone h0 hi => exact ⟨hl, hoid, fun _ hj => (nomatch hj), hslot, hnil, hnew⟩
  | noBlock hnone h0 hneg halloc =>
      rw [show w.unlock.afterAlloc env.atomic m.blockSize = w.unlock from
        afterAlloc_of_fails hf ho.live.legit halloc]
      exact ⟨hl, hoid, fun _ hj => (nomatch hj), hslot, hnil, hnew⟩
  | @block _ i w₂ hnone h0 hpos halloc hge hw₂ hi =>
      obtain ⟨-, hend, hapart⟩ := hf _ _ _ ho.live.legit hpos halloc
      subst hw₂
      refine ⟨hl.alloc ho hapart hpos, hoid, fun j hj => ?_, hslot, fun hne => ?_, hnew⟩
      · rw [← Option.some.inj hj]
        exact (Db.findmetaById_some hi).1
      · exact exists_ring hlimit hsize hfits rfl hpos hge hend (fun n hb => stampless_fresh hb)
          hne
  | noSlot hnone h0 hpos halloc hge hw₂ hi =>
      obtain ⟨-, hend, hapart⟩ := hf _ _ _ ho.live.legit hpos halloc
      subst hw₂
      refine ⟨hl.alloc ho hapart hpos, hoid, fun _ hj => (nomatch hj), hslot, fun hne => ?_, hnew⟩
      exact exists_ring hlimit hsize hfits rfl hpos hge hend (fun n hb => stampless_fresh hb)
        hne

/-- An object enters the table under an oid of its own. -/
theorem Lived.enter {objmeta : Nat → ObjInfo} {heap : Heap} {i : Nat} {info : ObjInfo}
    (hl : Lived objmeta heap log) (hi : i < objMax) (hoid : info.oid ≠ 0)
    (hnew : ∀ j, (objmeta j).oid ≠ info.oid) (hslot : info.historySlot = -1)
    (hring : info.bufferIdx ≠ 0 → ∃ n, Block info n ∧ Stampless heap info (n - 1 : Nat)) :
    Lived (Function.update objmeta i info) heap (.inserted info.oid :: log) := by
  refine ⟨fun j hj => ?_, fun j hj => ?_, fun j hj hun => ?_, fun o ho => ?_⟩
  · by_cases hji : j = i
    · rwa [hji]
    · rw [Function.update_of_ne hji] at hj
      exact hl.bound j hj
  · by_cases hji : j = i
    · subst hji
      rw [Function.update_self] at hj ⊢
      obtain ⟨n, hb, hlast⟩ := hring hj.2
      exact ⟨n, hb, .unwritten hslot hlast⟩
    · rw [Function.update_of_ne hji] at hj ⊢
      exact (hl.ring j hj).transport (.refl _) (fun _ _ _ => rfl)
        fun e he => List.mem_cons_of_mem _ he
  · by_cases hji : j = i
    · subst hji
      rwa [Function.update_self]
    · rw [Function.update_of_ne hji] at hj hun ⊢
      rcases hun with heq | hun
      · exact absurd heq.symm (hnew j)
      · exact hl.unwritten j hj hun
  · rcases List.mem_cons.mp ho with heq | ho
    · cases heq
      exact hoid
    · exact hl.inserted o ho

theorem livedWorld_finish (hr : Ready w foundSlot m log) (hf : Finish newIdx m w foundSlot r w') :
    LivedWorld w' (insertEvents r.1 ++ log) := by
  unfold LivedWorld
  cases hf with
  | notUniq hu =>
      rw [release_objmeta, release_heap]
      exact hr.lived
  | noSlot hu => exact hr.lived
  | @noOid i hu hle =>
      show Lived ((w.write (·.setMeta i m)).oidTaken.release m.bufferIdx m).db.objmeta
        ((w.write (·.setMeta i m)).oidTaken.release m.bufferIdx m).db.heap log
      rw [release_objmeta, release_heap]
      exact hr.lived.update fun hne => absurd hr.oid hne
  | @entered i oid hu hnext hpos =>
      have hring : ∀ info : ObjInfo, info = { m.withParent oid with oid := oid } →
          info.oid = oid ∧ info.historySlot = -1 ∧ (info.bufferIdx ≠ 0 →
            ∃ n, Block info n ∧ Stampless w.db.heap info (n - 1 : Nat)) := by
        rintro info rfl
        refine ⟨rfl, ?_, fun hne => ?_⟩
        · unfold ObjInfo.withParent
          split <;> exact hr.historySlot
        · unfold ObjInfo.withParent at hne ⊢
          split at hne <;> rename_i hparent
          · obtain ⟨n, hb, hlast⟩ := hr.ring hne
            rw [if_pos hparent]
            exact ⟨n, ⟨hb.historySize, hb.pos, hb.sizeMin, hb.idx, hb.bound⟩, hlast⟩
          · obtain ⟨n, hb, hlast⟩ := hr.ring hne
            rw [if_neg hparent]
            exact ⟨n, ⟨hb.historySize, hb.pos, hb.sizeMin, hb.idx, hb.bound⟩, hlast⟩
      obtain ⟨hoid, hslot, hring⟩ := hring _ rfl
      have hne : oid ≠ 0 := Int.ne_of_gt hpos
      have henter := Lived.enter hr.lived (hr.slot i rfl) (hoid ▸ hne)
        (fun j => hoid ▸ Db.findmetaById_none hr.lived.bound hne (hnext ▸ hr.newOid) j) hslot hring
      show Lived (Function.update (Function.update w.db.objmeta i m) i _) w.db.heap _
      rw [Function.update_idem]
      exact henter

/-- The conditions on an insert: sizes are those of `int32_t`s, the next oid is not
in use, and a reused block is clean. -/
structure SafeInsert [Rounding] (env : Env) (h : Handle) (metadata : ObjInfo)
    (w : World) : Prop where
  sizeMax : metadata.sizeMax < 2 ^ 31
  fits : (initMetadata env h (env.now w.tick) metadata).Fits
  newOid : w.db.findmetaById w.db.nextOid = none
  clean : CleanReuse h (env.now w.tick) (initMetadata env h (env.now w.tick) metadata) w.db

theorem livedWorld_insert [Rounding] {metadata : ObjInfo} (ho : OwnedWorld limit w)
    (hl : LivedWorld w log) (hf : AllocSound limit env.alloc) (hlimit : limit < 2 ^ 31)
    (hsafe : metadata.refused = false → SafeInsert env h metadata w)
    (hrun : insert env.atomic h metadata w = some (r, w')) :
    LivedWorld w' (insertEvents r.1 ++ log) := by
  rcases insert_some hrun with ⟨-, rfl, rfl⟩ | ⟨href, foundSlot, newIdx, m', w₁, hs, hfin⟩
  · exact hl
  · have hsafe := hsafe href
    have hdb : (w.ask.lock env.atomic).db = w.db := atomic_lock_db w.ask
    have ho' : OwnedWorld limit (w.ask.lock env.atomic) := by
      unfold OwnedWorld
      rw [hdb, atomic_lock_heapLog]
      exact ho
    have hl' : LivedWorld (w.ask.lock env.atomic) log := by
      unfold LivedWorld
      rw [hdb]
      exact hl
    refine livedWorld_finish (ready_of_slotSearch ho' hl' hf hlimit rfl rfl rfl
      (sizeMax_initMetadata href hsafe.sizeMax) hsafe.fits ?_ ?_ hs) hfin
    · rw [hdb]
      exact hsafe.clean
    · rw [hdb]
      exact hsafe.newOid

end Insert

/-! ## Runs -/

/-- The steps of a run that keep the objects' lives apart. -/
def KeepsLives [Rounding] (env : Env) (s : RunState) : Op → Prop
  | .insert h metadata => metadata.refused = false → SafeInsert env h metadata s.world
  | .writedata _ oid _ => oid ≠ 0
  | _ => True

/-- A step's condition, with those for its blocks' owners. -/
def LifeGuard [Rounding] (env : Env) (s : RunState) (op : Op) : Prop :=
  OwnerGuard env s op ∧ KeepsLives env s op

theorem cleanReuse_iff [Rounding] {h : Handle} {ts : Timestamp} {m : ObjInfo} {db : Db} :
    CleanReuse h ts m db ↔ ∀ i ∈ findReusable db h m ts, (db.objmeta i).bufferIdx ≠ 0 →
      Stampless db.heap { m with bufferIdx := (db.objmeta i).bufferIdx } (m.historySize - 1) :=
  Iff.rfl

theorem safeInsert_iff [Rounding] {h : Handle} {metadata : ObjInfo} :
    SafeInsert env h metadata w ↔ metadata.sizeMax < 2 ^ 31 ∧
      (initMetadata env h (env.now w.tick) metadata).Fits ∧
      w.db.findmetaById w.db.nextOid = none ∧
      CleanReuse h (env.now w.tick) (initMetadata env h (env.now w.tick) metadata) w.db :=
  ⟨fun ⟨h1, h2, h3, h4⟩ => ⟨h1, h2, h3, h4⟩, fun ⟨h1, h2, h3, h4⟩ => ⟨h1, h2, h3, h4⟩⟩

instance [Rounding] {h : Handle} {ts : Timestamp} {m : ObjInfo} {db : Db} :
    Decidable (CleanReuse h ts m db) := decidable_of_iff' _ cleanReuse_iff

instance [Rounding] {h : Handle} {metadata : ObjInfo} : Decidable (SafeInsert env h metadata w) :=
  decidable_of_iff' _ safeInsert_iff

instance [Rounding] (s : RunState) : DecidablePred (KeepsLives env s)
  | .insert h metadata => inferInstanceAs (Decidable
      (metadata.refused = false → SafeInsert env h metadata s.world))
  | .writedata _ oid _ => inferInstanceAs (Decidable (oid ≠ 0))
  | .deleteImm .. | .purgeObjs | .changeinfo .. => isTrue trivial

instance [Rounding] (s : RunState) : DecidablePred (LifeGuard env s) := fun op =>
  inferInstanceAs (Decidable (OwnerGuard env s op ∧ KeepsLives env s op))

theorem livedWorld_initial {heapSize : Int} :
    LivedWorld (World.initial env.atomic heapSize) [] := by
  have hempty : ∀ i, ((Db.initial heapSize).objmeta i).oid = 0 := fun i => rfl
  have hall : ∀ heap, Lived (Db.initial heapSize).objmeta heap [] := fun heap =>
    ⟨fun i hi => absurd (hempty i) hi, fun i hi => absurd (hempty i) hi.1,
      fun i hi => absurd (hempty i) hi.1, fun oid hm => nomatch hm⟩
  unfold World.initial World.afterAlloc
  rw [if_neg (by decide)]
  split
  · exact hall _
  · exact hall _

theorem livedWorld_step [Rounding] {heapSize : Int} {s s' : RunState} {op : Op}
    (hf : AllocSound limit env.alloc) (hlimit : limit < 2 ^ 31)
    (ho : OwnedWorld limit s.world) (hl : LivedWorld s.world s.log) (hg : LifeGuard env s op)
    (hs : (apiLts env heapSize).step s op = some s') : LivedWorld s'.world s'.log := by
  obtain ⟨events, hrun, hlog⟩ := apiLts_step hs
  obtain ⟨⟨hoid, -⟩, hkeep⟩ := hg
  rw [hlog]
  rcases op_cases (by rintro h metadata imm fuel rfl; exact hoid) hrun with
    ⟨h, metadata, r, rfl, hins, rfl⟩ | ⟨h, oid, data, out, rfl, hout, hw, rfl⟩ | ⟨hsteps, rfl⟩
  · exact livedWorld_insert ho hl hf hlimit hkeep hins
  · rw [hw]
    exact livedWorld_write ho hl hkeep hout
  · exact hsteps.invariant (fun _ _ => livedWorld_effect) hl

/-- No stale data: in every run of calls in which no insert takes over a block with
a stamp where its object's scans start (and none of the other three conditions of
`LifeGuard` is violated), no read returns a record of another object. -/
theorem noStaleData_of_guarded [Rounding] {heapSize : Int} {s : RunState}
    (hf : AllocSound limit env.alloc) (hlimit : limit < 2 ^ 31)
    (h : (apiLts env heapSize).Guarded (LifeGuard env) s) : NoStaleData s := by
  have hinv : OwnedWorld limit s.world ∧ LivedWorld s.world s.log := by
    refine h.invariant (I := fun s => OwnedWorld limit s.world ∧ LivedWorld s.world s.log) ?_
      fun s op s' hI hg hs => ?_
    · rintro s rfl
      exact ⟨ownedWorld_initial hf, livedWorld_initial⟩
    · exact ⟨ownedWorld_step hf hI.1 hg.1 hs, livedWorld_step hf hlimit hI.1 hI.2 hg hs⟩
  exact hinv.2.noStaleData

def aRecord : Mem := Mem.write32 (fun _ => 7) 20 32

def findsRecord (s : RunState) (oid : ObjId) : Bool :=
  match readdataModePtr s.world.db aProcess .last oid 0 2 with
  | some (.ok _) => true
  | _ => false

/-- An object with `writes` writes to it and its deletion; two seconds later, an
object that takes its slot and block. -/
def lifeSchedule (writes : Nat) : List Op :=
  .insert aProcess anObject :: List.replicate writes (.writedata aProcess 1 aRecord) ++
    [.deleteImm aProcess { anObject with oid := 1 } false 1, .writedata aProcess 9 aRecord,
      .writedata aProcess 9 aRecord, .insert aProcess anObject]

/-- One write leaves the last slot of the ring empty. -/
theorem noStaleData_of_guarded_reuse :
    ∃ s, (apiLts (exampleEnv 4096) 4096).Guarded (LifeGuard (exampleEnv 4096)) s ∧
      NoStaleData s ∧ (s.world.db.objmeta 0).oid = 2 ∧ findsRecord s 2 = true := by
  obtain ⟨s, hr, hp⟩ := (apiLts (exampleEnv 4096) 4096).exists_of_execGuarded
    (G := LifeGuard (exampleEnv 4096))
    (g := fun s op => decide (LifeGuard (exampleEnv 4096) s op)) (fun _ _ => of_decide_eq_true)
    (lifeSchedule 1 ++ [.writedata aProcess 2 aRecord])
    (fun s => decide ((s.world.db.objmeta 0).oid = 2 ∧ findsRecord s 2 = true))
    (s := ⟨World.initial (exampleEnv 4096).atomic 4096, []⟩) rfl (by decide +kernel)
  exact ⟨s, hr, noStaleData_of_guarded (bumpAlloc_sound 4096) (by decide) hr,
    of_decide_eq_true hp⟩

/-- Two writes fill the ring: the next object, never written to, has a record to read. -/
theorem exists_not_noStaleData :
    AllocSound 4096 (exampleEnv 4096).alloc ∧
      ∃ s, (apiLts (exampleEnv 4096) 4096).Guarded (OwnerGuard (exampleEnv 4096)) s ∧
        ¬ NoStaleData s := by
  obtain ⟨s, hr, hp⟩ := (apiLts (exampleEnv 4096) 4096).exists_of_execGuarded
    (G := OwnerGuard (exampleEnv 4096))
    (g := fun s op => decide (OwnerGuard (exampleEnv 4096) s op)) (fun _ _ => of_decide_eq_true)
    (lifeSchedule 2)
    (fun s => decide (Unwritten 2 s.log ∧ s.world.db.findmetaById 2 = some 0 ∧
      (s.world.db.objmeta 0).readDenied aProcess = false ∧ findsRecord s 2 = true))
    (s := ⟨World.initial (exampleEnv 4096).atomic 4096, []⟩) rfl (by decide +kernel)
  obtain ⟨hun, hfound, hallowed, hfinds⟩ := of_decide_eq_true hp
  refine ⟨bumpAlloc_sound 4096, s, hr, fun hno => ?_⟩
  obtain ⟨-, hptr⟩ := hno.nothing aProcess .last 2 0 2 hun fun i hi => by
    rw [hfound] at hi
    rwa [← Option.some.inj hi]
  rw [findsRecord, hptr] at hfinds
  cases hfinds

end KogmoRtdb
