import KogmoRtdb.DataPath.Objdata
import KogmoRtdb.Lib.Ring

/-!
# The history search is exact

An object with a fresh, zeroed block of `n` history slots and a run of
successful commits to it. `RingInv` ties the three things the search relies on
to the commits so far: `history_slot`, the records of the last `n` commits, and
the slots never written. `scanLoop_eq` then turns the backwards scan over the
ring, with its truncating remainder and its wrap-around test, into a search
through the list of those commits, and `historySearch_exact` reads the answers
off the list.
-/

namespace KogmoRtdb

/-! ## What is claimed -/

/-- `c` is the newest commit of `R` with property `P`. -/
def NewestWith (R : List Commit) (P : Commit → Prop) (c : Commit) : Prop :=
  c ∈ R ∧ P c ∧ ∀ c' ∈ R, P c' → c'.stamp.toInt ≤ c.stamp.toInt

/-- `c` is the oldest commit of `R` with property `P`. -/
def OldestWith (R : List Commit) (P : Commit → Prop) (c : Commit) : Prop :=
  c ∈ R ∧ P c ∧ ∀ c' ∈ R, P c' → c.stamp.toInt ≤ c'.stamp.toInt

/-- The caller has been given the record of `c`, truncated to `size` bytes, with
`base.size` set to the copied length, and its true size as the answer. -/
def ReadsRecord (out : ReadOut) (size : Int) (c : Commit) : Prop :=
  out.ret = .ok c.size ∧ (out.buf.read32 20).toInt = min (c.size : Int) size ∧
    ∀ b : Nat, (b : Int) < min (c.size : Int) size → ¬ (20 ≤ b ∧ b < 24) →
      out.buf b = c.bytes b

/-- The read answers with the record of `R` that `pick` selects among those with
property `P`, and with `-NOTFOUND` exactly if there is none. -/
def Answers (res : Option ReadOut) (size : Int)
    (pick : List Commit → (Commit → Prop) → Commit → Prop) (R : List Commit)
    (P : Commit → Prop) : Prop :=
  ∃ out, res = some out ∧
    ((∃ c, pick R P c ∧ ReadsRecord out size c) ∨
      (out.ret = .error .notFound ∧ ∀ c ∈ R, ¬ P c))

/-! ## Runs of commits to one object -/

/-- The block of an object with `n` history slots lies within the 32-bit range. -/
structure Block (info : ObjInfo) (n : Nat) : Prop where
  historySize : info.historySize = n
  pos : 0 < n
  sizeMin : 24 ≤ info.sizeMax
  idx : 0 < info.bufferIdx
  bound : info.bufferIdx + n * info.sizeMax < 2 ^ 31

/-- Slot `i` holds an object as `kogmo_rtdb_obj_insert` leaves it, with a block
cleared by `kogmo_rtdb_obj_mem_alloc`. -/
structure FreshObject (db : Db) (oid : ObjId) (i n : Nat) : Prop where
  found : db.findmetaById oid = some i
  block : Block (db.objmeta i) n
  slot : (db.objmeta i).historySlot = -1
  live : (db.objmeta i).deletedTs = invalidTs
  notWithheld : (db.objmeta i).flags.withholdStale = false
  zeroed : ∀ b, (db.objmeta i).bufferIdx ≤ b →
    b < (db.objmeta i).bufferIdx + n * (db.objmeta i).sizeMax → db.heap b = 0

/-- `c` is the record `data`, committed by process `proc` with stamp `stamp`. -/
def IsCommitOf (c : Commit) (proc : ObjId) (data : Mem) (stamp : Timestamp) : Prop :=
  c.stamp = stamp ∧ (c.size : Int) = (data.read32 20).toInt ∧
    c.bytes = (defaultDataTs (commitSource (BitVec.ofInt 32 proc) data) stamp).write64 0 stamp

/-- Any number of successful `writedata` calls to one object, newest commit
first, with strictly increasing stamps of at least `2 ^ 32` ticks. The stamp is
the one the call stores in the caller's record. -/
inductive WriteRun [Rounding] (db₀ : Db) (oid : ObjId) : List Commit → Db → Prop where
  | nil : WriteRun db₀ oid [] db₀
  | write {cs : List Commit} {db : Db} {h : Handle} {data : Mem} {committedTs : Timestamp}
      {c : Commit} :
      WriteRun db₀ oid cs db → (writedata db h oid data committedTs).ret = .ok 0 →
      IsCommitOf c h.procOid data ((writedata db h oid data committedTs).data.read64 0) →
      2 ^ 32 ≤ c.stamp.toInt → (∀ c' ∈ cs, c'.stamp.toInt < c.stamp.toInt) →
      WriteRun db₀ oid (c :: cs) (writedata db h oid data committedTs).db

/-! ## The ring of records -/

/-- The commits with the slots they went to: number `m` (from the oldest on) to
slot `m % n`. -/
def ringRecords (n : Nat) : List Commit → List (Int × Commit)
  | [] => []
  | c :: cs => (((cs.length % n : Nat) : Int), c) :: ringRecords n cs

/-- The memory holds the record of `c`. -/
def HoldsRecord (m : Mem) (c : Commit) : Prop := ∀ b < c.size, m b = c.bytes b

def lastSlot (n : Nat) : List Commit → Int
  | [] => -1
  | _ :: cs => (cs.length % n : Nat)

structure RingInv (heap : Heap) (info : ObjInfo) (n : Nat) (cs : List Commit) : Prop where
  slot : info.historySlot = lastSlot n cs
  held : ∀ r ∈ (ringRecords n cs).take n, HoldsRecord (slotWindow heap info r.1) r.2
  empty : ∀ k : Nat, cs.length ≤ k → k < n → (slotWindow heap info k).read32 4 = hiWord invalidTs
  size : ∀ c ∈ cs, (c.size : Int) ≤ info.sizeMax
  stamp : ∀ c ∈ cs, 2 ^ 32 ≤ c.stamp.toInt
  sorted : cs.Pairwise fun c c' => c'.stamp.toInt < c.stamp.toInt

theorem ringRecords_map_snd (n : Nat) :
    ∀ cs : List Commit, (ringRecords n cs).map Prod.snd = cs
  | [] => rfl
  | c :: cs => by rw [ringRecords, List.map_cons, ringRecords_map_snd n cs]

theorem ringRecords_take_map_snd (n k : Nat) (cs : List Commit) :
    ((ringRecords n cs).take k).map Prod.snd = cs.take k := by
  rw [List.map_take, ringRecords_map_snd]

/-- The last `k` commits went to the slots of their numbers. -/
theorem mem_ringRecords_take {n : Nat} :
    ∀ {cs : List Commit} {k : Nat} {r : Int × Commit}, r ∈ (ringRecords n cs).take k →
      ∃ m < cs.length, cs.length ≤ m + k ∧ r.1 = (m % n : Nat)
  | [], k, r, hr => by simp [ringRecords] at hr
  | c :: cs, 0, r, hr => by simp at hr
  | c :: cs, k + 1, r, hr => by
      rw [ringRecords, List.take_succ_cons] at hr
      rcases List.mem_cons.mp hr with rfl | hr
      · exact ⟨cs.length, by rw [List.length_cons]; omega, by rw [List.length_cons]; omega, rfl⟩
      · obtain ⟨m, hm, hk, hslot⟩ := mem_ringRecords_take hr
        exact ⟨m, by rw [List.length_cons]; omega, by rw [List.length_cons]; omega, hslot⟩

/-! ## Addresses -/

namespace Block

variable {info : ObjInfo} {n : Nat}

/-- No address computation of the block leaves the 32-bit range. -/
theorem slotAddr_eq (hb : Block info n) {k : Nat} (hk : k < n) :
    info.slotAddr k = info.bufferIdx + k * info.sizeMax := by
  have h24 := hb.sizeMin
  have hidx := hb.idx
  have hbound := hb.bound
  have hle : (k : Int) * info.sizeMax ≤ n * info.sizeMax :=
    Int.mul_le_mul_of_nonneg_right (by omega) (by omega)
  have h0 : 0 ≤ (k : Int) * info.sizeMax := Int.mul_nonneg (by omega) (by omega)
  rw [ObjInfo.slotAddr, wrap32_of_bounds (x := k * info.sizeMax) (by omega) (by omega),
    wrap32_of_bounds (by omega) (by omega)]

/-- Different slots of a block are at least a record apart. -/
theorem slotAddr_disjoint (hb : Block info n) {j k : Nat} (hj : j < n) (hk : k < n)
    (hne : j ≠ k) :
    info.slotAddr j + info.sizeMax ≤ info.slotAddr k ∨
      info.slotAddr k + info.sizeMax ≤ info.slotAddr j := by
  have h24 := hb.sizeMin
  rw [hb.slotAddr_eq hj, hb.slotAddr_eq hk]
  have key : ∀ a b : Nat, a < b →
      (a : Int) * info.sizeMax + info.sizeMax ≤ b * info.sizeMax := by
    intro a b hab
    have h : ((a + 1 : Nat) : Int) * info.sizeMax ≤ b * info.sizeMax :=
      Int.mul_le_mul_of_nonneg_right (by omega) (by omega)
    rw [Int.natCast_succ, Int.add_mul] at h
    omega
  rcases Nat.lt_or_gt_of_ne hne with h | h
  · exact Or.inl (by have := key j k h; omega)
  · exact Or.inr (by have := key k j h; omega)

end Block

/-! ## The words of a held record -/

theorem HoldsRecord.read64_stamp {m : Mem} {c : Commit} (h : HoldsRecord m c) :
    m.read64 0 = c.stamp := by
  rw [← c.stamp_eq]
  exact Mem.read64_congr fun b _ h2 => h b (by have := c.size_min; omega)

theorem HoldsRecord.read64_dataTs {m : Mem} {c : Commit} (h : HoldsRecord m c) :
    m.read64 12 = c.bytes.read64 12 :=
  Mem.read64_congr fun b _ h2 => h b (by have := c.size_min; omega)

theorem HoldsRecord.read32_size {m : Mem} {c : Commit} (h : HoldsRecord m c) :
    (m.read32 20).toInt = c.size := by
  rw [← c.size_eq]
  congr 1
  exact Mem.read32_congr fun b _ h2 => h b (by have := c.size_min; omega)

theorem HoldsRecord.hi_ne {m : Mem} {c : Commit} (h : HoldsRecord m c)
    (hstamp : 2 ^ 32 ≤ c.stamp.toInt) : m.read32 4 ≠ hiWord invalidTs := by
  have h64 := h.read64_stamp
  rw [Mem.read64] at h64
  rw [← hiWord_ofWords (m.read32 (0 + 4)) (m.read32 0), h64]
  exact hiWord_ne_zero_of_le hstamp

/-! ## The scan -/

def probeOf (mode : Mode) (r : Int × Commit) : Probe where
  slot := r.1
  ts := r.2.stamp
  dataTs := if mode.usesDataTs then r.2.bytes.read64 12 else 0

theorem probeAt_eq {heap : Heap} {info : ObjInfo} {r : Int × Commit} (mode : Mode)
    (h : HoldsRecord (slotWindow heap info r.1) r.2) :
    probeAt heap info mode r.1 = probeOf mode r := by
  rw [probeAt, probeOf, h.read64_stamp, h.read64_dataTs]

theorem histscan_back {heap : Heap} {info : ObjInfo} {n : Nat} (hb : Block info n)
    (currslot firstslot : Int) :
    histscan heap info (-1) currslot firstslot =
      if histPos n (currslot - 1) = firstslot then none
      else if (slotWindow heap info (histPos n (currslot - 1))).read32 4 = hiWord invalidTs then
        none
      else some (histPos n (currslot - 1), firstslot) := by
  have hpos := hb.pos
  have hne : info.historySize ≠ 0 := by rw [hb.historySize]; omega
  rw [histscan, if_neg hne]
  simp [hb.historySize, Int.sub_eq_add_neg]

/-- The backwards scan from a record on is the search through the list of the
records from there on: `total` commits were made, and `left` of the `n` places
lie between the record and the wrap-around. The induction is on the older
commits. -/
theorem scanLoop_eq {heap : Heap} {info : ObjInfo} {n total : Nat} (hb : Block info n)
    (hempty : ∀ k : Nat, total ≤ k → k < n → (slotWindow heap info k).read32 4 = hiWord invalidTs)
    (mode : Mode) (ts : Timestamp) :
    ∀ {older : List Commit} {c : Commit} {left fuel : Nat} {kept : Option Probe},
      total + left = n + older.length + 1 → older.length < total → left ≤ fuel → 0 < left →
      (∀ r ∈ (ringRecords n (c :: older)).take left,
        HoldsRecord (slotWindow heap info r.1) r.2 ∧ 2 ^ 32 ≤ r.2.stamp.toInt) →
      scanLoop heap info mode ts fuel (older.length % n : Nat) ((total - 1) % n : Nat) kept =
        some (searchList mode ts kept
          (((ringRecords n (c :: older)).take left).map (probeOf mode)))
  | older, c, 0, _, _, _, _, _, h0, _ => absurd h0 (by omega)
  | older, c, left + 1, 0, _, _, _, hf, _, _ => absurd hf (by omega)
  | [], c, left + 1, fuel + 1, kept, htot, hlt, hf, _, hheld => by
      have hn := hb.pos
      have hc := (hheld _ List.mem_cons_self).1
      rw [scanLoop,
        probeAt_eq mode (r := (((List.length ([] : List Commit) % n : Nat) : Int), c)) hc]
      simp only [ringRecords, List.take_succ_cons, List.take_nil, List.map_cons, List.map_nil,
        searchList]
      have hend : histscan heap info (-1) (([] : List Commit).length % n : Nat)
          ((total - 1) % n : Nat) = none := by
        rw [histscan_back hb, List.length_nil, Nat.zero_mod, histPos, Int.natCast_zero,
          Ring.tmod_pred_zero hn]
        by_cases hlast : (n - 1 : Nat) = (total - 1) % n
        · rw [if_pos (by rw [hlast])]
        · -- the ring is not full, and its last slot was never written
          have hle : total ≤ n - 1 := by
            by_contra hcon
            exact hlast (by rw [show total = n by simp at htot; omega]
                            exact (Nat.mod_eq_of_lt (by omega)).symm)
          rw [if_neg (by omega), if_pos (hempty _ hle (by omega))]
      rw [hend]
      cases mode.verdict ts kept (probeOf mode _) <;> rfl
  | d :: older, c, left + 1, fuel + 1, kept, htot, hlt, hf, _, hheld => by
      have hn := hb.pos
      have hc := (hheld _ List.mem_cons_self).1
      rw [scanLoop, probeAt_eq mode (r := (((d :: older).length % n : Nat), c)) hc]
      rw [ringRecords, List.take_succ_cons, List.map_cons, searchList]
      simp only [List.length_cons] at htot hlt ⊢
      cases hv : mode.verdict ts kept (probeOf mode (((older.length + 1) % n : Nat), c)) with
      | take q => rfl
      | notFound => rfl
      | back kept' =>
          simp only
          rw [histscan_back hb, histPos, Ring.tmod_pred older.length hn]
          by_cases hwrap : left = 0
          · -- the scan has come around to the first slot
            subst hwrap
            rw [if_pos (by
              rw [Ring.mod_eq_of_add (show total - 1 = older.length + n by omega)])]
            rfl
          · have hne : older.length % n ≠ (total - 1) % n :=
              Ring.mod_ne_of_lt (by omega) (by omega)
            have htail : ∀ r ∈ (ringRecords n (d :: older)).take left,
                HoldsRecord (slotWindow heap info r.1) r.2 ∧ 2 ^ 32 ≤ r.2.stamp.toInt :=
              fun r hr => hheld r (by
                rw [ringRecords, List.take_succ_cons]
                exact List.mem_cons_of_mem _ hr)
            have hd := htail ((older.length % n : Nat), d) (by
              obtain ⟨k, rfl⟩ := Nat.exists_eq_succ_of_ne_zero hwrap
              rw [ringRecords, List.take_succ_cons]
              exact List.mem_cons_self)
            rw [if_neg (by omega), if_neg (hd.1.hi_ne hd.2)]
            exact scanLoop_eq hb hempty mode ts (by omega) (by omega) (by omega) (by omega) htail

def ringProbes (mode : Mode) (n : Nat) (cs : List Commit) : List Probe :=
  ((ringRecords n cs).take n).map (probeOf mode)

/-- The start of the search: `histscan` from the latest slot. -/
theorem histscan_first {heap : Heap} {info : ObjInfo} {n : Nat} {cs : List Commit}
    (hb : Block info n) (h : RingInv heap info n cs) :
    histscan heap info 0 0 0 =
      match cs with
      | [] => none
      | _ :: older => some ((older.length % n : Nat), info.historySlot) := by
  have hpos := hb.pos
  have hne : info.historySize ≠ 0 := by rw [hb.historySize]; omega
  rw [histscan, if_neg hne]
  simp only [if_true, ne_eq, not_true_eq_false, and_false, if_false, hb.historySize, histPos,
    h.slot]
  cases cs with
  | nil =>
      have hlast : (-1 + (n : Int)).tmod n = (n - 1 : Nat) := by
        rw [← Ring.tmod_pred_zero hpos, Int.zero_sub]
      simp only [lastSlot, hlast]
      exact if_pos (h.empty _ (Nat.zero_le _) (by omega))
  | cons c older =>
      obtain ⟨k, rfl⟩ : ∃ k, n = k + 1 := ⟨n - 1, by omega⟩
      have hheld := h.held ((older.length % (k + 1) : Nat), c) (by
        rw [ringRecords, List.take_succ_cons]
        exact List.mem_cons_self)
      simp only [lastSlot, Ring.tmod_self_add (Nat.mod_lt older.length hpos)]
      exact if_neg (hheld.hi_ne (h.stamp c List.mem_cons_self))

/-- Slot `i` holds a live object with the last `n` of the commits `cs` in its ring,
and the caller may read it. -/
structure Readable (db : Db) (h : Handle) (oid : ObjId) (i n : Nat) (cs : List Commit) :
    Prop where
  found : db.findmetaById oid = some i
  block : Block (db.objmeta i) n
  ring : RingInv db.heap (db.objmeta i) n cs
  live : (db.objmeta i).deletedTs = invalidTs
  notWithheld : (db.objmeta i).flags.withholdStale = false
  allowed : (db.objmeta i).readDenied h = false

theorem select_eq {db : Db} {h : Handle} {oid : ObjId} {i n fuel : Nat} {cs : List Commit}
    (hr : Readable db h oid i n cs) (hfuel : n ≤ fuel) (mode : Mode) (ts : Timestamp) :
    select db h mode oid ts fuel =
      some ((searchList mode ts none (ringProbes mode n cs)).map
        fun p => (db.objmeta i, p)) := by
  have hidx : (db.objmeta i).bufferIdx ≠ 0 := by have := hr.block.idx; omega
  simp only [select, hr.found, if_neg hidx, hr.allowed, Bool.false_eq_true, if_false,
    histscan_first hr.block hr.ring]
  cases cs with
  | nil => simp only [ringProbes, ringRecords, List.take_nil, List.map_nil, searchList]; rfl
  | cons c older =>
      have hslot : (db.objmeta i).historySlot =
          (((c :: older).length - 1) % n : Nat) := hr.ring.slot
      have hpos := hr.block.pos
      simp only [hr.live, ne_eq, not_true_eq_false, and_false, if_false]
      rw [hslot, scanLoop_eq hr.block hr.ring.empty mode ts (by simp only [List.length_cons]; omega)
        (by simp) hfuel hpos fun r hmem => ⟨hr.ring.held r hmem, ?_⟩]
      · rfl
      · have hmem' : r.2 ∈ ((ringRecords n (c :: older)).take n).map Prod.snd :=
          List.mem_map_of_mem hmem
        rw [ringRecords_take_map_snd] at hmem'
        exact hr.ring.stamp _ (List.mem_of_mem_take hmem')

/-! ## Copying the selected record -/

theorem toInt_ofInt32 {x : Int} (h1 : 0 ≤ x) (h2 : x < 2 ^ 31) :
    (BitVec.ofInt 32 x).toInt = x := by
  rw [BitVec.toInt_ofInt, Int.bmod_eq_of_le] <;> omega

/-- Copying out a held record whose stamp the search has loaded. -/
theorem copyOut_reads [Rounding] {heap : Heap} {info : ObjInfo} {p : Probe} {c : Commit}
    {size : Int} (buf : Mem) (now : Timestamp) (hheld : HoldsRecord (slotWindow heap info p.slot) c)
    (hts : p.ts = c.stamp) (hw : info.flags.withholdStale = false) (hsize : 0 ≤ size) :
    ReadsRecord (copyOut heap info p size buf now) size c := by
  have h24 := c.size_min
  have hc31 : (c.size : Int) < 2 ^ 31 := by
    rw [← c.size_eq]
    exact BitVec.toInt_lt
  have hmin : (if (c.size : Int) ≤ size then (c.size : Int) else size) =
      min (c.size : Int) size := by
    rw [Int.min_def]
  have hbuf : ∀ b : Nat, (copyOut heap info p size buf now).buf b =
      (((buf.copy 0 (slotWindow heap info p.slot) 0 (min (c.size : Int) size).toNat).write32 20
        (BitVec.ofInt 32 (min (c.size : Int) size))).write64 0 c.stamp) b := by
    intro b
    simp only [copyOut, hheld.read32_size, hheld.read64_stamp, hmin, hts, tooOld, hw]
    simp
  refine ⟨?_, ?_, fun b hb hns => ?_⟩
  · simp [copyOut, hheld.read32_size, hheld.read64_stamp, hts, tooOld, hw]
  · rw [Mem.read32_congr fun b _ _ => hbuf b, Mem.read32_congr fun b h1 h2 =>
      Mem.write64_outside (by omega), Mem.read32_write32, toInt_ofInt32 (by omega) (by omega)]
  · rw [hbuf]
    by_cases h8 : b < 8
    · -- the stamp bytes are the record's own
      have h64 : ∀ m : Mem, (m.write64 0 c.stamp).read64 0 = c.bytes.read64 0 := fun m => by
        rw [Mem.read64_write64, c.stamp_eq]
      exact Mem.byte_eq_of_read64_eq (h64 _) (by omega) (by omega)
    · rw [Mem.write64_outside (by omega), Mem.write32_outside (by omega),
        Mem.copy_inside (by omega) (by omega)]
      simpa using hheld b (by omega)

/-! ## A commit keeps the ring -/

/-- What a successful `writedata` call does: the record is stored in the next
slot. -/
theorem writedata_ok [Rounding] {db : Db} {h : Handle} {oid : ObjId} {data : Mem}
    {committedTs : Timestamp} {i : Nat} (hfound : db.findmetaById oid = some i)
    (hok : (writedata db h oid data committedTs).ret = .ok 0) :
    24 ≤ (data.read32 20).toInt ∧ (data.read32 20).toInt ≤ (db.objmeta i).sizeMax ∧
    (writedata db h oid data committedTs).db =
      storeRecord db i (nextSlot (db.objmeta i).historySize (db.objmeta i).historySlot)
        (commitSource (BitVec.ofInt 32 h.procOid) data) (data.read32 20).toInt.toNat
        ((writedata db h oid data committedTs).data.read64 0) := by
  rcases writedata_cases rfl with ⟨e, herr, -⟩ | ⟨j, hj, -, hmin, hmax, -, hdb⟩
  · rw [hok] at herr
    cases herr
  · obtain rfl := Option.some.inj (hfound.symm.trans hj)
    exact ⟨hmin, hmax, hdb⟩

/-- A write fails and leaves the database alone, or stores a commit in the object's next
slot. -/
theorem writedata_commit [Rounding] {db : Db} {h : Handle} {oid : ObjId} {data : Mem}
    {committedTs : Timestamp} {out : WriteOut} (hout : out = writedata db h oid data committedTs) :
    (∃ e, out.ret = .error e ∧ out.db = db) ∨
      ∃ i c, db.findmetaById oid = some i ∧ (db.objmeta i).bufferIdx ≠ 0 ∧
        IsCommitOf c h.procOid data (out.data.read64 0) ∧
        ((commitSource (BitVec.ofInt 32 h.procOid) data).read32 20).toInt = c.size ∧
        (c.size : Int) ≤ (db.objmeta i).sizeMax ∧ out.ret = .ok 0 ∧
        out.db = storeRecord db i (nextSlot (db.objmeta i).historySize (db.objmeta i).historySlot)
          (commitSource (BitVec.ofInt 32 h.procOid) data) c.size c.stamp := by
  rcases writedata_cases hout with herr | ⟨i, hfound, hidx, hmin, hmax, hret, hdb⟩
  · exact Or.inl herr
  · have hsize : ((data.read32 20).toInt.toNat : Int) = (data.read32 20).toInt :=
      Int.toNat_of_nonneg (by omega)
    have hsrc : ((commitSource (BitVec.ofInt 32 h.procOid) data).read32 20).toInt =
        (data.read32 20).toInt.toNat := by rw [commitSource_size, hsize]
    exact Or.inr ⟨i, .of _ _ (out.data.read64 0) (by omega) hsrc, hfound, hidx, ⟨rfl, hsize, rfl⟩,
      hsrc, hsize.trans_le hmax, hret, hdb⟩

theorem nextSlot_lastSlot (n : Nat) :
    ∀ cs : List Commit, nextSlot n (lastSlot n cs) = (cs.length % n : Nat)
  | [] => by simp [nextSlot, lastSlot]
  | c :: cs => by
      rw [nextSlot, lastSlot, if_neg (by omega), Ring.tmod_succ, List.length_cons]

/-- A store fills its own slot, -/
theorem window_storeRecord {db : Db} {i : Nat} {slot : Int} {src : Mem} {size : Nat}
    {ts : Timestamp} (h24 : 24 ≤ size) :
    slotWindow (storeRecord db i slot src size ts).heap (db.objmeta i) slot =
      fillSlot (slotWindow db.heap (db.objmeta i) slot) src size ts :=
  Heap.window_put_self fun _ hk => fillSlot_outside h24 hk

theorem holdsRecord_storeRecord {db : Db} {i : Nat} {slot : Int} {c : Commit} {src : Mem}
    (hbytes : c.bytes = (defaultDataTs src c.stamp).write64 0 c.stamp)
    (hsrc : (src.read32 20).toInt = c.size) :
    HoldsRecord (slotWindow (storeRecord db i slot src c.size c.stamp).heap (db.objmeta i) slot)
      c := by
  intro b hb
  rw [window_storeRecord c.size_min, hbytes]
  exact fillSlot_inside c.size_min hsrc hb

/-- and leaves the object's other slots alone. -/
theorem window_storeRecord_ne {db : Db} {i n j k b : Nat} {src : Mem} {size : Nat}
    {ts : Timestamp} (hb : Block (db.objmeta i) n) (hsize : (size : Int) ≤ (db.objmeta i).sizeMax)
    (hj : j < n) (hk : k < n) (hne : j ≠ k) (hbyte : (b : Int) < (db.objmeta i).sizeMax) :
    slotWindow (storeRecord db i k src size ts).heap (db.objmeta i) j b =
      slotWindow db.heap (db.objmeta i) j b := by
  refine Heap.window_put_of_disjoint ?_
  rcases hb.slotAddr_disjoint hj hk hne with h | h <;> omega

/-- Storing the next record keeps the ring: it goes to the place of the record
that drops out of the last `n`. -/
theorem RingInv.store {db : Db} {i n : Nat} {cs : List Commit} {c : Commit} {src : Mem}
    (hb : Block (db.objmeta i) n) (h : RingInv db.heap (db.objmeta i) n cs)
    (hbytes : c.bytes = (defaultDataTs src c.stamp).write64 0 c.stamp)
    (hsrc : (src.read32 20).toInt = c.size) (hsize : (c.size : Int) ≤ (db.objmeta i).sizeMax)
    (hstamp : 2 ^ 32 ≤ c.stamp.toInt) (hlater : ∀ c' ∈ cs, c'.stamp.toInt < c.stamp.toInt) :
    RingInv (storeRecord db i (cs.length % n : Nat) src c.size c.stamp).heap
      ((storeRecord db i (cs.length % n : Nat) src c.size c.stamp).objmeta i) n (c :: cs) := by
  have hn : 0 < n := hb.pos
  have hlt := Nat.mod_lt cs.length hn
  have hinfo : (storeRecord db i (cs.length % n : Nat) src c.size c.stamp).objmeta i =
      { db.objmeta i with historySlot := (cs.length % n : Nat) } :=
    Db.setMeta_objmeta_self ..
  rw [hinfo]
  -- the stored slot
  have hself : HoldsRecord (slotWindow
      (storeRecord db i (cs.length % n : Nat) src c.size c.stamp).heap (db.objmeta i)
      (cs.length % n : Nat)) c := holdsRecord_storeRecord hbytes hsrc
  -- the other slots
  have hother : ∀ k : Nat, k < n → k ≠ cs.length % n → ∀ b : Nat,
      (b : Int) < (db.objmeta i).sizeMax →
      slotWindow (storeRecord db i (cs.length % n : Nat) src c.size c.stamp).heap
        (db.objmeta i) k b = slotWindow db.heap (db.objmeta i) k b := by
    intro k hk hne b hbs
    exact window_storeRecord_ne hb hsize hk hlt hne hbs
  have h24 := hb.sizeMin
  refine ⟨rfl, fun r hr => ?_, fun k hk hkn => ?_, fun c' hc' => ?_, fun c' hc' => ?_, ?_⟩
  · obtain ⟨k, rfl⟩ : ∃ k, n = k + 1 := ⟨n - 1, by omega⟩
    rw [ringRecords, List.take_succ_cons] at hr
    rcases List.mem_cons.mp hr with rfl | hr
    · exact hself
    · obtain ⟨m, hm, hmk, hslot⟩ := mem_ringRecords_take hr
      have hold := h.held r (List.take_subset_take_left _ (Nat.le_succ k) hr)
      have hmem : r.2 ∈ ((ringRecords (k + 1) cs).take k).map Prod.snd :=
        List.mem_map_of_mem hr
      rw [ringRecords_take_map_snd] at hmem
      have hrs := h.size _ (List.mem_of_mem_take hmem)
      intro b hbs
      rw [← hold b hbs, hslot]
      exact hother _ (Nat.mod_lt m hn) (Ring.mod_ne_of_lt hm (by omega)) b (by omega)
  · rw [List.length_cons] at hk
    rw [← h.empty k (by omega) hkn]
    exact Mem.read32_congr fun b _ hb' =>
      hother k hkn (by rw [Nat.mod_eq_of_lt (by omega)]; omega) b (by omega)
  · rcases List.mem_cons.mp hc' with rfl | hc'
    · exact hsize
    · exact h.size c' hc'
  · rcases List.mem_cons.mp hc' with rfl | hc'
    · exact hstamp
    · exact h.stamp c' hc'
  · exact List.pairwise_cons.mpr ⟨hlater, h.sorted⟩

/-! ## Runs -/

theorem FreshObject.ringInv {db : Db} {oid : ObjId} {i n : Nat} (hf : FreshObject db oid i n) :
    RingInv db.heap (db.objmeta i) n [] := by
  have h24 := hf.block.sizeMin
  refine ⟨hf.slot, fun r hr => ?_, fun k _ hk => ?_, ?_, ?_, .nil⟩
  · simp [ringRecords] at hr
  · have hzero : ∀ b < 8, slotWindow db.heap (db.objmeta i) k b = Mem.zero b := by
      intro b hb
      have haddr := hf.block.slotAddr_eq hk
      have hle : ((k + 1 : Nat) : Int) * (db.objmeta i).sizeMax ≤ n * (db.objmeta i).sizeMax :=
        Int.mul_le_mul_of_nonneg_right (by omega) (by omega)
      have h0 : 0 ≤ (k : Int) * (db.objmeta i).sizeMax := Int.mul_nonneg (by omega) (by omega)
      rw [Int.natCast_succ, Int.add_mul] at hle
      exact hf.zeroed _ (by omega) (by omega)
    rw [Mem.read32_congr fun b _ h2 => hzero b (by omega), Mem.read32_zero]
    rfl
  · exact fun c hc => by cases hc
  · exact fun c hc => by cases hc

/-- What a run of commits to a fresh object preserves: the object is found in its
slot, its metadata changes in `history_slot` only, and the ring holds the last
`n` commits. -/
theorem WriteRun.inv [Rounding] {db₀ db : Db} {oid : ObjId} {i n : Nat} {cs : List Commit}
    (hf : FreshObject db₀ oid i n) (hr : WriteRun db₀ oid cs db) :
    db.findmetaById oid = some i ∧
      (∃ slot, db.objmeta i = { db₀.objmeta i with historySlot := slot }) ∧
      RingInv db.heap (db.objmeta i) n cs := by
  induction hr with
  | nil => exact ⟨hf.found, ⟨_, rfl⟩, hf.ringInv⟩
  | @write cs db h data committedTs c _ hok hc hstamp hlater ih =>
      obtain ⟨hfound, ⟨slot, hinfo⟩, hring⟩ := ih
      have hb : Block (db.objmeta i) n := by
        rw [hinfo]
        exact ⟨hf.block.historySize, hf.block.pos, hf.block.sizeMin, hf.block.idx,
          hf.block.bound⟩
      obtain ⟨hmin, hmax, hdb⟩ := writedata_ok hfound hok
      obtain ⟨hcs, hsize, hbytes⟩ := hc
      rw [← hcs, hb.historySize, hring.slot, nextSlot_lastSlot n cs,
        show (data.read32 20).toInt.toNat = c.size by omega] at hdb
      rw [← hcs] at hbytes
      rw [hdb]
      refine ⟨?_, ⟨(cs.length % n : Nat), ?_⟩, ?_⟩
      · rw [← hfound]
        exact Db.findmetaById_congr fun j => storeRecord_oid ..
      · rw [show (storeRecord _ i _ _ _ _).objmeta i = _ from Db.setMeta_objmeta_self .., hinfo]
      · exact hring.store hb hbytes (by rw [commitSource_size]; omega) (by omega) hstamp hlater

/-! ## The answers -/

theorem decreasing_ringProbes {mode : Mode} (hm : mode.usesDataTs = false) {n : Nat}
    {cs : List Commit} (h : cs.Pairwise fun c c' => c'.stamp.toInt < c.stamp.toInt) :
    Decreasing mode (ringProbes mode n cs) := by
  have hkey : ∀ r, mode.key (probeOf mode r) = r.2.stamp := fun r => by
    simp [Mode.key, hm, probeOf]
  rw [Decreasing, ringProbes, List.pairwise_map]
  simp only [hkey]
  rw [← List.pairwise_map (f := Prod.snd)
    (R := fun c c' : Commit => c'.stamp.toInt < c.stamp.toInt), ringRecords_take_map_snd]
  exact h.sublist (List.take_sublist ..)

/-- The selected probe stands for a commit of the ring, and every commit of the
ring has its probe. -/
theorem mem_ringProbes {mode : Mode} (hm : mode.usesDataTs = false) {n : Nat}
    {cs : List Commit} {p : Probe} (hp : p ∈ ringProbes mode n cs) :
    ∃ r ∈ (ringRecords n cs).take n, p = probeOf mode r ∧ mode.key p = r.2.stamp ∧
      r.2 ∈ cs.take n := by
  obtain ⟨r, hr, rfl⟩ := List.mem_map.mp hp
  refine ⟨r, hr, rfl, by simp [Mode.key, hm, probeOf], ?_⟩
  rw [← ringRecords_take_map_snd n n cs]
  exact List.mem_map_of_mem hr

theorem exists_ringProbe {mode : Mode} (hm : mode.usesDataTs = false) {n : Nat}
    {cs : List Commit} {c : Commit} (hc : c ∈ cs.take n) :
    ∃ p ∈ ringProbes mode n cs, mode.key p = c.stamp := by
  rw [← ringRecords_take_map_snd n n cs] at hc
  obtain ⟨r, hr, rfl⟩ := List.mem_map.mp hc
  exact ⟨probeOf mode r, List.mem_map_of_mem hr, by simp [Mode.key, hm, probeOf]⟩

section Answers

variable {db : Db} {h : Handle} {oid : ObjId} {i n fuel : Nat} {cs : List Commit} {size : Int}

/-- A read, given the record that its list search selects. -/
theorem answers_of_record [Rounding] {mode : Mode} {ts : Timestamp} {P : Commit → Prop}
    {pick : List Commit → (Commit → Prop) → Commit → Prop} (hr : Readable db h oid i n cs)
    (hsize : 0 ≤ size) (hfuel : n ≤ fuel)
    (hpick : match searchList mode ts none (ringProbes mode n cs) with
      | .ok p => ∃ r ∈ (ringRecords n cs).take n, p = probeOf mode r ∧ pick (cs.take n) P r.2
      | .error e => e = .notFound ∧ ∀ c ∈ cs.take n, ¬ P c)
    (buf : Mem) (now : Timestamp) :
    Answers (readdataMode db h mode oid ts buf size now fuel) size pick (cs.take n) P := by
  have hsel := select_eq hr hfuel mode ts
  cases hs : searchList mode ts none (ringProbes mode n cs) with
  | error e =>
      rw [hs] at hsel hpick
      refine ⟨{ ret := .error e, buf := buf }, ?_, Or.inr ⟨?_, hpick.2⟩⟩
      · rw [readdataMode, hsel]
        rfl
      · rw [hpick.1]
  | ok p =>
      rw [hs] at hsel hpick
      obtain ⟨r, hrec, rfl, hc⟩ := hpick
      refine ⟨copyOut db.heap (db.objmeta i) (probeOf mode r) size buf now, ?_,
        Or.inl ⟨r.2, hc, ?_⟩⟩
      · rw [readdataMode, hsel]
        rfl
      · exact copyOut_reads buf now (hr.ring.held r hrec) rfl hr.notWithheld hsize

/-- A read in a mode that searches by commit stamp, given what its list search
selects. -/
theorem answers_of_searchList [Rounding] {mode : Mode} {ts : Timestamp} {P : Commit → Prop}
    {pick : List Commit → (Commit → Prop) → Commit → Prop}
    (hm : mode.usesDataTs = false) (hr : Readable db h oid i n cs)
    (hsize : 24 ≤ size) (hfuel : n ≤ fuel)
    (hpick : match searchList mode ts none (ringProbes mode n cs) with
      | .ok p => p ∈ ringProbes mode n cs ∧
          ∀ c, mode.key p = c.stamp → c ∈ cs.take n → pick (cs.take n) P c
      | .error e => e = .notFound ∧ ∀ c ∈ cs.take n, ¬ P c)
    (buf : Mem) (now : Timestamp) :
    Answers (readdataMode db h mode oid ts buf size now fuel) size pick (cs.take n) P := by
  refine answers_of_record hr (by omega) hfuel ?_ buf now
  split <;> rename_i hs <;> rw [hs] at hpick
  · obtain ⟨r, hrec, rfl, hkey, hmem⟩ := mem_ringProbes hm hpick.1
    exact ⟨r, hrec, rfl, hpick.2 r.2 hkey hmem⟩
  · exact hpick

/-- The modes that stop at the first record they do not step over. -/
theorem answers_newest [Rounding] {m : Mode} (ts : Timestamp) (hm : m.usesDataTs = false)
    (hk : m.keepsNewer = false) (hr : Readable db h oid i n cs)
    (hsize : 24 ≤ size) (hfuel : n ≤ fuel)
    (buf : Mem) (now : Timestamp) :
    Answers (readdataMode db h m oid ts buf size now fuel) size NewestWith (cs.take n)
      fun c => m.goesBack ts c.stamp = false := by
  refine answers_of_searchList hm hr hsize hfuel ?_ buf now
  have hlist := searchList_newest ts hk (decreasing_ringProbes hm (n := n) hr.ring.sorted)
  split <;> rename_i hs <;> rw [hs] at hlist
  · obtain ⟨hmem, hgo, hmax⟩ := hlist
    refine ⟨hmem, fun c hkey hc => ⟨hc, ?_, fun c' hc' hgo' => ?_⟩⟩
    · show m.goesBack ts c.stamp = _
      rw [← hkey]
      exact hgo
    · obtain ⟨q, hq, hqkey⟩ := exists_ringProbe hm hc'
      rw [← hkey, ← hqkey]
      exact hmax q hq (by rw [hqkey]; exact hgo')
  · refine ⟨hlist.1, fun c hc hgo => ?_⟩
    obtain ⟨q, hq, hqkey⟩ := exists_ringProbe hm hc
    have := hlist.2 q hq
    rw [hqkey, hgo] at this
    cases this

theorem answers_oldest [Rounding] {m : Mode} (ts : Timestamp) (hm : m.usesDataTs = false)
    (hk : m.keepsNewer = true) (hr : Readable db h oid i n cs)
    (hsize : 24 ≤ size) (hfuel : n ≤ fuel)
    (buf : Mem) (now : Timestamp) :
    Answers (readdataMode db h m oid ts buf size now fuel) size OldestWith (cs.take n)
      fun c => m.goesBack ts c.stamp = true := by
  refine answers_of_searchList hm hr hsize hfuel ?_ buf now
  have hlist := searchList_oldest ts hk none
    (decreasing_ringProbes hm (n := n) hr.ring.sorted)
  split <;> rename_i hs <;> rw [hs] at hlist
  · rcases hlist with ⟨hmem, hgo, hmin⟩ | ⟨hnone, _⟩
    · refine ⟨hmem, fun c hkey hc => ⟨hc, ?_, fun c' hc' hgo' => ?_⟩⟩
      · show m.goesBack ts c.stamp = _
        rw [← hkey]
        exact hgo
      · obtain ⟨q, hq, hqkey⟩ := exists_ringProbe hm hc'
        rw [← hkey, ← hqkey]
        exact hmin q hq (by rw [hqkey]; exact hgo')
    · cases hnone
  · refine ⟨hlist.1, fun c hc hgo => ?_⟩
    obtain ⟨q, hq, hqkey⟩ := exists_ringProbe hm hc
    have := hlist.2.2 q hq
    rw [hqkey, hgo] at this
    cases this

end Answers

/-- After a run of commits to a fresh object, whoever could read the object can read
its last `n` commits. -/
theorem WriteRun.readable [Rounding] {db₀ db : Db} {oid : ObjId} {i n : Nat} {cs : List Commit}
    {h : Handle} (hf : FreshObject db₀ oid i n) (hrun : WriteRun db₀ oid cs db)
    (hread : (db₀.objmeta i).readDenied h = false) : Readable db h oid i n cs := by
  obtain ⟨hfound, ⟨slot, hinfo⟩, hring⟩ := hrun.inv hf
  refine ⟨hfound, ?_, hring, ?_, ?_, ?_⟩ <;> rw [hinfo]
  · exact ⟨hf.block.historySize, hf.block.pos, hf.block.sizeMin, hf.block.idx, hf.block.bound⟩
  · exact hf.live
  · exact hf.notWithheld
  · exact hread

/-- History search is exact. With `R` the last `n` commits of a run to a fresh
object: `readdata` answers with the newest record of `R` not after `ts` (of all,
if `ts` is 0), `readdata_older` with the newest before `ts`, `readdata_younger`
with the oldest after `ts`, and each with `-NOTFOUND` exactly if there is none.
`n` passes of a search loop are enough. -/
theorem historySearch_exact [Rounding] {db₀ db : Db} {oid : ObjId} {i n fuel : Nat}
    {cs : List Commit}
    {h : Handle} {size : Int} (hf : FreshObject db₀ oid i n) (hrun : WriteRun db₀ oid cs db)
    (hread : (db₀.objmeta i).readDenied h = false) (hsize : 24 ≤ size) (hfuel : n ≤ fuel)
    (ts : Timestamp) (buf : Mem) (now : Timestamp) :
    Answers (readdata db h oid ts buf size now fuel) size NewestWith (cs.take n)
        (fun c => ts = invalidTs ∨ c.stamp.toInt ≤ ts.toInt) ∧
      Answers (readdataOlder db h oid ts buf size now fuel) size NewestWith (cs.take n)
        (fun c => c.stamp.toInt < ts.toInt) ∧
      Answers (readdataYounger db h oid ts buf size now fuel) size OldestWith (cs.take n)
        (fun c => ts.toInt < c.stamp.toInt) := by
  have hr := hrun.readable hf hread
  refine ⟨?_, ?_, ?_⟩
  · have hlast := answers_newest (m := .last) ts rfl rfl hr hsize hfuel buf now
    have hP : (fun c : Commit => Mode.goesBack .last ts c.stamp = false) =
        fun c => ts = invalidTs ∨ c.stamp.toInt ≤ ts.toInt := by
      funext c
      simp only [Mode.goesBack, Bool.and_eq_false_iff, decide_eq_false_iff_not, not_not,
        Int.not_lt]
    rwa [hP] at hlast
  · have holder := answers_newest (m := .older) ts rfl rfl hr hsize hfuel buf now
    have hP : (fun c : Commit => Mode.goesBack .older ts c.stamp = false) =
        fun c => c.stamp.toInt < ts.toInt := by
      funext c
      simp only [Mode.goesBack, decide_eq_false_iff_not, Int.not_le]
    rwa [hP] at holder
  · have hyounger := answers_oldest (m := .younger) ts rfl rfl hr hsize hfuel buf now
    have hP : (fun c : Commit => Mode.goesBack .younger ts c.stamp = true) =
        fun c => ts.toInt < c.stamp.toInt := by
      funext c
      simp only [Mode.goesBack, decide_eq_true_eq]
    rwa [hP] at hyounger

/-- An object with two history slots and a cleared block. -/
def historyDb : Db where
  objmeta i :=
    if i = 0 then
      { oid := 5, createdProc := 1, sizeMax := 32, historySize := 2, historySlot := -1,
        bufferIdx := 64 }
    else {}
  objmetaFree := 999
  objmetaOidNext := 6
  heap _ := 0
  heapSize := 1024
  heapFree := 960
  heapUsed := 64
  defaultKeepDeletedInterval := 1 / 4
  noNotifies := false
  simmode := false

def historyRecord : Mem := Mem.write32 (fun _ => 7) 20 32

theorem historyDb_fresh : FreshObject historyDb 5 0 2 where
  found := by decide +kernel
  block := ⟨rfl, by decide, by decide, by decide, by decide⟩
  slot := rfl
  live := rfl
  notWithheld := rfl
  zeroed _ _ _ := rfl

theorem historyRecord_size :
    ((commitSource 1 historyRecord).read32 20).toInt = (32 : Nat) := by decide

def historyCommitAt (ts : Timestamp) : Commit :=
  .of (commitSource 1 historyRecord) 32 ts (by decide) historyRecord_size

def historyWrite [Rounding] (db : Db) (ts : Timestamp) : WriteOut :=
  writedata db ⟨1, false⟩ 5 historyRecord ts

theorem historyRun_write [Rounding] {cs : List Commit} {db : Db} (ts : Timestamp)
    (hrun : WriteRun historyDb 5 cs db) (hok : (historyWrite db ts).ret = .ok 0)
    (hts : (historyWrite db ts).data.read64 0 = ts) (hmin : 2 ^ 32 ≤ ts.toInt)
    (hlater : ∀ c ∈ cs, c.stamp.toInt < ts.toInt) :
    WriteRun historyDb 5 (historyCommitAt ts :: cs) (historyWrite db ts).db := by
  refine .write hrun hok ⟨hts.symm, show ((32 : Nat) : Int) = _ by decide, ?_⟩ hmin hlater
  rw [show (writedata db ⟨1, false⟩ 5 historyRecord ts).data.read64 0 = ts from hts]
  rfl

/-- After three commits, of which the first has left the ring. -/
def wrappedDb : Db :=
  (historyWrite (historyWrite (historyWrite historyDb 0x100000005).db 0x100000007).db
    0x100000009).db

theorem wrappedDb_run :
    WriteRun historyDb 5 ([0x100000009, 0x100000007, 0x100000005].map historyCommitAt)
      wrappedDb := by
  have hrun₁ := historyRun_write 0x100000005 .nil (by decide +kernel) (by decide +kernel)
    (by decide) (fun _ h => by cases h)
  have hrun₂ := historyRun_write 0x100000007 hrun₁ (by decide +kernel) (by decide +kernel)
    (by decide) (by decide)
  exact historyRun_write 0x100000009 hrun₂ (by decide +kernel) (by decide +kernel)
    (by decide) (by decide)

/-- The reads at a time between the two commits in the ring. -/
theorem historySearch_exact_wrapped :
    Answers (readdata wrappedDb ⟨1, false⟩ 5 0x100000008 .zero 64 0 2) 64 NewestWith
        ([0x100000009, 0x100000007].map historyCommitAt)
        (fun c => (0x100000008 : Timestamp) = invalidTs ∨
          c.stamp.toInt ≤ (0x100000008 : Timestamp).toInt) ∧
      Answers (readdataOlder wrappedDb ⟨1, false⟩ 5 0x100000008 .zero 64 0 2) 64 NewestWith
        ([0x100000009, 0x100000007].map historyCommitAt)
        (fun c => c.stamp.toInt < (0x100000008 : Timestamp).toInt) ∧
      Answers (readdataYounger wrappedDb ⟨1, false⟩ 5 0x100000008 .zero 64 0 2) 64 OldestWith
        ([0x100000009, 0x100000007].map historyCommitAt)
        (fun c => (0x100000008 : Timestamp).toInt < c.stamp.toInt) :=
  historySearch_exact historyDb_fresh wrappedDb_run rfl (by decide) (Nat.le_refl 2) 0x100000008
    .zero 0

end KogmoRtdb
