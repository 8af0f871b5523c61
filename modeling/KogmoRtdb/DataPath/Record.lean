import KogmoRtdb.Types

/-!
# Records

What `kogmo_rtdb_obj_writedata` makes of the caller's record: the bytes it
copies (`commitSource`), the slot it leaves behind (`fillSlot`) and the commit
this stands for (`Commit.of`). Both data-path models, the one that steps word
by word and the one in which a call is one step, use these.
-/

namespace KogmoRtdb

/-- The source of the `memcpy`: the caller's record with `committed_proc` set and
`committed_ts` cleared. -/
def commitSource (committedProc : BitVec 32) (data : Mem) : Mem :=
  (data.write32 8 committedProc).write64 0 invalidTs

/-- Step 5b: if there is no `data_ts`, set it to `committed_ts`. -/
def defaultDataTs (m : Mem) (committedTs : Timestamp) : Mem :=
  if m.read64 12 = invalidTs then m.write64 12 committedTs else m

/-- `committed_ts`, forged by one tick where it equals the stamp of the record
about to be overwritten. -/
def forge (simmode : Bool) (committedTs old : Timestamp) : Timestamp :=
  if committedTs = old ∧ ¬ simmode then committedTs + 1 else committedTs

/-- Steps 4 to 6 on a slot that holds `m`: invalidate, copy, default `data_ts`,
validate. -/
def fillSlot (m src : Mem) (size : Nat) (committedTs : Timestamp) : Mem :=
  (defaultDataTs ((m.write64 0 invalidTs).copy 0 src 0 size) committedTs).write64 0 committedTs

/-- A committed record: its stamp, its size and its bytes as the validated slot
holds them. -/
structure Commit where
  stamp : Timestamp
  size : Nat
  bytes : Mem
  size_min : 24 ≤ size
  size_eq : (bytes.read32 20).toInt = size
  stamp_eq : bytes.read64 0 = stamp

theorem commitSource_invalid (committedProc : BitVec 32) (data : Mem) :
    (commitSource committedProc data).read64 0 = invalidTs :=
  Mem.read64_write64 ..

theorem commitSource_size (committedProc : BitVec 32) (data : Mem) :
    (commitSource committedProc data).read32 20 = data.read32 20 :=
  Mem.read32_congr fun b h1 h2 => by
    rw [commitSource, Mem.write64_outside (by omega), Mem.write32_outside (by omega)]

theorem defaultDataTs_outside {m : Mem} {committedTs : Timestamp} {b : Nat}
    (h : b < 12 ∨ 20 ≤ b) : defaultDataTs m committedTs b = m b := by
  rw [defaultDataTs]
  split
  · exact Mem.write64_outside (by omega)
  · rfl

/-- Defaulting `data_ts` depends on the header only, and acts bytewise. -/
theorem defaultDataTs_congr {m m' : Mem} {committedTs : Timestamp} {n : Nat} (hn : 24 ≤ n)
    (h : ∀ b, b < n → m b = m' b) :
    ∀ b, b < n → defaultDataTs m committedTs b = defaultDataTs m' committedTs b := by
  have hread : m.read64 12 = m'.read64 12 := Mem.read64_congr fun b _ h2 => h b (by omega)
  intro b hb
  rw [defaultDataTs, defaultDataTs, hread]
  split
  · simp only [Mem.write64, Mem.write32, Mem.copy, h b hb]
  · exact h b hb

namespace Commit

/-- The commit of a record already prepared by `commitSource`. -/
def of (src : Mem) (size : Nat) (stamp : Timestamp) (size_min : 24 ≤ size)
    (size_eq : (src.read32 20).toInt = size) : Commit where
  stamp := stamp
  size := size
  bytes := (defaultDataTs src stamp).write64 0 stamp
  size_min := size_min
  size_eq := by
    rw [← size_eq]
    congr 1
    refine Mem.read32_congr fun b h1 h2 => ?_
    rw [Mem.write64_outside (by omega), defaultDataTs_outside (by omega)]
  stamp_eq := Mem.read64_write64 ..

end Commit

/-- The filled slot holds the commit, -/
theorem fillSlot_inside {m src : Mem} {size : Nat} {stamp : Timestamp} (h24 : 24 ≤ size)
    (hsize : (src.read32 20).toInt = size) {b : Nat} (hb : b < size) :
    fillSlot m src size stamp b = (Commit.of src size stamp h24 hsize).bytes b := by
  have hcopy : ∀ b, b < size → (m.write64 0 invalidTs).copy 0 src 0 size b = src b := by
    intro b hb
    rw [Mem.copy_inside (by omega) (by omega)]
    congr 1
    omega
  simp only [fillSlot, Commit.of, Mem.write64, Mem.write32, Mem.copy]
  rw [← defaultDataTs_congr h24 hcopy b hb]
  rfl

/-- and beyond its size what was there before. -/
theorem fillSlot_outside {m src : Mem} {size : Nat} {stamp : Timestamp} (h24 : 24 ≤ size)
    {b : Nat} (hb : size ≤ b) : fillSlot m src size stamp b = m b := by
  rw [fillSlot, Mem.write64_outside (by omega), defaultDataTs_outside (by omega),
    Mem.copy_outside (by omega), Mem.write64_outside (by omega)]

end KogmoRtdb
