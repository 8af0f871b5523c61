import Mathlib.Logic.Function.Basic
import KogmoRtdb.DataPath.Record
import KogmoRtdb.DataPath.Search
import KogmoRtdb.Lib.Lts

/-!
# The lock-free data path, one 32-bit access at a time

One object's ring, one writer inside `kogmo_rtdb_obj_writedata` and any
number of readers inside the copying path of
`kogmo_rtdb_obj_readdata__mode`. Every load or store of a 32-bit word of a
slot is one step, in program order; so is every load or store of
`history_slot`. Addresses are relative to a slot: slots are disjoint, and
nothing here depends on where they lie.

A label names who takes the next step, so that a schedule is a list of
labels. The ghost fields are `log`, the commits whose step 6 is complete,
and `cur`, the commit a slot belongs to from the moment its low stamp word
is stored (everything else of the record is then in place).

What is not a step: arguments that a call rejects before it touches the
ring (`size` out of bounds, missing permissions, a commit refused by
`cycle_watch`), the notification around step 6 (it stores nothing to the
ring) and the direct-pointer reads, which do not copy.
-/

namespace KogmoRtdb.WordModel

/-- What the steps read of an object's metadata and of the database flags. -/
structure Cfg where
  historySize : Int
  sizeMax : Int
  committedProc : BitVec 32
  simmode : Bool
  withholdStale : Bool
  historySize_pos : 0 < historySize

/-- A `writedata` call past its checks: the slot it chose, its commit stamp,
and the caller's record with `committed_ts` cleared. -/
structure Txn where
  slot : Nat
  stamp : Timestamp
  size : Nat
  src : Mem
  size_min : 24 ≤ size
  size_eq : (src.read32 20).toInt = size
  src_invalid : src.read64 0 = invalidTs

/-! ## The writer -/

/-- The next store of a `writedata` call. -/
inductive Phase where
  | invHigh | invLow
  | copy (i : Nat)
  | dataTest | dataLow | dataHigh
  | valLow | valHigh
  | publish
  deriving DecidableEq, Repr

/-! ## The readers -/

/-- `histscan`'s state (`fsl`, `sl`) and the candidate of the `YOUNGER`
modes. -/
structure Cursor where
  fsl : Int
  sl : Int
  kept : Option Probe

/-- The next load of a `readdata__mode` call. -/
inductive Pc where
  | idle
  | histSlot
  | test (c : Cursor) (first : Bool)
  | deletedTs (c : Cursor)
  | scanHi (c : Cursor)
  | scanLo (c : Cursor) (hi : BitVec 32)
  | dataHi (c : Cursor) (ts : Timestamp)
  | dataLo (c : Cursor) (ts : Timestamp) (hi : BitVec 32)
  | size1 (p : Probe)
  | size2 (p : Probe)
  | copy (p : Probe) (avail : Int) (i : Nat) (buf : Mem)
  | finLo (p : Probe) (avail : Int) (buf : Mem)
  | finHi (p : Probe) (avail : Int) (buf : Mem) (lo : BitVec 32)
  | stale (p : Probe) (buf : Mem)
  | retSize (p : Probe) (buf : Mem)
  | done (ret : Result) (buf : Mem)

/-- A reader: the arguments of its call and its program counter. -/
structure Reader where
  mode : Mode
  ts : Timestamp
  size : Nat
  pc : Pc

structure State where
  historySlot : Int
  deleted : Bool
  ring : Nat → Mem
  writer : Option (Txn × Phase)
  readers : Nat → Reader
  log : List Commit
  cur : Nat → Option Commit

/-- A freshly allocated ring (`kogmo_rtdb_obj_mem_alloc` clears it). -/
def State.init : State where
  historySlot := -1
  deleted := false
  ring _ := .zero
  writer := none
  readers _ := { mode := .last, ts := 0, size := 0, pc := .idle }
  log := []
  cur _ := none

inductive Label where
  /-- a new `writedata` call: the caller's record and the clock reading -/
  | begin (data : Mem) (committedTs : Timestamp)
  /-- the writer's next store -/
  | write
  /-- a new `readdata__mode` call -/
  | start (r : Nat) (mode : Mode) (ts : Timestamp) (size : Nat)
  /-- a reader's next load; `tooOld` is the outcome of its `withhold_stale` test -/
  | read (r : Nat) (tooOld : Bool)
  /-- the object is marked deleted -/
  | delete

/-! ## Steps of the writer -/

/-- `writedata` up to its first store to the ring. -/
def beginTxn (cfg : Cfg) (s : State) (data : Mem) (committedTs : Timestamp) :
    Option Txn :=
  let slot := (nextSlot cfg.historySize s.historySlot).toNat
  if h : 24 ≤ (data.read32 20).toInt ∧ (data.read32 20).toInt ≤ cfg.sizeMax then
    some
      { slot := slot
        stamp := forge cfg.simmode committedTs ((s.ring slot).read64 0)
        size := (data.read32 20).toInt.toNat
        src := commitSource cfg.committedProc data
        size_min := by omega
        size_eq := by
          rw [commitSource_size]
          omega
        src_invalid := commitSource_invalid _ _ }
  else none

/-- The commit a transaction becomes once its stamp is stored. -/
def Txn.commit (t : Txn) : Commit := .of t.src t.size t.stamp t.size_min t.size_eq

/-- The word with index `i` of an `n`-byte `memcpy`; the last word may be
partial. -/
def copyWord (dst src : Mem) (n i : Nat) : Mem := dst.copy (4 * i) src (4 * i) (min 4 (n - 4 * i))

def State.setSlot (s : State) (k : Nat) (m : Mem) : State :=
  { s with ring := Function.update s.ring k m }

def State.setPhase (s : State) (t : Txn) (p : Phase) : State :=
  { s with writer := some (t, p) }

def writeStep (s : State) (t : Txn) : Phase → State
  | .invHigh =>
      (s.setSlot t.slot ((s.ring t.slot).write32 4 0)).setPhase t .invLow
  | .invLow =>
      (s.setSlot t.slot ((s.ring t.slot).write32 0 0)).setPhase t (.copy 0)
  | .copy i =>
      if 4 * i < t.size then
        (s.setSlot t.slot (copyWord (s.ring t.slot) t.src t.size i)).setPhase t (.copy (i + 1))
      else s.setPhase t .dataTest
  | .dataTest =>
      if (s.ring t.slot).read64 12 = invalidTs then s.setPhase t .dataLow
      else s.setPhase t .valLow
  | .dataLow =>
      (s.setSlot t.slot
        ((s.ring t.slot).write32 12 (loWord t.stamp))).setPhase t .dataHigh
  | .dataHigh =>
      (s.setSlot t.slot
        ((s.ring t.slot).write32 16 (hiWord t.stamp))).setPhase t .valLow
  | .valLow =>
      { (s.setSlot t.slot
          ((s.ring t.slot).write32 0 (loWord t.stamp))).setPhase t .valHigh with
        cur := Function.update s.cur t.slot (some t.commit) }
  | .valHigh =>
      { (s.setSlot t.slot
          ((s.ring t.slot).write32 4 (hiWord t.stamp))).setPhase t .publish with
        log := s.log ++ [t.commit] }
  | .publish => { s with writer := none, historySlot := t.slot }

/-! ## Steps of a reader -/

/-- Act on what a time loop decided; `back` moves the cursor one slot back and
makes `histscan`'s wrap-around test. -/
def onVerdict (cfg : Cfg) (c : Cursor) : Verdict → Pc
  | .take p => .size1 p
  | .notFound => .done (.error .notFound) .zero
  | .back kept =>
      let sl := histPos cfg.historySize (c.sl - 1)
      if sl = c.fsl then
        match Mode.atEnd kept with
        | .take p => .size1 p
        | _ => .done (.error .notFound) .zero
      else .test { c with sl := sl, kept := kept } false

/-- `histscan` answered `NULL` at the high-word test. -/
def onNull (c : Cursor) : Pc :=
  match Mode.atEnd c.kept with
  | .take p => .size1 p
  | _ => .done (.error .notFound) .zero

/-- The reader's next load (and the local work up to the one after it). -/
def readStep (cfg : Cfg) (s : State) (r : Reader) (tooOld : Bool) : Pc :=
  match r.pc with
  | .idle => .idle
  | .histSlot =>
      .test { fsl := s.historySlot, sl := histPos cfg.historySize s.historySlot, kept := none }
        true
  | .test c first =>
      if (s.ring c.sl.toNat).read32 4 = 0 then onNull c
      else if first ∧ r.mode = .last then .deletedTs c
      else .scanHi c
  | .deletedTs c =>
      if r.ts = invalidTs ∧ s.deleted then .done (.error .notFound) .zero else .scanHi c
  | .scanHi c => .scanLo c ((s.ring c.sl.toNat).read32 4)
  | .scanLo c hi =>
      let ts := ofWords hi ((s.ring c.sl.toNat).read32 0)
      if r.mode.usesDataTs then .dataHi c ts
      else onVerdict cfg c (r.mode.verdict r.ts c.kept ⟨c.sl, ts, 0⟩)
  | .dataHi c ts => .dataLo c ts ((s.ring c.sl.toNat).read32 16)
  | .dataLo c ts hi =>
      let dataTs := ofWords hi ((s.ring c.sl.toNat).read32 12)
      onVerdict cfg c (r.mode.verdict r.ts c.kept ⟨c.sl, ts, dataTs⟩)
  | .size1 p =>
      if ((s.ring p.slot.toNat).read32 20).toInt ≤ r.size then .size2 p
      else .copy p r.size 0 .zero
  | .size2 p => .copy p ((s.ring p.slot.toNat).read32 20).toInt 0 .zero
  | .copy p avail i buf =>
      if 4 * i < avail.toNat then
        .copy p avail (i + 1) (copyWord buf (s.ring p.slot.toNat) avail.toNat i)
      else .finLo p avail (buf.write32 20 (BitVec.ofInt 32 avail))
  | .finLo p avail buf => .finHi p avail buf ((s.ring p.slot.toNat).read32 0)
  | .finHi p _ buf lo =>
      let finalTs := ofWords ((s.ring p.slot.toNat).read32 4) lo
      let buf := buf.write64 0 finalTs
      if finalTs ≠ p.ts then .done (.error .histWrap) buf
      else if cfg.withholdStale then .stale p buf
      else .retSize p buf
  | .stale p buf => if tooOld then .done (.error .tooFast) buf else .retSize p buf
  | .retSize p buf => .done (.ok ((s.ring p.slot.toNat).read32 20).toInt) buf
  | .done ret buf => .done ret buf

/-! ## The system -/

def State.setReader (s : State) (r : Nat) (rd : Reader) : State :=
  { s with readers := Function.update s.readers r rd }

/-- One step of one party. A `writedata` call starts when the writer is idle and
its stamp is beyond every stamp committed so far. -/
def step (cfg : Cfg) (s : State) : Label → Option State
  | .begin data committedTs =>
      match s.writer, beginTxn cfg s data committedTs with
      | none, some t =>
          if ∀ c ∈ s.log, c.stamp.toInt < t.stamp.toInt then some (s.setPhase t .invHigh)
          else none
      | _, _ => none
  | .write => s.writer.map fun w => writeStep s w.1 w.2
  | .start r mode ts size =>
      some (s.setReader r { mode := mode, ts := ts, size := size, pc := .histSlot })
  | .read r tooOld =>
      some (s.setReader r
        { s.readers r with pc := readStep cfg s (s.readers r) tooOld })
  | .delete => some { s with deleted := true }

def lts (cfg : Cfg) : Lts State Label where
  init s := s = State.init
  step := step cfg

end KogmoRtdb.WordModel
