import KogmoRtdb.DataPath.ObjdataSlot
import KogmoRtdb.DataPath.Writer

/-!
# Who reads what

`read_deny` keeps the data of an object from other processes. That a process learns nothing of
it is a statement about two runs: it makes the same calls in two databases that differ in nothing
but the payload of the object's records, and is told the same.

`kogmo_rtdb_obj_readdata__mode` asks for permission before it looks into the ring, and all but
the functions of `kogmo_rtdb_objdata_slot.c` go through it. Those look without asking. So the two
runs are the same as long as no call by history slot finds a record of the object to hand out.
-/

namespace KogmoRtdb

/-! ## The calls -/

/-- What surrounds the calls of a process: what others have made of the database at each of its
looks, the clock, and the waits that time out. -/
structure Surround where
  looks : Nat → Db
  now : Nat → Timestamp
  timedOut : Nat → Bool

/-- What a call tells: its answer, the caller's buffer, and the pointer that it hands out with the
record there. -/
structure ReadAnswer where
  ret : Result
  buf : Mem
  shown : Option (Int × Mem)

def pointee (heap : Heap) (r : Int × Int) : Int × Mem :=
  (r.1, fun b => if (b : Int) < r.2 then heap.window r.1 b else 0)

def ptrAnswer (heap : Heap) (buf : Mem) : Except Err (Int × Int) → ReadAnswer
  | .error e => { ret := .error e, buf := buf, shown := none }
  | .ok r => { ret := .ok r.2, buf := buf, shown := some (pointee heap r) }

/-- What `_kogmo_rtdb_obj_readdata_waitnext_until` makes of the record it has read: whether it
goes on waiting, and if not, whether it ends with an error. -/
def waitnextJudge (oldTs deletedTs : Timestamp) (out : ReadOut) : Option (Option Err) :=
  match out.ret with
  | .ok _ => if oldTs.toInt < (out.buf.read64 0).toInt then some none else none
  | .error .notFound => if deletedTs ≠ invalidTs then some (some .notFound) else none
  | .error e => some (some e)

/-- The answer with which it gives up waiting. Without notifications it polls. -/
def waitnextTimeout [Rounding] (info : ObjInfo) (noNotifies timedOut : Bool)
    (now wakeupTs : Timestamp) (ret : Result) : Option Result :=
  if noNotifies then
    if wakeupTs ≠ invalidTs ∧ wakeupTs.toInt < (addSecs now info.pollTime).toInt then some ret
    else none
  else if timedOut then some (.error .timeout)
  else none

/-- The loop of `_kogmo_rtdb_obj_readdata_waitnext_until`: the answer if it does not end with new
data, and the looks it has taken. `i` is the object's slot in the table. -/
def waitnextLoop [Rounding] (s : Surround) (h : Handle) (oid : ObjId) (oldTs wakeupTs : Timestamp)
    (noNotifies : Bool) (i : Nat) : Nat → Nat → Option (Option Result × Nat)
  | 0, _ => none
  | fuel + 1, tick =>
      match readdata (s.looks tick) h oid 0 Mem.zero 24 (s.now tick) fuel with
      | none => none
      | some out =>
          let info := (s.looks (tick + 1)).objmeta i
          match waitnextJudge oldTs info.deletedTs out with
          | some none => some (none, tick + 2)
          | some (some e) => some (some (.error e), tick + 2)
          | none =>
              match waitnextTimeout info noNotifies (s.timedOut (tick + 1)) (s.now (tick + 1))
                wakeupTs out.ret with
              | some ret => some (some ret, tick + 2)
              | none => waitnextLoop s h oid oldTs wakeupTs noNotifies i fuel (tick + 2)

/-- `_kogmo_rtdb_obj_readdata_waitnext_until` up to the last read. -/
def waitnext [Rounding] (s : Surround) (h : Handle) (oid : ObjId) (oldTs wakeupTs : Timestamp)
    (fuel tick : Nat) : Option (Option Result × Nat) :=
  match (s.looks tick).findmetaById oid with
  | none => some (some (.error .notFound), tick + 1)
  | some i =>
      waitnextLoop s h oid oldTs wakeupTs
        (((s.looks tick).objmeta i).flags.noNotifies || (s.looks tick).noNotifies) i fuel (tick + 1)

/-- The calls that read. A call by history slot names one of the caller's cursors. -/
inductive ReadCall where
  /-- `kogmo_rtdb_obj_readdata` and its variants -/
  | readdata (mode : Mode) (oid : ObjId) (ts : Timestamp) (buf : Mem) (size : Int)
  /-- their `_ptr` forms -/
  | readdataPtr (mode : Mode) (oid : ObjId) (ts : Timestamp) (buf : Mem)
  /-- `kogmo_rtdb_obj_readdata_waitnext_until`, or `kogmo_rtdb_obj_readdata_waitnext` with a wake-up
  time of 0 -/
  | waitnext (oid : ObjId) (oldTs wakeupTs : Timestamp) (buf : Mem) (size : Int)
  /-- their `_ptr` forms -/
  | waitnextPtr (oid : ObjId) (oldTs wakeupTs : Timestamp) (buf : Mem)
  | slotInit (c : Nat) (oid : ObjId)
  /-- `doPtr`: whether `data_pp` is not `NULL`; `kogmo_rtdb_obj_readdataslot_check` is a call of
  mode 1 without -/
  | slotPtr (c : Nat) (mode : SlotMode) (offset : Int) (buf : Mem) (doPtr : Bool)
  | slotRelative (c : Nat) (offset : Int) (buf : Mem) (size : Int)
  | slotRelativePtr (c : Nat) (offset : Int) (buf : Mem)

/-- The cursors of a process, and the looks it has taken. -/
structure Reader where
  cursors : Nat → ObjSlot
  tick : Nat

/-- The reader after a call with one look that moves a cursor. -/
def Reader.moved (r : Reader) (c : Nat) (objslot : ObjSlot) : Reader where
  cursors := Function.update r.cursors c objslot
  tick := r.tick + 1

/-- A call; `none` when it has not come back. -/
def Reader.call [Rounding] (r : Reader) (s : Surround) (h : Handle) (fuel : Nat) :
    ReadCall → Option (ReadAnswer × Reader)
  | .readdata mode oid ts buf size =>
      (readdataMode (s.looks r.tick) h mode oid ts buf size (s.now r.tick) fuel).map fun out =>
        ({ ret := out.ret, buf := out.buf, shown := none }, { r with tick := r.tick + 1 })
  | .readdataPtr mode oid ts buf =>
      (readdataModePtr (s.looks r.tick) h mode oid ts fuel).map fun ret =>
        (ptrAnswer (s.looks r.tick).heap buf ret, { r with tick := r.tick + 1 })
  | .waitnext oid oldTs wakeupTs buf size =>
      match KogmoRtdb.waitnext s h oid oldTs wakeupTs fuel r.tick with
      | none => none
      | some (some ret, tick) =>
          some ({ ret := ret, buf := buf, shown := none }, { r with tick := tick })
      | some (none, tick) =>
          (readdataMode (s.looks tick) h .last oid 0 buf size (s.now tick) fuel).map fun out =>
            ({ ret := out.ret, buf := out.buf, shown := none }, { r with tick := tick + 1 })
  | .waitnextPtr oid oldTs wakeupTs buf =>
      match KogmoRtdb.waitnext s h oid oldTs wakeupTs fuel r.tick with
      | none => none
      | some (some ret, tick) =>
          some ({ ret := ret, buf := buf, shown := none }, { r with tick := tick })
      | some (none, tick) =>
          (readdataModePtr (s.looks tick) h .last oid 0 fuel).map fun ret =>
            (ptrAnswer (s.looks tick).heap buf ret, { r with tick := tick + 1 })
  | .slotInit c oid =>
      let (ret, objslot) := readdataslotInit (s.looks r.tick) (r.cursors c) oid
      some ({ ret := ret, buf := Mem.zero, shown := none }, r.moved c objslot)
  | .slotPtr c mode offset buf doPtr =>
      let (ret, objslot) := readdataslotPtr (s.looks r.tick) mode offset (r.cursors c)
      some (if doPtr then ptrAnswer (s.looks r.tick).heap buf ret
        else { ret := ret.map (·.2), buf := buf, shown := none }, r.moved c objslot)
  | .slotRelative c offset buf size =>
      let (ret, objslot, buf) :=
        readdataslotRelative (s.looks r.tick) (r.cursors c) offset buf size
      some ({ ret := ret, buf := buf, shown := none }, r.moved c objslot)
  | .slotRelativePtr c offset buf =>
      let (ret, objslot) := readdataslotRelativePtr (s.looks r.tick) (r.cursors c) offset
      some (ptrAnswer (s.looks r.tick).heap buf ret, r.moved c objslot)

/-- A sequence of calls: what each has told, and the cursors after it. It ends with a call that
does not come back. -/
def Reader.run [Rounding] (s : Surround) (h : Handle) (fuel : Nat) :
    List ReadCall → Reader → List (ReadAnswer × Reader)
  | [], _ => []
  | c :: cs, r =>
      match r.call s h fuel c with
      | none => []
      | some (answer, r') => (answer, r') :: Reader.run s h fuel cs r'

/-! ## What may differ -/

/-- The payload of an object's records: of each slot of its ring what is behind the header. -/
def payload (db : Db) (oid : ObjId) : Set Int :=
  {a | ∃ i, db.findmetaById oid = some i ∧ ∃ slot, InRing (db.objmeta i) slot ∧
    ∃ b : Nat, 24 ≤ b ∧ (b : Int) < (db.objmeta i).sizeMax ∧ a = (db.objmeta i).slotAddr slot + b}

/-- Two databases that differ only in the payload of an object's records. -/
def Alike (oid : ObjId) (db db' : Db) : Prop :=
  db' = { db with heap := db'.heap } ∧ ∀ a ∉ payload db oid, db'.heap a = db.heap a

/-- The payload of the object is its own: neither a header nor a record of another object is in
it. -/
structure Separate (oid : ObjId) (db : Db) : Prop where
  cursor : ∀ i, (db.objmeta i).oid ≠ 0 →
    -1 ≤ (db.objmeta i).historySlot ∧ (db.objmeta i).historySlot < (db.objmeta i).historySize
  apart : ∀ i, (db.objmeta i).oid ≠ 0 → ∀ slot, InRing (db.objmeta i) slot → ∀ b : Nat,
    b < 24 ∨ (db.objmeta i).oid ≠ oid ∧ (b : Int) < slotSize db.heap (db.objmeta i) slot →
      (db.objmeta i).slotAddr slot + b ∉ payload db oid

def Denied (h : Handle) (oid : ObjId) (db : Db) : Prop :=
  ∀ i, db.findmetaById oid = some i → (db.objmeta i).readDenied h = true

structure SameOutside (h : Handle) (oid : ObjId) (s s' : Surround) : Prop where
  now : s'.now = s.now
  timedOut : s'.timedOut = s.timedOut
  looks : ∀ k, Alike oid (s.looks k) (s'.looks k)
  separate : ∀ k, Separate oid (s.looks k)
  denied : ∀ k, Denied h oid (s.looks k)

/-! ## What may not happen -/

/-- The cursor is on a slot of the ring, if its object is still there. -/
def ObjSlot.Placed (objslot : ObjSlot) (db : Db) : Prop :=
  0 ≤ objslot.objectSlot → (db.objmeta objslot.objectSlot.toNat).oid = objslot.oid →
    InRing (db.objmeta objslot.objectSlot.toNat) objslot.historySlot

/-- There is a record where a cursor goes, and it is on the right side of the one before. -/
def Yields (heap : Heap) (info : ObjInfo) (mode : SlotMode) (offset : Int) (objslot : ObjSlot) :
    Prop :=
  slotTs heap info (slotPos info.historySize objslot.historySlot offset) ≠ invalidTs ∧
    (mode = .checked → checkSlots (slotTs heap info objslot.historySlot)
      (slotTs heap info (slotPos info.historySize objslot.historySlot offset))
      objslot.committedTs offset = none)

/-- The same for a call in mode 0, which starts from the latest record. -/
def YieldsAt (db : Db) (mode : SlotMode) (offset : Int) (objslot : ObjSlot) : Prop :=
  match mode with
  | .init => ∃ i, db.findmetaById objslot.oid = some i ∧ 0 ≤ (db.objmeta i).historySlot ∧
      Yields db.heap (db.objmeta i) .init 0
        { objslot with historySlot := (db.objmeta i).historySlot }
  | mode => Yields db.heap (db.objmeta objslot.objectSlot.toNat) mode offset objslot

/-- The call names an object, or a cursor that has been set to one, and hands out no payload of
the object `oid` by history slot. -/
def ReadCall.Spares (oid : ObjId) (db : Db) (cursors : Nat → ObjSlot) : ReadCall → Prop
  | .readdata _ o _ _ _ | .readdataPtr _ o _ _ | .waitnext o _ _ _ _ | .waitnextPtr o _ _ _
  | .slotInit _ o => o ≠ 0
  | .slotPtr c mode offset _ doPtr =>
      (cursors c).oid ≠ 0 ∧ (mode ≠ .init → (cursors c).Placed db) ∧
        ((cursors c).oid = oid → doPtr = true → ¬ YieldsAt db mode offset (cursors c))
  | .slotRelative c offset _ size =>
      (cursors c).oid ≠ 0 ∧ (cursors c).Placed db ∧
        ((cursors c).oid = oid → YieldsAt db .checked offset (cursors c) → size ≤ 24)
  | .slotRelativePtr c offset _ =>
      (cursors c).oid ≠ 0 ∧ (cursors c).Placed db ∧
        ((cursors c).oid = oid → ¬ YieldsAt db .checked offset (cursors c))

def SparesAll [Rounding] (oid : ObjId) (s : Surround) (h : Handle) (fuel : Nat) :
    List ReadCall → Reader → Prop
  | [], _ => True
  | c :: cs, r => c.Spares oid (s.looks r.tick) r.cursors ∧
      ∀ answer r', r.call s h fuel c = some (answer, r') → SparesAll oid s h fuel cs r'

/-! ## Two heaps -/

/-- The headers of a ring are the same in two heaps. -/
def SameHeaders (info : ObjInfo) (heap heap' : Heap) : Prop :=
  ∀ slot, InRing info slot → ∀ b < 24, slotWindow heap' info slot b = slotWindow heap info slot b

def SameRecords (info : ObjInfo) (heap heap' : Heap) : Prop :=
  ∀ slot, InRing info slot → ∀ b : Nat, b < 24 ∨ (b : Int) < slotSize heap info slot →
    slotWindow heap' info slot b = slotWindow heap info slot b

variable {heap heap' : Heap} {info : ObjInfo} {slot : Int} {mode : Mode} {h : Handle}
  {oid : ObjId} {db db' : Db}

theorem SameRecords.headers (hs : SameRecords info heap heap') : SameHeaders info heap heap' :=
  fun slot hslot b hb => hs slot hslot b (Or.inl hb)

namespace SameHeaders

theorem read32 (hs : SameHeaders info heap heap') (hslot : InRing info slot) {a : Nat}
    (ha : a + 4 ≤ 24) :
    (slotWindow heap' info slot).read32 a = (slotWindow heap info slot).read32 a :=
  Mem.read32_congr fun b _ hb => hs slot hslot b (by omega)

theorem read64 (hs : SameHeaders info heap heap') (hslot : InRing info slot) {a : Nat}
    (ha : a + 8 ≤ 24) :
    (slotWindow heap' info slot).read64 a = (slotWindow heap info slot).read64 a :=
  Mem.read64_congr fun b _ hb => hs slot hslot b (by omega)

theorem slotSize_eq (hs : SameHeaders info heap heap') (hslot : InRing info slot) :
    slotSize heap' info slot = slotSize heap info slot := by
  unfold slotSize
  rw [hs.read32 hslot (by omega)]

end SameHeaders

/-! ## Searching the history -/

theorem inRing_histPos (h0 : info.historySize ≠ 0) (hlow : -1 ≤ slot)
    (hhigh : slot < info.historySize) : InRing info (histPos info.historySize slot) := by
  have hpos : 0 < info.historySize := by omega
  exact ⟨Int.tmod_nonneg _ (by omega), Int.tmod_lt_of_pos _ hpos⟩

/-- A scan that finds a record has followed the cursor. -/
theorem histscan_slot {adj currslot firstslot : Int} {r : Int × Int}
    (hr : histscan heap info adj currslot firstslot = some r) :
    info.historySize ≠ 0 ∧ r.1 = histPos info.historySize
      (if adj = 0 then info.historySlot else currslot + adj) := by
  unfold histscan at hr
  by_cases h0 : info.historySize = 0
  · rw [if_pos h0] at hr
    nomatch hr
  · rw [if_neg h0] at hr
    refine ⟨h0, ?_⟩
    dsimp only at hr
    generalize histPos info.historySize (if adj = 0 then info.historySlot else currslot + adj) =
      pos at hr ⊢
    generalize (if adj = 0 then info.historySlot else firstslot) = first at hr
    by_cases hwrap : pos = first ∧ adj ≠ 0
    · rw [if_pos hwrap] at hr
      nomatch hr
    · rw [if_neg hwrap] at hr
      split at hr
      · nomatch hr
      · cases hr
        rfl

/-- The scan finds the same slot, and it is in the ring. -/
theorem SameHeaders.histscan (hs : SameHeaders info heap heap') (adj currslot firstslot : Int)
    (hlow : -1 ≤ if adj = 0 then info.historySlot else currslot + adj)
    (hhigh : (if adj = 0 then info.historySlot else currslot + adj) < info.historySize) :
    histscan heap' info adj currslot firstslot = histscan heap info adj currslot firstslot ∧
      ∀ r, KogmoRtdb.histscan heap info adj currslot firstslot = some r → InRing info r.1 := by
  constructor
  · unfold KogmoRtdb.histscan
    by_cases h0 : info.historySize = 0
    · rw [if_pos h0, if_pos h0]
    · rw [if_neg h0, if_neg h0]
      dsimp only
      rw [hs.read32 (inRing_histPos h0 hlow hhigh) (by omega)]
  · intro r hr
    obtain ⟨h0, hslot⟩ := histscan_slot hr
    rw [hslot]
    exact inRing_histPos h0 hlow hhigh

/-- The loop takes the same record, and it is in the ring. -/
theorem SameHeaders.scanLoop (hs : SameHeaders info heap heap') (mode : Mode) (ts : Timestamp) :
    ∀ fuel {currslot : Int} (firstslot : Int) (kept : Option Probe), InRing info currslot →
      (∀ q ∈ kept, InRing info q.slot) →
      scanLoop heap' info mode ts fuel currslot firstslot kept =
          scanLoop heap info mode ts fuel currslot firstslot kept ∧
        ∀ p, KogmoRtdb.scanLoop heap info mode ts fuel currslot firstslot kept = some (.ok p) →
          InRing info p.slot
  | 0, _, _, _, _, _ => ⟨rfl, fun p hp => nomatch hp⟩
  | fuel + 1, currslot, firstslot, kept, hcurr, hkept => by
      have hprobe : probeAt heap' info mode currslot = probeAt heap info mode currslot := by
        unfold probeAt
        rw [hs.read64 hcurr (by omega), hs.read64 hcurr (by omega)]
      obtain ⟨hscan, hring⟩ := hs.histscan (-1) currslot firstslot
        (by rw [if_neg (by decide)]; have := hcurr.1; omega)
        (by rw [if_neg (by decide)]; have := hcurr.2; omega)
      unfold KogmoRtdb.scanLoop
      rw [hprobe]
      cases hv : mode.verdict ts kept (probeAt heap info mode currslot) with
      | take p =>
          refine ⟨rfl, fun q hq => ?_⟩
          cases hq
          rcases Mode.verdict_take hv with rfl | hk
          · exact hcurr
          · exact hkept p hk
      | notFound =>
          refine ⟨rfl, fun q hq => ?_⟩
          cases hq
      | back kept' =>
          have hkept' : ∀ q ∈ kept', InRing info q.slot := fun q hq => by
            rw [Mode.verdict_back hv q hq]
            exact hcurr
          dsimp only
          rw [hscan]
          cases hr : KogmoRtdb.histscan heap info (-1) currslot firstslot with
          | none =>
              refine ⟨rfl, fun q hq => ?_⟩
              cases kept' with
              | none => cases hq
              | some k =>
                  cases hq
                  exact hkept' _ rfl
          | some r => exact hs.scanLoop mode ts fuel _ _ (hring r hr) hkept'

/-! ## Two databases -/

/-- What two databases that differ in a payload have in common. -/
structure Matched (oid : ObjId) (h : Handle) (db db' : Db) : Prop where
  eq : db' = { db with heap := db'.heap }
  cursor : ∀ i, (db.objmeta i).oid ≠ 0 →
    -1 ≤ (db.objmeta i).historySlot ∧ (db.objmeta i).historySlot < (db.objmeta i).historySize
  headers : ∀ i, (db.objmeta i).oid ≠ 0 → SameHeaders (db.objmeta i) db.heap db'.heap
  records : ∀ i, (db.objmeta i).oid ≠ 0 → (db.objmeta i).oid ≠ oid →
    SameRecords (db.objmeta i) db.heap db'.heap
  denied : Denied h oid db

theorem Alike.matched (ha : Alike oid db db') (hsep : Separate oid db) (hd : Denied h oid db) :
    Matched oid h db db' where
  eq := ha.1
  cursor := hsep.cursor
  headers i hi slot hslot b hb := ha.2 _ (hsep.apart i hi slot hslot b (Or.inl hb))
  records i hi hne slot hslot b hb :=
    ha.2 _ (hsep.apart i hi slot hslot b (hb.imp_right fun hlt => ⟨hne, hlt⟩))
  denied := hd

namespace Matched

theorem objmeta (hm : Matched oid h db db') : db'.objmeta = db.objmeta := by rw [hm.eq]

theorem findmetaById (hm : Matched oid h db db') (o : ObjId) :
    db'.findmetaById o = db.findmetaById o := by
  rw [hm.eq]
  rfl

/-- The search selects the same record, and one that the process may read. -/
theorem select (hm : Matched oid h db db') {o : ObjId} (ho : o ≠ 0) (mode : Mode) (ts : Timestamp)
    (fuel : Nat) :
    select db' h mode o ts fuel = select db h mode o ts fuel ∧
      ∀ info p, KogmoRtdb.select db h mode o ts fuel = some (.ok (info, p)) →
        SameRecords info db.heap db'.heap ∧ InRing info p.slot := by
  unfold KogmoRtdb.select
  rw [hm.findmetaById]
  cases hi : db.findmetaById o with
  | none => exact ⟨rfl, fun info p hp => nomatch hp⟩
  | some i =>
      obtain ⟨-, hoid⟩ := Db.findmetaById_some hi
      have hne : (db.objmeta i).oid ≠ 0 := by rwa [hoid]
      obtain ⟨hlow, hhigh⟩ := hm.cursor i hne
      obtain ⟨hscan, hring⟩ := (hm.headers i hne).histscan 0 0 0
        (by rw [if_pos rfl]; exact hlow) (by rw [if_pos rfl]; exact hhigh)
      dsimp only
      rw [hm.objmeta]
      by_cases hbuf : (db.objmeta i).bufferIdx = 0
      · rw [if_pos hbuf, if_pos hbuf]
        exact ⟨rfl, fun info p hp => nomatch hp⟩
      · rw [if_neg hbuf, if_neg hbuf]
        by_cases hden : (db.objmeta i).readDenied h = true
        · rw [if_pos hden, if_pos hden]
          exact ⟨rfl, fun info p hp => nomatch hp⟩
        · have hother : (db.objmeta i).oid ≠ oid := fun heq =>
            hden (hm.denied i (by rw [← heq, hoid]; exact hi))
          rw [if_neg hden, if_neg hden, hscan]
          cases hr : KogmoRtdb.histscan db.heap (db.objmeta i) 0 0 0 with
          | none => exact ⟨rfl, fun info p hp => nomatch hp⟩
          | some r =>
              obtain ⟨hloop, hsel⟩ := (hm.headers i hne).scanLoop mode ts fuel
                r.2 none (hring r hr) (fun q hq => nomatch hq)
              dsimp only
              rw [hloop]
              refine ⟨rfl, fun info p hp => ?_⟩
              split at hp
              · nomatch hp
              · obtain ⟨res, hres, hmap⟩ := Option.map_eq_some_iff.mp hp
                cases res with
                | error e => nomatch hmap
                | ok q =>
                    cases hmap
                    exact ⟨hm.records i hne hother, hsel _ hres⟩

end Matched

/-! ## What is copied and what is shown -/

theorem SameRecords.copyOut [Rounding] (hs : SameRecords info heap heap') {p : Probe}
    (hslot : InRing info p.slot) (size : Int) (buf : Mem) (now : Timestamp) :
    copyOut heap' info p size buf now = copyOut heap info p size buf now :=
  copyOut_congr (hs _ hslot) size buf now

theorem SameRecords.ptrAnswer (hs : SameRecords info heap heap') (hslot : InRing info slot)
    (buf : Mem) :
    ptrAnswer heap' buf (.ok (info.slotAddr slot, slotSize heap' info slot)) =
      ptrAnswer heap buf (.ok (info.slotAddr slot, slotSize heap info slot)) := by
  have hbytes : ∀ b : Nat, (b : Int) < slotSize heap info slot →
      heap'.window (info.slotAddr slot) b = heap.window (info.slotAddr slot) b :=
    fun b hb => hs slot hslot b (Or.inr hb)
  rw [hs.headers.slotSize_eq hslot]
  generalize info.slotAddr slot = addr at hbytes ⊢
  generalize slotSize heap info slot = size at hbytes ⊢
  have hshown : pointee heap' (addr, size) = pointee heap (addr, size) := by
    refine Prod.ext rfl (funext fun b => ?_)
    unfold pointee
    dsimp only
    split
    · rename_i hb
      exact hbytes b hb
    · rfl
  exact congrArg (fun shown => ReadAnswer.mk (.ok size) buf (some shown)) hshown

namespace Matched

variable {ts now : Timestamp} {size : Int} {buf : Mem} {fuel : Nat} {o : ObjId}

theorem readdataMode [Rounding] (hm : Matched oid h db db') (ho : o ≠ 0) :
    readdataMode db' h mode o ts buf size now fuel =
      readdataMode db h mode o ts buf size now fuel := by
  obtain ⟨hsel, hread⟩ := hm.select ho mode ts fuel
  unfold KogmoRtdb.readdataMode
  rw [hsel]
  refine Option.map_congr fun res hres => ?_
  cases res with
  | error e => rfl
  | ok r =>
      obtain ⟨hs, hslot⟩ := hread _ _ hres
      exact hs.copyOut hslot size buf now

theorem readdataModePtr (hm : Matched oid h db db') (ho : o ≠ 0) (mode : Mode) (ts : Timestamp)
    (fuel : Nat) (buf : Mem) :
    (readdataModePtr db' h mode o ts fuel).map (ptrAnswer db'.heap buf) =
      (readdataModePtr db h mode o ts fuel).map (ptrAnswer db.heap buf) := by
  obtain ⟨hsel, hread⟩ := hm.select ho mode ts fuel
  unfold KogmoRtdb.readdataModePtr
  rw [hsel, Option.map_map, Option.map_map]
  refine Option.map_congr fun res hres => ?_
  cases res with
  | error e => simp only [Function.comp_apply, Except.map, ptrAnswer]
  | ok r =>
      obtain ⟨info, p⟩ := r
      obtain ⟨hs, hslot⟩ := hread _ _ hres
      have hptr := hs.ptrAnswer hslot buf
      unfold slotSize at hptr
      simp only [Function.comp_apply, Except.map, hptr]

end Matched

/-! ## Access by history slot -/

variable {objslot objslot' : ObjSlot} {offset : Int}

theorem inRing_slotPos (offset : Int) (hslot : InRing info slot) :
    InRing info (slotPos info.historySize slot offset) := by
  obtain ⟨hlow, hhigh⟩ := hslot
  have hpos : 0 < info.historySize := by omega
  have hoff := Int.lt_tmod_of_pos offset hpos
  exact ⟨Int.tmod_nonneg _ (by omega), Int.tmod_lt_of_pos _ hpos⟩

theorem SameHeaders.readSlot (hs : SameHeaders info heap heap')
    (hslot : InRing info objslot.historySlot) (mode : SlotMode) (offset : Int) :
    readSlot heap' info mode offset objslot = readSlot heap info mode offset objslot := by
  have hpos := inRing_slotPos offset hslot
  unfold KogmoRtdb.readSlot
  dsimp only
  rw [hs.read64 hpos (by omega), hs.read32 hpos (by omega), hs.read64 hslot (by omega)]

theorem readdataslotPtr_seek {smode : SlotMode} (hmode : smode ≠ .init) :
    readdataslotPtr db smode offset objslot =
      if objslot.objectSlot < 0 ∨ objMax ≤ objslot.objectSlot then (.error .invalid, objslot)
      else if objslot.oid ≠ (db.objmeta objslot.objectSlot.toNat).oid then
        (.error .notFound, objslot)
      else readSlot db.heap (db.objmeta objslot.objectSlot.toNat) smode offset objslot := by
  cases smode with
  | init => exact absurd rfl hmode
  | unchecked => rfl
  | checked => rfl

/-- What a call that succeeds has found, and where it leaves the cursor. -/
structure Found (db : Db) (mode : SlotMode) (offset : Int) (objslot objslot' : ObjSlot)
    (r : Int × Int) (i : Nat) (pos : Int) : Prop where
  oid : (db.objmeta i).oid = objslot.oid
  inRing : InRing (db.objmeta i) pos
  ret : r = ((db.objmeta i).slotAddr pos, slotSize db.heap (db.objmeta i) pos)
  cursor : objslot'.oid = objslot.oid ∧ objslot'.objectSlot = i ∧ objslot'.historySlot = pos
  yields : YieldsAt db mode offset objslot

theorem Found.placed {smode : SlotMode} {r : Int × Int} {i : Nat} {pos : Int}
    (hf : Found db smode offset objslot objslot' r i pos) : objslot'.Placed db := by
  obtain ⟨-, hi, hpos⟩ := hf.cursor
  intro _ _
  rw [hi, hpos, Int.toNat_natCast]
  exact hf.inRing

theorem readdataslotPtr_oid (db : Db) (smode : SlotMode) (offset : Int) (objslot : ObjSlot) :
    (readdataslotPtr db smode offset objslot).2.oid = objslot.oid := by
  have hread (info : ObjInfo) (smode : SlotMode) (offset : Int) (objslot : ObjSlot) :
      (readSlot db.heap info smode offset objslot).2.oid = objslot.oid := by
    cases hr : readSlot db.heap info smode offset objslot with
    | mk r objslot' =>
        cases r with
        | error e => rw [(readSlot_error rfl hr).1]
        | ok r => rw [(readSlot_ok rfl hr).2.2.1]
  unfold readdataslotPtr
  split
  · split
    · rfl
    · dsimp only
      split
      · rfl
      · exact hread _ _ _ _
  · split
    · rfl
    · dsimp only
      split
      · rfl
      · exact hread _ _ _ _

namespace Matched

variable {smode : SlotMode} {r : Int × Int} {ret : Except Err (Int × Int)} {buf : Mem} {size : Int}

theorem latest_inRing (hm : Matched oid h db db') {i : Nat} (hi : (db.objmeta i).oid ≠ 0)
    (hlow : ¬ (db.objmeta i).historySlot < 0) :
    InRing (db.objmeta i) (db.objmeta i).historySlot :=
  ⟨Int.not_lt.mp hlow, (hm.cursor i hi).2⟩

theorem readdataslotPtr (hm : Matched oid h db db') (hoid : objslot.oid ≠ 0)
    (hplaced : smode ≠ .init → objslot.Placed db) :
    readdataslotPtr db' smode offset objslot = readdataslotPtr db smode offset objslot := by
  by_cases hinit : smode = .init
  · subst hinit
    unfold KogmoRtdb.readdataslotPtr
    dsimp only
    rw [hm.findmetaById, hm.objmeta]
    cases hi : db.findmetaById objslot.oid with
    | none => rfl
    | some i =>
        have hne : (db.objmeta i).oid ≠ 0 := by rwa [(Db.findmetaById_some hi).2]
        dsimp only
        by_cases hlow : (db.objmeta i).historySlot < 0
        · rw [if_pos hlow, if_pos hlow]
        · rw [if_neg hlow, if_neg hlow]
          exact (hm.headers i hne).readSlot (hm.latest_inRing hne hlow) .init 0
  · rw [readdataslotPtr_seek hinit, readdataslotPtr_seek hinit, hm.objmeta]
    by_cases hbounds : objslot.objectSlot < 0 ∨ objMax ≤ objslot.objectSlot
    · rw [if_pos hbounds, if_pos hbounds]
    · rw [if_neg hbounds, if_neg hbounds]
      by_cases heq : objslot.oid = (db.objmeta objslot.objectSlot.toNat).oid
      · rw [if_neg (not_not.mpr heq), if_neg (not_not.mpr heq)]
        exact (hm.headers _ (by rwa [← heq])).readSlot
          (hplaced hinit (by omega) heq.symm) smode offset
      · rw [if_pos heq, if_pos heq]

theorem readdataslotPtr_found (hm : Matched oid h db db') (hoid : objslot.oid ≠ 0)
    (hplaced : smode ≠ .init → objslot.Placed db)
    (hread : KogmoRtdb.readdataslotPtr db smode offset objslot = (.ok r, objslot')) :
    ∃ i pos, Found db smode offset objslot objslot' r i pos := by
  by_cases hinit : smode = .init
  · subst hinit
    unfold KogmoRtdb.readdataslotPtr at hread
    dsimp only at hread
    cases hi : db.findmetaById objslot.oid with
    | none =>
        rw [hi] at hread
        nomatch hread
    | some i =>
        rw [hi] at hread
        dsimp only at hread
        have hfound := (Db.findmetaById_some hi).2
        have hne : (db.objmeta i).oid ≠ 0 := by rwa [hfound]
        by_cases hlow : (db.objmeta i).historySlot < 0
        · rw [if_pos hlow] at hread
          nomatch hread
        · rw [if_neg hlow] at hread
          obtain ⟨hts, hr, hcursor, -⟩ := readSlot_ok rfl hread
          refine ⟨i, _, hfound, inRing_slotPos _ (hm.latest_inRing hne hlow), hr,
            by rw [hcursor]; exact ⟨rfl, rfl, rfl⟩, i, hi, Int.not_lt.mp hlow, hts, fun h => ?_⟩
          nomatch h
  · rw [readdataslotPtr_seek hinit] at hread
    by_cases hbounds : objslot.objectSlot < 0 ∨ objMax ≤ objslot.objectSlot
    · rw [if_pos hbounds] at hread
      nomatch hread
    · rw [if_neg hbounds] at hread
      by_cases heq : objslot.oid = (db.objmeta objslot.objectSlot.toNat).oid
      · rw [if_neg (not_not.mpr heq)] at hread
        obtain ⟨hts, hr, hcursor, hcheck⟩ := readSlot_ok rfl hread
        have hnonneg : 0 ≤ objslot.objectSlot := by omega
        refine ⟨objslot.objectSlot.toNat, _, heq.symm,
          inRing_slotPos _ (hplaced hinit hnonneg heq.symm), hr, ?_, ?_⟩
        · rw [hcursor]
          exact ⟨rfl, (Int.toNat_of_nonneg hnonneg).symm, rfl⟩
        · cases smode with
          | init => exact absurd rfl hinit
          | unchecked => exact ⟨hts, hcheck⟩
          | checked => exact ⟨hts, hcheck⟩
      · rw [if_pos heq] at hread
        nomatch hread

theorem found_records (hm : Matched oid h db db') (hoid : objslot.oid ≠ 0)
    (hother : objslot.oid ≠ oid) {i : Nat} {pos : Int}
    (hf : Found db smode offset objslot objslot' r i pos) :
    SameRecords (db.objmeta i) db.heap db'.heap :=
  hm.records i (by rwa [hf.oid]) (by rwa [hf.oid])

theorem slotAnswer (hm : Matched oid h db db') (buf : Mem) (hoid : objslot.oid ≠ 0)
    (hplaced : smode ≠ .init → objslot.Placed db)
    (hspare : objslot.oid = oid → ¬ YieldsAt db smode offset objslot)
    (hread : KogmoRtdb.readdataslotPtr db smode offset objslot = (ret, objslot')) :
    ptrAnswer db'.heap buf ret = ptrAnswer db.heap buf ret := by
  cases ret with
  | error e => rfl
  | ok r =>
      obtain ⟨i, pos, hf⟩ := hm.readdataslotPtr_found hoid hplaced hread
      have hs := hm.found_records hoid (fun heq => hspare heq hf.yields) hf
      have hptr := hs.ptrAnswer hf.inRing buf
      rwa [hs.headers.slotSize_eq hf.inRing, ← hf.ret] at hptr

/-- The cursor is set again in the same way after a call. -/
theorem reinit (hm : Matched oid h db db') (hoid : objslot.oid ≠ 0) {smode : SlotMode}
    {res : Except Err (Int × Int)} {objslot' : ObjSlot}
    (hread : KogmoRtdb.readdataslotPtr db smode offset objslot = (res, objslot')) :
    KogmoRtdb.readdataslotPtr db' .init 0 objslot' =
      KogmoRtdb.readdataslotPtr db .init 0 objslot' := by
  have hcursor := readdataslotPtr_oid db smode offset objslot
  rw [hread] at hcursor
  exact hm.readdataslotPtr (by rwa [hcursor]) fun hne => absurd rfl hne

theorem readdataslotRelativePtr (hm : Matched oid h db db') (hoid : objslot.oid ≠ 0)
    (hplaced : objslot.Placed db) :
    readdataslotRelativePtr db' objslot offset = readdataslotRelativePtr db objslot offset := by
  unfold KogmoRtdb.readdataslotRelativePtr
  rw [hm.readdataslotPtr hoid fun _ => hplaced]
  cases hread : KogmoRtdb.readdataslotPtr db .checked offset objslot with
  | mk ret objslot' =>
      cases ret <;> dsimp only <;> rw [hm.reinit hoid hread]

theorem readdataslotRelative (hm : Matched oid h db db') (hoid : objslot.oid ≠ 0)
    (hplaced : objslot.Placed db)
    (hspare : objslot.oid = oid → YieldsAt db .checked offset objslot → size ≤ 24) :
    readdataslotRelative db' objslot offset buf size =
      readdataslotRelative db objslot offset buf size := by
  unfold KogmoRtdb.readdataslotRelative
  rw [hm.readdataslotPtr hoid fun _ => hplaced]
  cases hread : KogmoRtdb.readdataslotPtr db .checked offset objslot with
  | mk ret objslot' =>
      cases ret with
      | error e =>
          dsimp only
          rw [hm.reinit hoid hread]
      | ok r =>
          obtain ⟨i, pos, hf⟩ := hm.readdataslotPtr_found hoid (fun _ => hplaced) hread
          have hoid' : objslot'.oid ≠ 0 := by rwa [hf.cursor.1]
          have hcopy : ∀ b < (if r.2 < size then r.2 else size).toNat,
              db'.heap.window r.1 b = db.heap.window r.1 b := by
            intro b hb
            have hbsize : (b : Int) < r.2 ∧ (b : Int) < size := by split at hb <;> omega
            rw [hf.ret] at hbsize ⊢
            by_cases heq : objslot.oid = oid
            · have hsmall := hspare heq hf.yields
              exact hm.headers i (by rwa [hf.oid]) pos hf.inRing b (by omega)
            · exact hm.found_records hoid heq hf pos hf.inRing b (Or.inr hbsize.1)
          dsimp only
          rw [copy_eq_of_take hcopy, hm.reinit hoid hread,
            hm.readdataslotPtr hoid' fun _ => hf.placed]
          cases hread' : KogmoRtdb.readdataslotPtr db .checked 0 objslot' with
          | mk ret' objslot'' =>
              cases ret' <;> dsimp only <;> rw [hm.reinit hoid' hread']

end Matched

/-! ## Two runs -/

namespace SameOutside

variable {s s' : Surround} {oldTs wakeupTs : Timestamp} {o : ObjId}

theorem matched (hs : SameOutside h oid s s') (k : Nat) :
    Matched oid h (s.looks k) (s'.looks k) :=
  (hs.looks k).matched (hs.separate k) (hs.denied k)

theorem waitnextLoop [Rounding] (hs : SameOutside h oid s s') (ho : o ≠ 0) (noNotifies : Bool)
    (i : Nat) : ∀ fuel tick, waitnextLoop s' h o oldTs wakeupTs noNotifies i fuel tick =
      waitnextLoop s h o oldTs wakeupTs noNotifies i fuel tick
  | 0, _ => rfl
  | fuel + 1, tick => by
      have hread : readdata (s'.looks tick) h o 0 Mem.zero 24 (s.now tick) fuel =
          readdata (s.looks tick) h o 0 Mem.zero 24 (s.now tick) fuel :=
        (hs.matched tick).readdataMode ho
      unfold KogmoRtdb.waitnextLoop
      rw [hs.now, hs.timedOut, hread, (hs.matched (tick + 1)).objmeta]
      simp only [hs.waitnextLoop ho noNotifies i fuel (tick + 2)]

theorem waitnext [Rounding] (hs : SameOutside h oid s s') (ho : o ≠ 0) (oldTs wakeupTs : Timestamp)
    (fuel tick : Nat) :
    waitnext s' h o oldTs wakeupTs fuel tick = waitnext s h o oldTs wakeupTs fuel tick := by
  have hflag : (s'.looks tick).noNotifies = (s.looks tick).noNotifies := by
    rw [(hs.matched tick).eq]
  unfold KogmoRtdb.waitnext
  rw [(hs.matched tick).findmetaById, (hs.matched tick).objmeta, hflag]
  simp only [hs.waitnextLoop ho]

/-- A call that spares the object is answered alike, and leaves the cursors alike. -/
theorem call [Rounding] (hs : SameOutside h oid s s') (fuel : Nat) (r : Reader) {c : ReadCall}
    (hc : c.Spares oid (s.looks r.tick) r.cursors) : r.call s' h fuel c = r.call s h fuel c := by
  have hm := hs.matched r.tick
  cases c with
  | readdata mode o ts buf size =>
      have hread : readdataMode (s'.looks r.tick) h mode o ts buf size (s.now r.tick) fuel =
          readdataMode (s.looks r.tick) h mode o ts buf size (s.now r.tick) fuel :=
        hm.readdataMode hc
      unfold Reader.call
      dsimp only
      rw [hs.now, hread]
  | readdataPtr mode o ts buf =>
      have hread := congrArg
        (Option.map fun a : ReadAnswer => (a, ({ r with tick := r.tick + 1 } : Reader)))
        (hm.readdataModePtr hc mode ts fuel buf)
      rw [Option.map_map, Option.map_map] at hread
      exact hread
  | waitnext o oldTs wakeupTs buf size =>
      have hwait := hs.waitnext hc oldTs wakeupTs fuel r.tick
      unfold Reader.call
      dsimp only
      rw [hwait]
      cases hw : KogmoRtdb.waitnext s h o oldTs wakeupTs fuel r.tick with
      | none => rfl
      | some w =>
          obtain ⟨ret | ret, tick⟩ := w
          · have hread : readdataMode (s'.looks tick) h .last o 0 buf size (s.now tick) fuel =
                readdataMode (s.looks tick) h .last o 0 buf size (s.now tick) fuel :=
              (hs.matched tick).readdataMode hc
            dsimp only
            rw [hs.now, hread]
          · rfl
  | waitnextPtr o oldTs wakeupTs buf =>
      have hwait := hs.waitnext hc oldTs wakeupTs fuel r.tick
      unfold Reader.call
      dsimp only
      rw [hwait]
      cases hw : KogmoRtdb.waitnext s h o oldTs wakeupTs fuel r.tick with
      | none => rfl
      | some w =>
          obtain ⟨ret | ret, tick⟩ := w
          · have hread := congrArg
              (Option.map fun a : ReadAnswer => (a, ({ r with tick := tick + 1 } : Reader)))
              ((hs.matched tick).readdataModePtr hc .last 0 fuel buf)
            rw [Option.map_map, Option.map_map] at hread
            exact hread
          · rfl
  | slotInit c o =>
      have hread : readdataslotPtr (s'.looks r.tick) .init 0 { r.cursors c with oid := o } =
          readdataslotPtr (s.looks r.tick) .init 0 { r.cursors c with oid := o } :=
        hm.readdataslotPtr hc fun hne => absurd rfl hne
      unfold Reader.call readdataslotInit
      dsimp only
      rw [hread]
  | slotPtr c mode offset buf doPtr =>
      obtain ⟨ho, hplaced, hspare⟩ := hc
      unfold Reader.call
      dsimp only
      rw [hm.readdataslotPtr ho hplaced]
      cases doPtr with
      | false => rfl
      | true =>
          cases hread : readdataslotPtr (s.looks r.tick) mode offset (r.cursors c) with
          | mk ret objslot' =>
              have hanswer := hm.slotAnswer buf ho hplaced
                (fun heq => hspare heq rfl) hread
              rw [if_pos rfl, if_pos rfl, hanswer]
  | slotRelative c offset buf size =>
      obtain ⟨ho, hplaced, hspare⟩ := hc
      unfold Reader.call
      dsimp only
      rw [hm.readdataslotRelative ho hplaced hspare]
  | slotRelativePtr c offset buf =>
      obtain ⟨ho, hplaced, hspare⟩ := hc
      unfold Reader.call
      dsimp only
      rw [hm.readdataslotRelativePtr ho hplaced]
      unfold KogmoRtdb.readdataslotRelativePtr
      cases hread : readdataslotPtr (s.looks r.tick) .checked offset (r.cursors c) with
      | mk ret objslot' =>
          have hanswer := hm.slotAnswer buf ho (fun _ => hplaced) hspare hread
          cases ret with
          | error e => rfl
          | ok ret =>
              dsimp only
              split
              · rw [hanswer]
              · rw [hanswer]

end SameOutside

/-- Calls that spare an object are told the same whatever its payload is. -/
theorem Reader.run_eq_of_sparesAll [Rounding] {s s' : Surround} (hs : SameOutside h oid s s')
    (fuel : Nat) (calls : List ReadCall) (r : Reader) (hspares : SparesAll oid s h fuel calls r) :
    Reader.run s' h fuel calls r = Reader.run s h fuel calls r := by
  induction calls generalizing r with
  | nil => rfl
  | cons c cs ih =>
      obtain ⟨hc, hrest⟩ := hspares
      unfold Reader.run
      rw [hs.call fuel r hc]
      cases hcall : r.call s h fuel c with
      | none => rfl
      | some a =>
          dsimp only
          rw [ih a.2 (hrest a.1 a.2 hcall)]

/-! ## A secret -/

/-- The object 5 of the process 2, with a ring of one slot at 8. -/
def secretInfo : ObjInfo where
  oid := 5
  createdTs := 1
  createdProc := 2
  parentOid := 1
  sizeMax := 32
  historySize := 1
  historySlot := 0
  bufferIdx := 8
  flags := { readDeny := true }

/-- It holds a record of 32 bytes whose payload starts with `secret`. -/
def secretDb (secret : Byte) : Db where
  objmeta i := if i = 0 then secretInfo else {}
  objmetaFree := objMax - 1
  objmetaOidNext := 6
  heap a := if a = 8 then 1 else if a = 12 then 1 else if a = 28 then 32
    else if a = 32 then secret else 0
  heapSize := 4096
  heapFree := 4064
  heapUsed := 32
  defaultKeepDeletedInterval := 10
  noNotifies := false
  simmode := false

def secretLooks (secret : Byte) : Surround where
  looks _ := secretDb secret
  now _ := 100
  timedOut _ := false

theorem secretDb_slot {secret : Byte} {i : Nat} (hi : ((secretDb secret).objmeta i).oid ≠ 0) :
    i = 0 := by
  by_contra hne
  unfold secretDb at hi
  dsimp only at hi
  rw [if_neg hne] at hi
  exact hi rfl

theorem secretDb_find (secret : Byte) : (secretDb secret).findmetaById 5 = some 0 := by
  have hmem : 0 < objMax := by unfold objMax; decide
  obtain ⟨n, hn⟩ := Nat.exists_eq_succ_of_ne_zero (Nat.ne_of_gt hmem)
  unfold Db.findmetaById
  rw [hn, List.range_succ_eq_map]
  rfl

theorem secretInfo_addr : secretInfo.slotAddr 0 = 8 := by decide +kernel

theorem secretInfo_ring {slot : Int} : InRing secretInfo slot ↔ slot = 0 := by
  unfold InRing secretInfo
  dsimp only
  omega

theorem mem_payload_secretDb {secret : Byte} {a : Int} :
    a ∈ payload (secretDb secret) 5 ↔ 32 ≤ a ∧ a < 40 := by
  constructor
  · rintro ⟨i, hi, slot, hslot, b, hlow, hhigh, rfl⟩
    rw [secretDb_find] at hi
    cases hi
    have hslot : slot = 0 := secretInfo_ring.mp hslot
    have hhigh : (b : Int) < 32 := hhigh
    have haddr : ((secretDb secret).objmeta 0).slotAddr 0 = 8 := secretInfo_addr
    rw [hslot, haddr]
    omega
  · rintro ⟨hlow, hhigh⟩
    have hlt : (((a - 8).toNat : Nat) : Int) < 32 := by omega
    have haddr : ((secretDb secret).objmeta 0).slotAddr 0 = 8 := secretInfo_addr
    refine ⟨0, secretDb_find secret, 0, secretInfo_ring.mpr rfl, (a - 8).toNat, by omega, hlt, ?_⟩
    rw [haddr]
    omega

theorem secretDb_separate (secret : Byte) : Separate 5 (secretDb secret) where
  cursor i hi := by
    have hcursor : -1 ≤ secretInfo.historySlot ∧
        secretInfo.historySlot < secretInfo.historySize := by decide
    rw [secretDb_slot hi]
    exact hcursor
  apart i hi slot hslot b hb hmem := by
    obtain rfl := secretDb_slot hi
    have hslot : slot = 0 := secretInfo_ring.mp hslot
    have haddr : ((secretDb secret).objmeta 0).slotAddr 0 = 8 := secretInfo_addr
    rw [mem_payload_secretDb, hslot, haddr] at hmem
    rcases hb with hb | ⟨hne, -⟩
    · omega
    · exact hne rfl

/-- Two secrets are two databases that the process 3 should not tell apart. -/
theorem secretLooks_sameOutside (secret secret' : Byte) :
    SameOutside ⟨3, false⟩ 5 (secretLooks secret) (secretLooks secret') where
  now := rfl
  timedOut := rfl
  looks _ := by
    refine ⟨rfl, fun a ha => ?_⟩
    have hne : a ≠ 32 := fun heq => ha (mem_payload_secretDb.mpr ⟨by omega, by omega⟩)
    unfold secretLooks secretDb
    dsimp only
    rw [if_neg hne, if_neg hne]
  separate _ := secretDb_separate secret
  denied _ i hi := by
    have hi' : some 0 = some i := (secretDb_find secret).symm.trans hi
    cases hi'
    rfl

/-- The process asks for the record, and sets a cursor to it. -/
theorem run_eq_of_sparesAll_secret :
    Reader.run (secretLooks 9) ⟨3, false⟩ 5 [.readdata .last 5 0 Mem.zero 32, .slotInit 0 5]
        ⟨fun _ => ⟨0, 0, 0, 0⟩, 0⟩ =
      Reader.run (secretLooks 7) ⟨3, false⟩ 5 [.readdata .last 5 0 Mem.zero 32, .slotInit 0 5]
        ⟨fun _ => ⟨0, 0, 0, 0⟩, 0⟩ := by
  have hoid : (5 : ObjId) ≠ 0 := by decide
  exact Reader.run_eq_of_sparesAll (secretLooks_sameOutside 7 9) 5 _ _
    ⟨hoid, fun _ _ _ => ⟨hoid, fun _ _ _ => trivial⟩⟩

/-- The process reads the record by history slot. -/
theorem exists_run_ne :
    SameOutside ⟨3, false⟩ 5 (secretLooks 7) (secretLooks 9) ∧
      Reader.run (secretLooks 9) ⟨3, false⟩ 5 [.slotInit 0 5, .slotRelative 0 0 Mem.zero 32]
          ⟨fun _ => ⟨0, 0, 0, 0⟩, 0⟩ ≠
        Reader.run (secretLooks 7) ⟨3, false⟩ 5 [.slotInit 0 5, .slotRelative 0 0 Mem.zero 32]
          ⟨fun _ => ⟨0, 0, 0, 0⟩, 0⟩ := by
  refine ⟨secretLooks_sameOutside 7 9, fun heq => ?_⟩
  have hbuf := congrArg (List.map fun a : ReadAnswer × Reader => a.1.buf 24) heq
  exact absurd hbuf (by decide +kernel)

end KogmoRtdb
