import KogmoRtdb.Meta.SlotAccess
import KogmoRtdb.Meta.SlotRings

/-!
# When the slot API is safe

A call of the slot API is safe if the handle is at a place of its object's ring
(`Cursor.InPlace`), or is turned away. A handle gets to such a place by an `init` that finds
a write; an `init` that fails does not tell the later calls, and these go on from the place
-1 of an object without writes, whose `history_size` may even be 0.
-/

namespace KogmoRtdb

variable {env : Env} {limit : Int} {n : Nat} {db db' : Db} {mode : SlotMode} {offset size : Int}
  {objslot : ObjSlot} {c : Cursor}

/-! ## One call -/

/-- The place that the arithmetic comes to is in the ring, also from the place -1. -/
theorem slotPos_mem (hn : 0 < n) {slot : Int} (hlow : -1 ≤ slot) (offset : Int) :
    ∃ k : Nat, k < n ∧ slotPos n slot offset = k := by
  have h1 : -(n : Int) < offset.tmod n := Int.lt_tmod_of_pos offset (by omega)
  have h2 : (0 : Int) ≤ slot + offset.tmod n + n := by omega
  obtain ⟨k, hk⟩ := Int.eq_ofNat_of_zero_le (Int.tmod_nonneg (n : Int) h2)
  have h3 := Int.tmod_lt_of_pos (slot + offset.tmod n + n) (show (0 : Int) < n by omega)
  exact ⟨k, by omega, hk⟩

theorem inBuffer_slot {i k : Nat} {off len : Int} (hi : i < objMax)
    (hb : Block (db.objmeta i) n) (hocc : (db.objmeta i).oid ≠ 0) (hk : k < n) (h0 : 0 ≤ off)
    (hend : off + len ≤ (db.objmeta i).sizeMax) :
    InBuffer db (db.objmeta i).oid ((db.objmeta i).slotAddr k + off) len := by
  obtain ⟨h1, h2⟩ := hb.slot_range hk
  exact ⟨hocc, i, hi, rfl, Int.ne_of_gt hb.idx, by omega, by omega⟩

/-- The old record is looked at only where the new one has a stamp. -/
theorem readSlotAccesses_safe {i : Nat} (hi : i < objMax) (hb : Block (db.objmeta i) n)
    (hocc : (db.objmeta i).oid ≠ 0) (hlow : -1 ≤ objslot.historySlot)
    (hplace : mode = .checked → (∃ k : Nat, k < n ∧ objslot.historySlot = k) ∨
      slotTs db.heap (db.objmeta i)
        (slotPos (db.objmeta i).historySize objslot.historySlot offset) = invalidTs) :
    ∀ a ∈ readSlotAccesses db.heap (db.objmeta i) mode offset objslot,
      a.Safe db (db.objmeta i).oid := by
  have h24 := hb.sizeMin
  have hpos := hb.pos
  obtain ⟨k, hk, hslot⟩ := slotPos_mem hpos hlow offset
  rw [← hb.historySize] at hslot
  have hstamp {j : Nat} (hj : j < n) :
      (SlotAccess.read ((db.objmeta i).slotAddr j) 8).Safe db (db.objmeta i).oid := by
    have hbuf : InBuffer db (db.objmeta i).oid ((db.objmeta i).slotAddr j + 0) 8 :=
      inBuffer_slot hi hb hocc hj (Int.le_refl 0) (by omega)
    rwa [Int.add_zero] at hbuf
  have hsize : (SlotAccess.read ((db.objmeta i).slotAddr k + 20) 4).Safe db (db.objmeta i).oid :=
    inBuffer_slot hi hb hocc hk (by decide) (by omega)
  have hrem : (SlotAccess.rem (db.objmeta i).historySize).Safe db (db.objmeta i).oid := by
    show (db.objmeta i).historySize ≠ 0
    rw [hb.historySize]
    omega
  unfold readSlotAccesses
  dsimp only
  rw [hslot] at hplace ⊢
  refine List.forall_mem_cons.mpr ⟨hrem, List.forall_mem_cons.mpr ⟨hstamp hk, ?_⟩⟩
  by_cases hts : slotTs db.heap (db.objmeta i) k = invalidTs
  · rw [if_pos hts]
    intro a ha
    cases ha
  · rw [if_neg hts]
    by_cases hmode : mode = .checked
    · rw [if_pos hmode]
      rcases hplace hmode with ⟨j, hj, hlast⟩ | hnone
      · rw [hlast]
        refine List.forall_mem_cons.mpr ⟨hstamp hj, ?_⟩
        split
        · intro a ha
          cases ha
        · exact List.forall_mem_singleton.mpr hsize
      · exact absurd hnone hts
    · rw [if_neg hmode]
      exact List.forall_mem_singleton.mpr hsize

theorem readSlot_snd (heap : Heap) (info : ObjInfo) (mode : SlotMode) (offset : Int)
    (objslot : ObjSlot) :
    (readSlot heap info mode offset objslot).2.oid = objslot.oid ∧
      (readSlot heap info mode offset objslot).2.objectSlot = objslot.objectSlot ∧
      (readSlot heap info mode offset objslot).2.historySlot =
        slotPos info.historySize objslot.historySlot offset := by
  cases hread : readSlot heap info mode offset objslot with
  | mk res objslot' =>
      cases res with
      | ok r =>
          obtain ⟨-, -, rfl, -⟩ := readSlot_ok rfl hread
          exact ⟨rfl, rfl, rfl⟩
      | error e =>
          obtain ⟨rfl, -⟩ := readSlot_error rfl hread
          exact ⟨rfl, rfl, rfl⟩

/-- A handle that an object turns away stays as it is. -/
theorem readdataslotPtr_turned (hnot : ¬ objslot.AtObject db) :
    ∃ e, readdataslotPtr db .checked offset objslot = (.error e, objslot) := by
  unfold readdataslotPtr
  by_cases hbounds : objslot.objectSlot < 0 ∨ objMax ≤ objslot.objectSlot
  · exact ⟨_, if_pos hbounds⟩
  · dsimp only
    rw [if_neg hbounds, if_pos fun hoid => hnot ⟨hbounds, hoid⟩]
    exact ⟨_, rfl⟩

namespace Cursor

/-- A handle that is at a place of a ring names an object, and if that is still there, the
place is one of its ring. -/
def InPlace (db : Db) (c : Cursor) : Prop :=
  c.placed = true → c.objslot.oid ≠ 0 ∧
    (c.objslot.AtObject db → (db.objmeta c.objslot.objectSlot.toNat).bufferIdx ≠ 0 ∧
      0 ≤ c.objslot.historySlot ∧
      c.objslot.historySlot < (db.objmeta c.objslot.objectSlot.toNat).historySize)

structure Sound (db : Db) (c : Cursor) : Prop where
  inPlace : c.InPlace db
  safe : c.safe = true

def Named (db : Db) (oid : ObjId) : Prop := oid ≠ 0 ∨ db.findmetaById 0 = none

/-- The handle is at a place of a ring, or is turned away by an object that is not its own, or
is at the place -1 of an object's ring and comes to a place without a stamp. -/
def Ready (db : Db) (c : Cursor) (offset : Int) : Prop :=
  c.placed = true ∨ ¬ c.objslot.AtObject db ∨
    c.objslot.oid ≠ 0 ∧ (db.objmeta c.objslot.objectSlot.toNat).bufferIdx ≠ 0 ∧
      c.objslot.historySlot = -1 ∧
      slotTs db.heap (db.objmeta c.objslot.objectSlot.toNat)
        (slotPos (db.objmeta c.objslot.objectSlot.toNat).historySize (-1) offset) = invalidTs

instance (oid : ObjId) : Decidable (Named db oid) := by
  unfold Named
  infer_instance

instance : Decidable (c.Ready db offset) := by
  unfold Ready
  infer_instance

theorem touch_safe {accesses : List SlotAccess} (hsafe : c.safe = true)
    (ha : ∀ a ∈ accesses, a.Safe db c.objslot.oid) : (c.touch db accesses).safe = true := by
  unfold touch
  simp [hsafe, List.all_eq_true]
  exact ha

theorem ptr_init (ht : SlotTable db.objmeta db.heap) (hsafe : c.safe = true)
    (hoid : Named db c.objslot.oid) : (c.ptr db .init 0).2.Sound db := by
  cases hfound : db.findmetaById c.objslot.oid with
  | none =>
      have hread : readdataslotPtr db .init 0 c.objslot = (.error .notFound, c.objslot) := by
        simp only [readdataslotPtr, hfound]
      refine ⟨fun hplaced => ?_, touch_safe hsafe ?_⟩
      · simp [ptr, places, starts, hfound] at hplaced
      · simp [ptrAccesses, hfound]
  | some i =>
      obtain ⟨hi, hioid⟩ := Db.findmetaById_some hfound
      by_cases hneg : (db.objmeta i).historySlot < 0
      · refine ⟨fun hplaced => ?_, touch_safe hsafe ?_⟩
        · simp [ptr, places, starts, hfound] at hplaced
          omega
        · simp [ptrAccesses, hfound, hneg]
      · have hocc : (db.objmeta i).oid ≠ 0 := by
          rw [hioid]
          rcases hoid with hne | hnone
          · exact hne
          · intro h0
            rw [h0, hnone] at hfound
            cases hfound
        have hidx : (db.objmeta i).bufferIdx ≠ 0 := fun h0 => hneg (by
          rw [ht.bare i hocc h0]
          decide)
        obtain ⟨n, hr⟩ := ht.ring i ⟨hocc, hidx⟩
        have hread : readdataslotPtr db .init 0 c.objslot = readSlot db.heap (db.objmeta i) .init 0
            { c.objslot with
              objectSlot := i, historySlot := (db.objmeta i).historySlot
              committedTs := invalidTs } := by
          simp only [readdataslotPtr, hfound, if_neg hneg]
        obtain ⟨k, hk, hslot⟩ := slotPos_mem hr.block.pos hr.low 0
        obtain ⟨ho1, ho2, ho3⟩ := readSlot_snd db.heap (db.objmeta i) .init 0
          { c.objslot with
            objectSlot := i, historySlot := (db.objmeta i).historySlot, committedTs := invalidTs }
        rw [hr.block.historySize, hslot] at ho3
        refine ⟨fun _ => ⟨?_, fun _ => ?_⟩, touch_safe hsafe ?_⟩
        · show (readdataslotPtr db .init 0 c.objslot).2.oid ≠ 0
          rw [hread, ho1]
          exact hioid ▸ hocc
        · show (db.objmeta
              (readdataslotPtr db .init 0 c.objslot).2.objectSlot.toNat).bufferIdx ≠ 0 ∧
            0 ≤ (readdataslotPtr db .init 0 c.objslot).2.historySlot ∧
            (readdataslotPtr db .init 0 c.objslot).2.historySlot <
              (db.objmeta (readdataslotPtr db .init 0 c.objslot).2.objectSlot.toNat).historySize
          rw [hread, ho2, ho3]
          dsimp only
          rw [Int.toNat_natCast, hr.block.historySize]
          exact ⟨hidx, by omega, by omega⟩
        · have hacc : ptrAccesses db .init 0 c.objslot = readSlotAccesses db.heap (db.objmeta i)
              .init 0 { c.objslot with historySlot := (db.objmeta i).historySlot } := by
            simp only [ptrAccesses, hfound, if_neg hneg]
          rw [hacc, ← hioid]
          exact readSlotAccesses_safe hi hr.block hocc hr.low fun hmode => by cases hmode

/-- What a checked call needs and keeps, and what it answers. -/
theorem ptr_checked (ht : SlotTable db.objmeta db.heap) (hc : c.Sound db)
    (hready : c.Ready db offset) :
    (c.ptr db .checked offset).2.Sound db ∧
      (c.ptr db .checked offset).2.objslot.oid = c.objslot.oid ∧
      ∀ r, (c.ptr db .checked offset).1 = .ok r →
        (c.ptr db .checked offset).2.placed = true ∧
          ∀ len ≤ r.2, InBuffer db c.objslot.oid r.1 len := by
  by_cases hat : c.objslot.AtObject db
  · obtain ⟨hbounds, hoid⟩ := hat
    obtain ⟨i, hslot⟩ := Int.eq_ofNat_of_zero_le (show 0 ≤ c.objslot.objectSlot by omega)
    have hi : i < objMax := by omega
    rw [hslot, Int.toNat_natCast] at hoid
    -- the handle names an object with a block, and is at -1 or at a place of its ring
    obtain ⟨hne, hidx, hlow, hplace⟩ : c.objslot.oid ≠ 0 ∧ (db.objmeta i).bufferIdx ≠ 0 ∧
        -1 ≤ c.objslot.historySlot ∧
        (0 ≤ c.objslot.historySlot ∧ c.objslot.historySlot < (db.objmeta i).historySize ∨
          slotTs db.heap (db.objmeta i)
            (slotPos (db.objmeta i).historySize c.objslot.historySlot offset) = invalidTs) := by
      rcases hready with hplaced | hnot | ⟨hne, hidx, hlast, hts⟩
      · obtain ⟨hne, hin⟩ := hc.inPlace hplaced
        have hin := hin ⟨hbounds, by rw [hslot, Int.toNat_natCast]; exact hoid⟩
        rw [hslot, Int.toNat_natCast] at hin
        exact ⟨hne, hin.1, by omega, Or.inl hin.2⟩
      · exact absurd ⟨hbounds, by rw [hslot, Int.toNat_natCast]; exact hoid⟩ hnot
      · rw [hslot, Int.toNat_natCast] at hidx hts
        exact ⟨hne, hidx, by omega, Or.inr (by rw [hlast]; exact hts)⟩
    have hocc : (db.objmeta i).oid ≠ 0 := hoid ▸ hne
    obtain ⟨n, hr⟩ := ht.ring i ⟨hocc, hidx⟩
    have hread : readdataslotPtr db .checked offset c.objslot =
        readSlot db.heap (db.objmeta i) .checked offset c.objslot :=
      readdataslotPtr_eq hi hslot hoid (by decide)
    obtain ⟨k, hk, hpos⟩ := slotPos_mem hr.block.pos hlow offset
    rw [← hr.block.historySize] at hpos
    obtain ⟨ho1, ho2, ho3⟩ := readSlot_snd db.heap (db.objmeta i) .checked offset c.objslot
    have hkeeps : (readdataslotPtr db .checked offset c.objslot).2.oid = c.objslot.oid := by
      rw [hread, ho1]
    refine ⟨⟨fun _ => ⟨hkeeps.trans_ne hne, fun _ => ?_⟩, touch_safe hc.safe ?_⟩, hkeeps,
      fun r hret => ⟨?_, ?_⟩⟩
    · show (db.objmeta
          (readdataslotPtr db .checked offset c.objslot).2.objectSlot.toNat).bufferIdx ≠ 0 ∧
        0 ≤ (readdataslotPtr db .checked offset c.objslot).2.historySlot ∧
        (readdataslotPtr db .checked offset c.objslot).2.historySlot < (db.objmeta
          (readdataslotPtr db .checked offset c.objslot).2.objectSlot.toNat).historySize
      rw [hread, ho2, ho3, hpos, hslot, Int.toNat_natCast, hr.block.historySize]
      exact ⟨hidx, by omega, by omega⟩
    · have hacc : ptrAccesses db .checked offset c.objslot =
          readSlotAccesses db.heap (db.objmeta i) .checked offset c.objslot := by
        have hat : c.objslot.AtObject db :=
          ⟨hbounds, by rw [hslot, Int.toNat_natCast]; exact hoid⟩
        simp only [ptrAccesses, if_pos hat, hslot, Int.toNat_natCast]
      rw [hacc, hoid]
      refine readSlotAccesses_safe hi hr.block hocc hlow fun _ => hplace.imp ?_ id
      rintro ⟨h0, hlt⟩
      rw [hr.block.historySize] at hlt
      obtain ⟨j, hj⟩ := Int.eq_ofNat_of_zero_le h0
      exact ⟨j, by omega, hj⟩
    · have hat : c.objslot.AtObject db :=
        ⟨hbounds, by rw [hslot, Int.toNat_natCast]; exact hoid⟩
      simp [ptr, places, hat]
    · intro len hlen
      have hret : (readdataslotPtr db .checked offset c.objslot).1 = .ok r := hret
      rw [hread] at hret
      have hok : readSlot db.heap (db.objmeta i) .checked offset c.objslot =
          (.ok r, (readSlot db.heap (db.objmeta i) .checked offset c.objslot).2) :=
        Prod.ext hret rfl
      obtain ⟨hts, rfl, -, -⟩ := readSlot_ok hpos hok
      have hsized := hr.sized k hk hts
      have hbuf : InBuffer db (db.objmeta i).oid ((db.objmeta i).slotAddr k + 0) len :=
        inBuffer_slot hi hr.block hocc hk (Int.le_refl 0) (by dsimp only at hlen; omega)
      rw [Int.add_zero] at hbuf
      rwa [hoid]
  · obtain ⟨e, hread⟩ : ∃ e, readdataslotPtr db .checked offset c.objslot =
        (.error e, c.objslot) := readdataslotPtr_turned hat
    have hcursor : (c.ptr db .checked offset).2.objslot = c.objslot := congrArg Prod.snd hread
    have hplaced : (c.ptr db .checked offset).2.placed = c.placed := by
      simp [ptr, places, hat]
    refine ⟨⟨?_, touch_safe hc.safe ?_⟩, congrArg ObjSlot.oid hcursor, fun r hret => ?_⟩
    · unfold InPlace
      rw [hcursor, hplaced]
      exact hc.inPlace
    · simp [ptrAccesses, hat]
    · have hret : (readdataslotPtr db .checked offset c.objslot).1 = .ok r := hret
      rw [hread] at hret
      cases hret

theorem orInit_sound (ht : SlotTable db.objmeta db.heap) {r : Except Err (Int × Int) × Cursor}
    (hc : r.2.Sound db) (hoid : Named db r.2.objslot.oid) : (orInit db r).Sound db := by
  obtain ⟨res, c⟩ := r
  have hinit := ptr_init ht hc.safe hoid
  cases res with
  | error olen => exact hinit
  | ok r =>
      show (if r.2 < 0 then (c.ptr db .init 0).2 else c).Sound db
      by_cases hneg : r.2 < 0
      · rwa [if_pos hneg]
      · rwa [if_neg hneg]

/-- What a call may be given: a size that is not negative, an oid that can be looked up again,
and a handle that is ready. -/
def CallGuard (db : Db) (c : Cursor) : SlotCall → Prop
  | .relative offset size => 0 ≤ size ∧ Named db c.objslot.oid ∧ c.Ready db offset
  | .relativePtr offset => Named db c.objslot.oid ∧ c.Ready db offset
  | .check => c.Ready db 0
  | .ptr offset => c.Ready db offset

theorem relative_sound (ht : SlotTable db.objmeta db.heap) (hc : c.Sound db) (hsize : 0 ≤ size)
    (hoid : Named db c.objslot.oid) (hready : c.Ready db offset) :
    (c.relative db offset size).Sound db := by
  obtain ⟨hs, hkeeps, hret⟩ := ptr_checked ht hc hready
  unfold relative
  cases hptr : c.ptr db .checked offset with
  | mk res c' =>
      rw [hptr] at hs hkeeps hret
      have hoid' : Named db c'.objslot.oid := by rwa [hkeeps]
      cases res with
      | error olen => exact orInit_sound ht hs hoid'
      | ok r =>
          obtain ⟨hplaced, hbuf⟩ := hret r rfl
          dsimp only
          by_cases hneg : r.2 < 0
          · rw [if_pos hneg]
            exact orInit_sound ht hs hoid'
          · rw [if_neg hneg]
            -- the copy stays within the record, and the record within the buffer
            have htouch : (c'.touch db
                [.read r.1 ((if r.2 < size then r.2 else size) % 2 ^ 64)]).Sound db := by
              refine ⟨hs.inPlace, touch_safe hs.safe (List.forall_mem_singleton.mpr ?_)⟩
              show InBuffer db c'.objslot.oid r.1 _
              rw [hkeeps]
              refine hbuf _ ?_
              split <;> omega
            have hready₂ : (c'.touch db
                [.read r.1 ((if r.2 < size then r.2 else size) % 2 ^ 64)]).Ready db 0 :=
              Or.inl hplaced
            obtain ⟨hs₂, hkeeps₂, -⟩ := ptr_checked ht htouch hready₂
            refine orInit_sound ht hs₂ ?_
            rw [hkeeps₂]
            exact hoid'

/-- One call on a handle keeps it, and touches nothing that is not the object's. -/
theorem run_sound (ht : SlotTable db.objmeta db.heap) (hc : c.Sound db) {call : SlotCall}
    (hg : CallGuard db c call) : (c.run db call).Sound db := by
  cases call with
  | relative offset size => exact relative_sound ht hc hg.1 hg.2.1 hg.2.2
  | relativePtr offset =>
      obtain ⟨hs, hkeeps, -⟩ := ptr_checked ht hc hg.2
      exact orInit_sound ht hs (by rw [hkeeps]; exact hg.1)
  | check => exact (ptr_checked ht hc hg).1
  | ptr offset => exact (ptr_checked ht hc hg).1

end Cursor

/-! ## Runs -/

/-- A run of calls on the database and on a handle. `started`: the handle has been
initialised. -/
structure SlotState where
  run : RunState
  cursor : Cursor
  started : Bool

/-- A call on the database, `init`, or another call of the slot API. -/
inductive SlotStep where
  | op (op : Op)
  | init (oid : ObjId)
  | call (call : SlotCall)

/-- The database in use, and a handle of whose contents nothing is known. -/
def slotLts [Rounding] (env : Env) (heapSize : Int) : Lts SlotState SlotStep where
  init s := (apiLts env heapSize).init s.run ∧ s.cursor.placed = false ∧ s.cursor.safe = true ∧
    s.started = false
  step s
    | .op op => ((apiLts env heapSize).step s.run op).map fun run => { s with run := run }
    | .init oid => some { s with cursor := s.cursor.init s.run.world.db oid, started := true }
    | .call call =>
        if s.started then some { s with cursor := s.cursor.run s.run.world.db call } else none

/-- No remainder by zero was computed, and nothing outside the object's buffer looked at. -/
def SlotState.Safe (s : SlotState) : Prop := s.cursor.safe = true

instance (s : SlotState) : Decidable s.Safe := by
  unfold SlotState.Safe
  infer_instance

/-- The steps of a run that leave the handle where it is. -/
def KeepsPlace [Rounding] (env : Env) (s : SlotState) : Op → Prop
  | .insert h metadata => metadata.refused = false →
      RingInsert env h metadata s.run.world ∧
        (s.cursor.placed = true → s.run.world.db.nextOid ≠ s.cursor.objslot.oid)
  | .writedata _ oid _ => oid ≠ 0
  | _ => True

def HandleGuard [Rounding] (env : Env) (s : SlotState) : SlotStep → Prop
  | .op op => OidKnown op ∧ KeepsPlace env s op
  | .init oid => Cursor.Named s.run.world.db oid
  | .call call => Cursor.CallGuard s.run.world.db s.cursor call

theorem ringInsert_iff [Rounding] {h : Handle} {metadata : ObjInfo} {w : World} :
    RingInsert env h metadata w ↔ metadata.sizeMax < 2 ^ 31 ∧
      (initMetadata env h (env.now w.tick) metadata).Fits ∧
      SizedReuse h (env.now w.tick) (initMetadata env h (env.now w.tick) metadata) w.db :=
  ⟨fun ⟨h1, h2, h3⟩ => ⟨h1, h2, h3⟩, fun ⟨h1, h2, h3⟩ => ⟨h1, h2, h3⟩⟩

instance [Rounding] {h : Handle} {metadata : ObjInfo} {w : World} :
    Decidable (RingInsert env h metadata w) := decidable_of_iff' _ ringInsert_iff

instance [Rounding] (s : SlotState) : DecidablePred (KeepsPlace env s)
  | .insert h metadata => inferInstanceAs (Decidable (metadata.refused = false →
      RingInsert env h metadata s.run.world ∧
        (s.cursor.placed = true → s.run.world.db.nextOid ≠ s.cursor.objslot.oid)))
  | .writedata _ oid _ => inferInstanceAs (Decidable (oid ≠ 0))
  | .deleteImm .. | .purgeObjs | .changeinfo .. => isTrue trivial

instance : DecidablePred (Cursor.CallGuard db c)
  | .relative offset size => inferInstanceAs (Decidable
      (0 ≤ size ∧ Cursor.Named db c.objslot.oid ∧ c.Ready db offset))
  | .relativePtr offset => inferInstanceAs (Decidable
      (Cursor.Named db c.objslot.oid ∧ c.Ready db offset))
  | .check => inferInstanceAs (Decidable (c.Ready db 0))
  | .ptr offset => inferInstanceAs (Decidable (c.Ready db offset))

instance [Rounding] (s : SlotState) : DecidablePred (HandleGuard env s)
  | .op op => inferInstanceAs (Decidable (OidKnown op ∧ KeepsPlace env s op))
  | .init oid => inferInstanceAs (Decidable (Cursor.Named s.run.world.db oid))
  | .call call => inferInstanceAs (Decidable (Cursor.CallGuard s.run.world.db s.cursor call))

/-- The buffer of the object in a slot is what it was. -/
def SameBuffer (info info' : ObjInfo) : Prop :=
  info'.oid = info.oid ∧ info'.bufferIdx = info.bufferIdx ∧ info'.historySize = info.historySize

/-- A handle stays in place as long as its object keeps its buffer and no other object
gets its oid. -/
theorem Cursor.InPlace.of_same (hc : c.InPlace db)
    (hsame : c.placed = true → c.objslot.oid ≠ 0 → ∀ i, (db'.objmeta i).oid = c.objslot.oid →
      SameBuffer (db.objmeta i) (db'.objmeta i)) : c.InPlace db' := by
  intro hplaced
  obtain ⟨hne, hin⟩ := hc hplaced
  refine ⟨hne, fun hat => ?_⟩
  obtain ⟨hoid, hidx, hsize⟩ := hsame hplaced hne _ hat.2.symm
  rw [hidx, hsize]
  exact hin ⟨hat.1, hat.2.trans hoid⟩

theorem sameBuffer_effect {w w' : World} (he : Effect env w w') (i : Nat)
    (hocc : (w'.db.objmeta i).oid ≠ 0) : SameBuffer (w.db.objmeta i) (w'.db.objmeta i) := by
  have hs := sameRing_effect he i hocc
  exact ⟨hs.oid, hs.bufferIdx, hs.historySize⟩

theorem sameBuffer_write [Rounding] {h : Handle} {oid : ObjId} {data : Mem} {ts : Timestamp}
    {out : WriteOut} (hout : out = writedata db h oid data ts) (i : Nat) :
    SameBuffer (db.objmeta i) (out.db.objmeta i) := by
  rcases writedata_cases hout with ⟨e, -, hdb⟩ | ⟨j, -, -, -, -, -, hdb⟩ <;> rw [hdb]
  · exact ⟨rfl, rfl, rfl⟩
  · by_cases hij : i = j
    · subst hij
      rw [show (storeRecord db i _ _ _ _).objmeta i = _ from Db.setMeta_objmeta_self ..]
      exact ⟨rfl, rfl, rfl⟩
    · rw [show (storeRecord db j _ _ _ _).objmeta i = _ from Db.setMeta_objmeta_ne hij]
      exact ⟨rfl, rfl, rfl⟩

theorem inPlace_insert [Rounding] {h : Handle} {metadata : ObjInfo} {w w' : World}
    {r : Result × ObjInfo} (hc : c.InPlace w.db)
    (hnew : metadata.refused = false → c.placed = true → w.db.nextOid ≠ c.objslot.oid)
    (hrun : insert env.atomic h metadata w = some (r, w')) : c.InPlace w'.db := by
  refine hc.of_same fun hplaced hne j hj => ?_
  rcases insert_table hrun with ⟨hobj, -⟩ | ⟨i, newIdx, m', w₁, href, hs, -, hcases⟩
  · rw [hobj]
    exact ⟨rfl, rfl, rfl⟩
  · have hother {info : ObjInfo} (hobj : w'.db.objmeta = Function.update w.db.objmeta i info)
        (hoid : info.oid ≠ c.objslot.oid) : SameBuffer (w.db.objmeta j) (w'.db.objmeta j) := by
      rw [hobj] at hj ⊢
      by_cases hji : j = i
      · subst hji
        rw [Function.update_self] at hj
        exact absurd hj hoid
      · rw [Function.update_of_ne hji]
        exact ⟨rfl, rfl, rfl⟩
    generalize w.db.nextOid = oid at hnew hcases
    rcases hcases with ⟨-, -, hobj⟩ | ⟨-, -, hobj⟩
    · refine hother hobj ?_
      rw [show m'.oid = 0 from hs.db_eq.2.2]
      exact hne.symm
    · exact hother hobj (hnew href hplaced)

structure SlotInv (limit : Int) (s : SlotState) : Prop where
  owned : OwnedWorld limit s.run.world.accepted
  table : SlotTable s.run.world.db.objmeta s.run.world.db.heap
  cursor : s.cursor.Sound s.run.world.db

theorem slotInv_op [Rounding] {heapSize : Int} {s : SlotState} {run : RunState} {op : Op}
    (hf : AllocSound limit env.alloc) (hr : RefusesNegative env.alloc) (hlimit : limit < 2 ^ 31)
    (hI : SlotInv limit s) (hoid : OidKnown op) (hkeep : KeepsPlace env s op)
    (hs : (apiLts env heapSize).step s.run op = some run) :
    SlotInv limit { s with run := run } := by
  have howned := ownedAccepted_step hf hr hI.owned hoid hs
  obtain ⟨events, hrun, -⟩ := apiLts_step hs
  rcases op_cases (by rintro h metadata imm fuel rfl; exact hoid) hrun with
    ⟨h, metadata, r, rfl, hins, -⟩ | ⟨h, oid, data, out, rfl, hout, hw, -⟩ | ⟨hsteps, -⟩
  · refine ⟨howned, ?_, ?_, hI.cursor.safe⟩
    · exact slotTable_insert hI.owned hI.table hf hr hlimit (fun href => (hkeep href).1) hins
    · exact inPlace_insert hI.cursor.inPlace (fun href => (hkeep href).2) hins
  · have hdb : run.world.db = out.db := by rw [hw]
    refine ⟨howned, ?_, ?_, hI.cursor.safe⟩
    · show SlotTable run.world.db.objmeta run.world.db.heap
      rw [hdb]
      exact slotTable_write (w := s.run.world.accepted) hI.owned hI.table hkeep hout
    · show s.cursor.InPlace run.world.db
      rw [hdb]
      exact hI.cursor.inPlace.of_same fun _ _ i _ => sameBuffer_write hout i
  · have hkept := hsteps.invariant
      (I := fun w => SlotTable w.db.objmeta w.db.heap ∧ s.cursor.InPlace w.db)
      (fun w w' hw he => ⟨slotTable_effect hw.1 he, hw.2.of_same fun _ hne i hi =>
        sameBuffer_effect he i (hi ▸ hne)⟩) ⟨hI.table, hI.cursor.inPlace⟩
    exact ⟨howned, hkept.1, hkept.2, hI.cursor.safe⟩

theorem slotInv_step [Rounding] {heapSize : Int} {s s' : SlotState} {l : SlotStep}
    (hf : AllocSound limit env.alloc) (hr : RefusesNegative env.alloc) (hlimit : limit < 2 ^ 31)
    (hI : SlotInv limit s) (hg : HandleGuard env s l)
    (hs : (slotLts env heapSize).step s l = some s') : SlotInv limit s' := by
  cases l with
  | op op =>
      obtain ⟨run, hrun, rfl⟩ := Option.map_eq_some_iff.mp hs
      exact slotInv_op hf hr hlimit hI hg.1 hg.2 hrun
  | init oid =>
      obtain rfl := Option.some.inj hs
      exact ⟨hI.owned, hI.table, Cursor.ptr_init hI.table hI.cursor.safe hg⟩
  | call call =>
      simp only [slotLts] at hs
      split at hs
      · obtain rfl := Option.some.inj hs
        exact ⟨hI.owned, hI.table, Cursor.run_sound hI.table hI.cursor hg⟩
      · cases hs

/-- The slot API is safe in every run in which no call but another `init` follows an `init`
that found no place in a ring, unless it is turned away. -/
theorem slotSafe_of_guarded [Rounding] {heapSize : Int} {s : SlotState}
    (hf : AllocSound limit env.alloc) (hr : RefusesNegative env.alloc) (hlimit : limit < 2 ^ 31)
    (h : (slotLts env heapSize).Guarded (HandleGuard env) s) : s.Safe := by
  have hinv : SlotInv limit s := by
    refine h.invariant (fun s hs => ?_) fun s l s' hI hg hs => slotInv_step hf hr hlimit hI hg hs
    obtain ⟨hrun, hplaced, hsafe, -⟩ := hs
    obtain ⟨run, cursor, started⟩ := s
    obtain rfl : run = _ := hrun
    refine ⟨ownedAccepted_initial hf, slotTable_initial, fun hp => ?_, hsafe⟩
    rw [hplaced] at hp
    cases hp
  exact hinv.cursor.safe

def aCursor : Cursor where
  objslot := { oid := 0, committedTs := 0, objectSlot := 0, historySlot := 0 }
  placed := false
  safe := true

def slotStart (heapSize : Int) : SlotState where
  run := ⟨World.initial (exampleEnv heapSize).atomic heapSize, []⟩
  cursor := aCursor
  started := false

/-- Two writes, a walk, and the object's deletion under the handle. -/
def slotSchedule : List SlotStep :=
  [.op (.insert aProcess anObject), .init 1, .call (.relativePtr 0),
    .op (.writedata aProcess 1 aRecord), .init 1, .op (.writedata aProcess 1 aRecord),
    .call (.relative 1 32), .call (.relative (-1) 32), .call .check, .call (.ptr 1000001),
    .op (.deleteImm aProcess { anObject with oid := 1 } true 1), .call (.relative 1 32),
    .call .check]

theorem slotSafe_of_guarded_walk :
    ∃ s, (slotLts (exampleEnv 4096) 4096).Guarded (HandleGuard (exampleEnv 4096)) s ∧ s.Safe ∧
      s.cursor.objslot.historySlot = 1 := by
  obtain ⟨s, hr, hp⟩ := (slotLts (exampleEnv 4096) 4096).exists_of_execGuarded
    (G := HandleGuard (exampleEnv 4096))
    (g := fun s l => decide (HandleGuard (exampleEnv 4096) s l)) (fun _ _ => of_decide_eq_true)
    slotSchedule (fun s => decide (s.cursor.objslot.historySlot = 1))
    (s := slotStart 4096) ⟨rfl, rfl, rfl, rfl⟩ (by decide +kernel)
  exact ⟨s, hr, slotSafe_of_guarded (bumpAlloc_sound 4096) (bumpAlloc_refusesNegative 4096)
    (by decide) hr, of_decide_eq_true hp⟩

/-- An object without a block: `init` fails, and the next call divides by its
`history_size`. -/
theorem exists_not_slotSafe :
    AllocSound 4096 (exampleEnv 4096).alloc ∧ RefusesNegative (exampleEnv 4096).alloc ∧
      ∃ s, (slotLts (exampleEnv 4096) 4096).Reachable s ∧ ¬ s.Safe := by
  obtain ⟨s, hr, hp⟩ := (slotLts (exampleEnv 4096) 4096).exists_of_exec
    [.op (.insert aProcess { anObject with sizeMax := 0 }), .init 1, .call (.relative 1 32)]
    (fun s => decide (¬ s.Safe)) (s := slotStart 4096) ⟨rfl, rfl, rfl, rfl⟩ (by decide +kernel)
  exact ⟨bumpAlloc_sound 4096, bumpAlloc_refusesNegative 4096, s, hr, of_decide_eq_true hp⟩

end KogmoRtdb
