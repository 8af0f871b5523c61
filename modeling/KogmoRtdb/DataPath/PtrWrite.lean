import Mathlib.Data.List.TakeWhile
import KogmoRtdb.DataPath.Writer

/-!
# Writing through a pointer as writing

`kogmo_rtdb_obj_writedata_ptr_begin`, the filling of the slot and
`kogmo_rtdb_obj_writedata_ptr_commit` leave behind what `kogmo_rtdb_obj_writedata` leaves
(`ptrWrite_eq`). Before the commit, or if there is none, a read answers from the history less the
record that was in the slot written to (`read_between`).

What a read answers from is a list: the slots with the object's records, newest first.
-/

namespace KogmoRtdb

/-! ## The history of a ring -/

/-- The slot `k` places back from the latest. -/
def placeBack (n : Nat) (slot : Int) (k : Nat) : Int := (slot - k) % n

/-- The heap has a record in the slot, as `kogmo_rtdb_obj_histscan` sees it. -/
def hasRecord (heap : Heap) (info : ObjInfo) (slot : Int) : Bool :=
  (slotWindow heap info slot).read32 4 ≠ hiWord invalidTs

/-- The slots with the records of an object, newest first. -/
def historySlots (heap : Heap) (info : ObjInfo) : List Int :=
  ((List.range info.historySize.toNat).map
    (placeBack info.historySize.toNat info.historySlot)).takeWhile (hasRecord heap info)

def selectFrom (heap : Heap) (info : ObjInfo) (h : Handle) (mode : Mode) (ts : Timestamp)
    (slots : List Int) : Except Err Probe :=
  if info.bufferIdx = 0 then .error .notFound
  else if info.readDenied h then .error .noPerm
  else if slots = [] then .error .notFound
  else if mode = .last ∧ ts = invalidTs ∧ info.deletedTs ≠ invalidTs then .error .notFound
  else searchList mode ts none (slots.map (probeAt heap info mode))

/-- The answer of a copying read from a history. -/
def readFrom [Rounding] (heap : Heap) (info : ObjInfo) (h : Handle) (mode : Mode) (ts : Timestamp)
    (buf : Mem) (size : Int) (now : Timestamp) (slots : List Int) : ReadOut :=
  match selectFrom heap info h mode ts slots with
  | .error e => { ret := .error e, buf := buf }
  | .ok p => copyOut heap info p size buf now

def readPtrFrom (heap : Heap) (info : ObjInfo) (h : Handle) (mode : Mode) (ts : Timestamp)
    (slots : List Int) : Except Err (Int × Int) :=
  (selectFrom heap info h mode ts slots).map fun p =>
    (info.slotAddr p.slot, slotSize heap info p.slot)

/-- An object with `n` history slots, whatever is in them. -/
structure ObjRing (db : Db) (oid : ObjId) (i n : Nat) : Prop where
  found : db.findmetaById oid = some i
  block : Block (db.objmeta i) n
  cursor : -1 ≤ (db.objmeta i).historySlot ∧ (db.objmeta i).historySlot < n
  unwritten : (db.objmeta i).historySlot = -1 →
    ∀ slot, InRing (db.objmeta i) slot → hasRecord db.heap (db.objmeta i) slot = false
  size : ∀ slot, InRing (db.objmeta i) slot → hasRecord db.heap (db.objmeta i) slot = true →
    slotSize db.heap (db.objmeta i) slot ≤ (db.objmeta i).sizeMax

variable {db db' db₀ : Db} {h h' : Handle} {oid : ObjId} {i n k fuel : Nat} {heap heap' : Heap}
  {info : ObjInfo} {mode : Mode} {ts : Timestamp} {slot : Int}

theorem hasRecord_iff :
    hasRecord heap info slot = true ↔ (slotWindow heap info slot).read32 4 ≠ hiWord invalidTs :=
  decide_eq_true_iff

theorem placeBack_inRing (hb : Block info n) (slot : Int) (k : Nat) :
    InRing info (placeBack n slot k) := by
  have hn := hb.pos
  have hlow : 0 ≤ (slot - k) % n := Int.emod_nonneg _ (by omega)
  have hhigh : (slot - k) % n < n := Int.emod_lt_of_pos _ (by omega)
  unfold InRing placeBack
  rw [hb.historySize]
  exact ⟨hlow, hhigh⟩

theorem histPos_placeBack (hn : 0 < n) (slot : Int) (k : Nat) :
    histPos n (placeBack n slot k - 1) = placeBack n slot (k + 1) := by
  have hlow : 0 ≤ (slot - k) % n := Int.emod_nonneg _ (by omega)
  unfold histPos placeBack
  rw [Int.tmod_eq_emod_of_nonneg (by omega), Int.add_emod_right, Int.emod_sub_emod]
  congr 1
  omega

theorem placeBack_zero (h0 : 0 ≤ slot) (hlt : slot < n) : placeBack n slot 0 = slot := by
  unfold placeBack
  rw [Int.natCast_zero, Int.sub_zero]
  exact Int.emod_eq_of_lt h0 hlt

/-- After a whole turn it is where it began, and not before. -/
theorem placeBack_eq_iff (h0 : 0 ≤ slot) (hlt : slot < n) (hk : k < n) :
    placeBack n slot (k + 1) = slot ↔ k + 1 = n := by
  unfold placeBack
  rcases Int.lt_or_le (slot - ((k + 1 : Nat) : Int)) 0 with hneg | hpos
  · have hsum : (slot - ((k + 1 : Nat) : Int)) % n = slot - ((k + 1 : Nat) : Int) + n := by
      rw [← Int.add_emod_right]
      exact Int.emod_eq_of_lt (by omega) (by omega)
    rw [hsum]
    omega
  · rw [Int.emod_eq_of_lt hpos (by omega)]
    omega

/-- The scan from the `k`-th place back searches the rest of the history. -/
theorem scanLoop_history (hb : Block info n) (h0 : 0 ≤ slot) (hlt : slot < n) {left : Nat}
    {kept : Option Probe} (hk : k + left + 1 = n) (hfuel : left + 1 ≤ fuel) :
    scanLoop heap info mode ts fuel (placeBack n slot k) slot kept =
      some (searchList mode ts kept ((placeBack n slot k ::
        ((List.range' (k + 1) left).map (placeBack n slot)).takeWhile (hasRecord heap info)).map
          (probeAt heap info mode))) := by
  induction left generalizing k fuel kept with
  | zero =>
      obtain ⟨fuel, rfl⟩ : ∃ f, fuel = f + 1 := ⟨fuel - 1, by omega⟩
      have hend : histscan heap info (-1) (placeBack n slot k) slot = none := by
        rw [histscan_back hb, histPos_placeBack hb.pos,
          if_pos ((placeBack_eq_iff h0 hlt (by omega)).mpr (by omega))]
      rw [scanLoop, hend]
      simp only [List.range'_zero, List.map_nil, List.takeWhile_nil, List.map_cons, searchList]
      cases mode.verdict ts kept (probeAt heap info mode (placeBack n slot k)) <;> rfl
  | succ left ih =>
      obtain ⟨fuel, rfl⟩ : ∃ f, fuel = f + 1 := ⟨fuel - 1, by omega⟩
      have hne : placeBack n slot (k + 1) ≠ slot := fun heq =>
        absurd ((placeBack_eq_iff h0 hlt (by omega)).mp heq) (by omega)
      rw [scanLoop, List.map_cons, searchList]
      cases mode.verdict ts kept (probeAt heap info mode (placeBack n slot k)) with
      | take p => rfl
      | notFound => rfl
      | back kept' =>
          dsimp only
          rw [histscan_back hb, histPos_placeBack hb.pos, if_neg hne, List.range'_succ,
            List.map_cons]
          by_cases hrec : hasRecord heap info (placeBack n slot (k + 1)) = true
          · have hval : ¬ (slotWindow heap info (placeBack n slot (k + 1))).read32 4 =
                hiWord invalidTs := hasRecord_iff.mp hrec
            rw [if_neg hval, List.takeWhile_cons_of_pos hrec]
            exact ih (by omega) (by omega)
          · have hval : (slotWindow heap info (placeBack n slot (k + 1))).read32 4 =
                hiWord invalidTs := by
              by_contra hne'
              exact hrec (hasRecord_iff.mpr hne')
            rw [if_pos hval, List.takeWhile_cons_of_neg hrec]
            rfl

theorem historySlots_eq (hb : Block info n) :
    historySlots heap info =
      ((List.range n).map (placeBack n info.historySlot)).takeWhile (hasRecord heap info) := by
  unfold historySlots
  rw [hb.historySize, Int.toNat_natCast]

/-- The scan begins at the first place back, which for a ring never written to is the last
slot. -/
theorem histscan_latest (hr : ObjRing db oid i n) (heap : Heap) :
    histscan heap (db.objmeta i) 0 0 0 =
      if hasRecord heap (db.objmeta i) (placeBack n (db.objmeta i).historySlot 0) then
        some (placeBack n (db.objmeta i).historySlot 0, (db.objmeta i).historySlot)
      else none := by
  have hn := hr.block.pos
  have hcursor := hr.cursor.1
  have hsize : (db.objmeta i).historySize ≠ 0 := by
    rw [hr.block.historySize]
    omega
  have hfirst : histPos (db.objmeta i).historySize (db.objmeta i).historySlot =
      placeBack n (db.objmeta i).historySlot 0 := by
    rw [hr.block.historySize]
    unfold histPos placeBack
    rw [Int.tmod_eq_emod_of_nonneg (by omega), Int.add_emod_right, Int.natCast_zero, Int.sub_zero]
  unfold histscan
  rw [if_neg hsize]
  dsimp only
  rw [if_pos rfl, if_pos rfl, hfirst, if_neg fun hc => hc.2 rfl]
  by_cases hts : (slotWindow heap (db.objmeta i)
      (placeBack n (db.objmeta i).historySlot 0)).read32 4 = hiWord invalidTs
  · rw [if_pos hts, if_neg fun hne => hasRecord_iff.mp hne hts]
  · rw [if_neg hts, if_pos (hasRecord_iff.mpr hts)]

theorem select_history (hr : ObjRing db oid i n) (hfuel : n ≤ fuel) (h : Handle) (mode : Mode)
    (ts : Timestamp) :
    select db h mode oid ts fuel =
      some ((selectFrom db.heap (db.objmeta i) h mode ts
        (historySlots db.heap (db.objmeta i))).map fun p => (db.objmeta i, p)) := by
  have hn := hr.block.pos
  unfold select selectFrom
  rw [hr.found]
  dsimp only
  by_cases hidx : (db.objmeta i).bufferIdx = 0
  · rw [if_pos hidx, if_pos hidx]
    rfl
  rw [if_neg hidx, if_neg hidx]
  by_cases hden : (db.objmeta i).readDenied h = true
  · rw [if_pos hden, if_pos hden]
    rfl
  rw [if_neg hden, if_neg hden, historySlots_eq hr.block]
  obtain ⟨m, rfl⟩ : ∃ m, n = m + 1 := ⟨n - 1, by omega⟩
  rw [List.range_eq_range', List.range'_succ, List.map_cons]
  have hscan := histscan_latest hr db.heap
  rw [hscan]
  by_cases hrec : hasRecord db.heap (db.objmeta i)
      (placeBack (m + 1) (db.objmeta i).historySlot 0) = true
  · rw [if_pos hrec, List.takeWhile_cons_of_pos hrec, if_neg (List.cons_ne_nil _ _)]
    dsimp only
    split
    · rfl
    · have hslot0 : 0 ≤ (db.objmeta i).historySlot := by
        rcases Int.lt_or_le (db.objmeta i).historySlot 0 with hneg | hpos
        · have hnone := hr.unwritten (by have := hr.cursor.1; omega) _
            (placeBack_inRing hr.block (db.objmeta i).historySlot 0)
          rw [hnone] at hrec
          cases hrec
        · exact hpos
      have hplace := placeBack_zero hslot0 hr.cursor.2
      have hloop := @scanLoop_history (m + 1) 0 fuel db.heap (db.objmeta i) mode ts
        (db.objmeta i).historySlot hr.block hslot0 hr.cursor.2 m none (by omega) hfuel
      rw [hplace] at hloop ⊢
      rw [hloop]
      rfl
  · rw [if_neg hrec, List.takeWhile_cons_of_neg hrec, if_pos rfl]
    rfl

/-- What a search selects is in the list, or was kept. -/
theorem mem_of_searchList {kept : Option Probe} {l : List Probe} {p : Probe}
    (hp : searchList mode ts kept l = .ok p) : p ∈ l ∨ kept = some p := by
  induction l generalizing kept with
  | nil =>
      cases kept with
      | none => cases hp
      | some q =>
          cases hp
          exact Or.inr rfl
  | cons q l ih =>
      rw [searchList] at hp
      cases hv : mode.verdict ts kept q with
      | take q' =>
          rw [hv] at hp
          cases hp
          rcases Mode.verdict_take hv with rfl | hkept
          · exact Or.inl List.mem_cons_self
          · exact Or.inr hkept
      | notFound =>
          rw [hv] at hp
          cases hp
      | back kept' =>
          rw [hv] at hp
          rcases ih hp with hmem | hkept
          · exact Or.inl (List.mem_cons_of_mem _ hmem)
          · rw [Mode.verdict_back hv p hkept]
            exact Or.inl List.mem_cons_self

theorem mem_of_selectFrom {slots : List Int} {p : Probe}
    (hp : selectFrom heap info h mode ts slots = .ok p) :
    p.slot ∈ slots ∧ p = probeAt heap info mode p.slot := by
  unfold selectFrom at hp
  split at hp
  · cases hp
  split at hp
  · cases hp
  split at hp
  · cases hp
  split at hp
  · cases hp
  rcases mem_of_searchList hp with hmem | hkept
  · obtain ⟨slot, hslot, rfl⟩ := List.mem_map.mp hmem
    exact ⟨hslot, rfl⟩
  · cases hkept

/-! ## Histories that are the same -/

theorem map_congr_of_ok {α β : Type} {x : Except Err α} {f g : α → β}
    (hfg : ∀ a, x = .ok a → f a = g a) : x.map f = x.map g := by
  cases x with
  | error e => rfl
  | ok a => exact congrArg Except.ok (hfg a rfl)

/-- Two heaps with the same records in the given slots. -/
def SameSlots (heap heap' : Heap) (info : ObjInfo) (slots : List Int) : Prop :=
  ∀ slot ∈ slots, ∀ b : Nat, b < 24 ∨ (b : Int) < slotSize heap info slot →
    slotWindow heap' info slot b = slotWindow heap info slot b

namespace SameSlots

variable {slots : List Int}

theorem selectFrom (hs : SameSlots heap heap' info slots) (h : Handle) (mode : Mode)
    (ts : Timestamp) :
    selectFrom heap' info h mode ts slots = selectFrom heap info h mode ts slots := by
  have hprobes : slots.map (probeAt heap' info mode) = slots.map (probeAt heap info mode) := by
    refine List.map_congr_left fun slot hslot => ?_
    have hts : (slotWindow heap' info slot).read64 0 = (slotWindow heap info slot).read64 0 :=
      Mem.read64_congr fun b _ hb => hs slot hslot b (Or.inl (by omega))
    have hdata : (slotWindow heap' info slot).read64 12 = (slotWindow heap info slot).read64 12 :=
      Mem.read64_congr fun b _ hb => hs slot hslot b (Or.inl (by omega))
    unfold probeAt
    rw [hts, hdata]
  unfold KogmoRtdb.selectFrom
  rw [hprobes]

theorem readFrom [Rounding] (hs : SameSlots heap heap' info slots) (h : Handle) (mode : Mode)
    (ts : Timestamp) (buf : Mem) (size : Int) (now : Timestamp) :
    readFrom heap' info h mode ts buf size now slots =
      readFrom heap info h mode ts buf size now slots := by
  unfold KogmoRtdb.readFrom
  rw [hs.selectFrom]
  cases hsel : KogmoRtdb.selectFrom heap info h mode ts slots with
  | error e => rfl
  | ok p => exact copyOut_congr (hs p.slot (mem_of_selectFrom hsel).1) size buf now

theorem readPtrFrom (hs : SameSlots heap heap' info slots) (h : Handle) (mode : Mode)
    (ts : Timestamp) :
    readPtrFrom heap' info h mode ts slots = readPtrFrom heap info h mode ts slots := by
  unfold KogmoRtdb.readPtrFrom
  rw [hs.selectFrom]
  refine map_congr_of_ok fun p hsel => ?_
  have hsize : (slotWindow heap' info p.slot).read32 20 =
      (slotWindow heap info p.slot).read32 20 :=
    Mem.read32_congr fun b _ hb => hs p.slot (mem_of_selectFrom hsel).1 b (Or.inl (by omega))
  refine congrArg (Prod.mk _) ?_
  unfold slotSize
  rw [hsize]

end SameSlots

theorem ObjRing.read [Rounding] (hr : ObjRing db oid i n) (hfuel : n ≤ fuel) (h : Handle)
    (mode : Mode) (ts : Timestamp) (buf : Mem) (size : Int) (now : Timestamp) :
    readdataMode db h mode oid ts buf size now fuel =
      some (readFrom db.heap (db.objmeta i) h mode ts buf size now
        (historySlots db.heap (db.objmeta i))) := by
  unfold readdataMode readFrom
  rw [select_history hr hfuel]
  cases selectFrom db.heap (db.objmeta i) h mode ts (historySlots db.heap (db.objmeta i)) <;> rfl

theorem ObjRing.readPtr (hr : ObjRing db oid i n) (hfuel : n ≤ fuel) (h : Handle) (mode : Mode)
    (ts : Timestamp) :
    readdataModePtr db h mode oid ts fuel =
      some (readPtrFrom db.heap (db.objmeta i) h mode ts
        (historySlots db.heap (db.objmeta i))) := by
  unfold readdataModePtr readPtrFrom
  rw [select_history hr hfuel]
  cases selectFrom db.heap (db.objmeta i) h mode ts (historySlots db.heap (db.objmeta i)) <;> rfl

/-! ## Between begin and commit -/

/-- A list without its last element, which the test turns down. -/
theorem takeWhile_concat_filter {α : Type} [DecidableEq α] {p p' : α → Bool} {l : List α} {x : α}
    (hne : ∀ a ∈ l, a ≠ x) (hsame : ∀ a ∈ l, p' a = p a) (hx : p' x = false) :
    (l ++ [x]).takeWhile p' = ((l ++ [x]).takeWhile p).filter (· ≠ x) := by
  induction l with
  | nil => cases hp : p x <;> simp [hp, hx]
  | cons a l ih =>
      have hrest := ih (fun b hb => hne b (List.mem_cons_of_mem _ hb))
        fun b hb => hsame b (List.mem_cons_of_mem _ hb)
      have hax := hne a List.mem_cons_self
      have hpa := hsame a List.mem_cons_self
      cases hp : p a with
      | true =>
          rw [List.cons_append, List.takeWhile_cons_of_pos (hpa.trans hp),
            List.takeWhile_cons_of_pos hp, List.filter_cons_of_pos (by simp [hax]), hrest]
      | false =>
          rw [List.cons_append, List.takeWhile_cons_of_neg (by simp [hpa, hp]),
            List.takeWhile_cons_of_neg (by simp [hp]), List.filter_nil]

theorem placeBack_last (h0 : 0 ≤ slot) (hk : k + 1 = n) : placeBack n slot k = nextSlot n slot := by
  have hplace : slot - (k : Int) = slot + 1 - n := by omega
  unfold placeBack nextSlot
  rw [if_neg (by omega), hplace, Int.tmod_eq_emod_of_nonneg (by omega), Int.sub_emod_right]

theorem placeBack_ne_last {j : Nat} (hj : j < k) (hk : k < n) :
    placeBack n slot j ≠ placeBack n slot k := by
  intro heq
  have hzero := Int.emod_eq_emod_iff_emod_sub_eq_zero.mp heq
  rw [show slot - (j : Int) - (slot - k) = ((k - j : Nat) : Int) by omega,
    Int.emod_eq_of_lt (by omega) (by omega)] at hzero
  omega

section Between

variable (hr : ObjRing db oid i n) (hp : Prepares db i db')

include hr hp

theorem between_window (hslot : InRing (db.objmeta i) slot) (hne : slot ≠ (db.objmeta i).next)
    {b : Nat} (hb : (b : Int) < (db.objmeta i).sizeMax) :
    slotWindow db'.heap (db.objmeta i) slot b = slotWindow db.heap (db.objmeta i) slot b :=
  (hp.elsewhere hr.block.sizeMin).window_of_ne hr.block hslot hne hb

theorem between_hasRecord (hslot : InRing (db.objmeta i) slot)
    (hne : slot ≠ (db.objmeta i).next) :
    hasRecord db'.heap (db.objmeta i) slot = hasRecord db.heap (db.objmeta i) slot := by
  have h24 := hr.block.sizeMin
  have hword : (slotWindow db'.heap (db.objmeta i) slot).read32 4 =
      (slotWindow db.heap (db.objmeta i) slot).read32 4 :=
    Mem.read32_congr fun b _ hb => between_window hr hp hslot hne (by omega)
  unfold hasRecord
  rw [hword]

omit hr in
theorem between_next : hasRecord db'.heap (db.objmeta i) (db.objmeta i).next = false := by
  have hts : hiWord (slotTs db'.heap (db.objmeta i) (db.objmeta i).next) =
      (slotWindow db'.heap (db.objmeta i) (db.objmeta i).next).read32 4 := hiWord_ofWords ..
  rw [hp.ts] at hts
  refine (Bool.not_eq_true _).mp fun hrec => ?_
  exact hasRecord_iff.mp hrec hts.symm

theorem between_historySlots :
    historySlots db'.heap (db.objmeta i) =
      (historySlots db.heap (db.objmeta i)).filter (· ≠ (db.objmeta i).next) := by
  have hn := hr.block.pos
  rw [historySlots_eq hr.block, historySlots_eq hr.block]
  obtain ⟨m, rfl⟩ : ∃ m, n = m + 1 := ⟨n - 1, by omega⟩
  rcases Int.lt_or_le (db.objmeta i).historySlot 0 with hneg | hpos
  · -- nothing has been written, and nothing is found
    have hminus : (db.objmeta i).historySlot = -1 := by
      have := hr.cursor.1
      omega
    have hnone := hr.unwritten hminus _ (placeBack_inRing hr.block (db.objmeta i).historySlot 0)
    have hnone' : hasRecord db'.heap (db.objmeta i)
        (placeBack (m + 1) (db.objmeta i).historySlot 0) = false := by
      by_cases hnext : placeBack (m + 1) (db.objmeta i).historySlot 0 = (db.objmeta i).next
      · rw [hnext]
        exact between_next hp
      · rw [between_hasRecord hr hp (placeBack_inRing hr.block _ 0) hnext]
        exact hnone
    rw [List.range_eq_range', List.range'_succ, List.map_cons,
      List.takeWhile_cons_of_neg (by simp [hnone']), List.takeWhile_cons_of_neg (by simp [hnone]),
      List.filter_nil]
  · have hlast : placeBack (m + 1) (db.objmeta i).historySlot m = (db.objmeta i).next := by
      rw [placeBack_last hpos rfl, ObjInfo.next, hr.block.historySize]
    rw [List.range_succ, List.map_append, List.map_cons, List.map_nil, hlast]
    have hne : ∀ slot ∈ (List.range m).map (placeBack (m + 1) (db.objmeta i).historySlot),
        slot ≠ (db.objmeta i).next ∧ InRing (db.objmeta i) slot := by
      intro slot hslot
      obtain ⟨k, hk, rfl⟩ := List.mem_map.mp hslot
      refine ⟨?_, placeBack_inRing hr.block _ k⟩
      rw [← hlast]
      exact placeBack_ne_last (List.mem_range.mp hk) (Nat.lt_succ_self m)
    exact takeWhile_concat_filter (fun slot hslot => (hne slot hslot).1)
      (fun slot hslot => between_hasRecord hr hp (hne slot hslot).2 (hne slot hslot).1)
      (between_next hp)

theorem ObjRing.prepares : ObjRing db' oid i n := by
  have h24 := hr.block.sizeMin
  have hinfo : db'.objmeta i = db.objmeta i := by rw [hp.objmeta]
  have hfound : db'.findmetaById oid = some i := by
    rw [← hr.found]
    exact Db.findmetaById_congr fun j => by rw [hp.objmeta]
  refine ⟨hfound, hinfo ▸ hr.block, hinfo ▸ hr.cursor, fun hminus slot hslot => ?_,
    fun slot hslot hrec => ?_⟩
  · rw [hinfo] at hminus hslot ⊢
    by_cases hne : slot = (db.objmeta i).next
    · rw [hne]
      exact between_next hp
    · rw [between_hasRecord hr hp hslot hne]
      exact hr.unwritten hminus slot hslot
  · rw [hinfo] at hslot hrec ⊢
    have hne : slot ≠ (db.objmeta i).next := fun heq => by
      rw [heq, between_next hp] at hrec
      cases hrec
    have hsame : (slotWindow db'.heap (db.objmeta i) slot).read32 20 =
        (slotWindow db.heap (db.objmeta i) slot).read32 20 :=
      Mem.read32_congr fun b _ hb => between_window hr hp hslot hne (by omega)
    rw [between_hasRecord hr hp hslot hne] at hrec
    have hsize := hr.size slot hslot hrec
    unfold slotSize at hsize ⊢
    rwa [hsame]

theorem between_sameSlots :
    SameSlots db.heap db'.heap (db.objmeta i)
      ((historySlots db.heap (db.objmeta i)).filter (· ≠ (db.objmeta i).next)) := by
  intro slot hmem b hb
  have h24 := hr.block.sizeMin
  obtain ⟨hslot, hne⟩ := List.mem_filter.mp hmem
  rw [historySlots_eq hr.block] at hslot
  have hrec := List.mem_takeWhile_imp hslot
  obtain ⟨k, -, rfl⟩ := List.mem_map.mp (List.takeWhile_subset _ hslot)
  have hring := placeBack_inRing hr.block (db.objmeta i).historySlot k
  have hsize := hr.size _ hring hrec
  exact between_window hr hp hring (of_decide_eq_true hne) (by omega)

end Between

/-- A write through a pointer has begun and is not finished: the slot is filled, or writes fail,
by whomever. -/
inductive PtrBegun [Rounding] (oid : ObjId) (db : Db) : Db → Prop where
  | begin {h : Handle} {dataPtr : Int} :
      (writedataPtrBegin db h oid dataPtr).ret = .ok 0 →
      PtrBegun oid db (writedataPtrBegin db h oid dataPtr).db
  | step {db' db'' : Db} {h : Handle} {op : WriterOp} :
      PtrBegun oid db db' → op.run h oid db' = some (db'', false) → PtrBegun oid db db''

theorem writedataPtrBegin_ok {dataPtr : Int} (hfound : db.findmetaById oid = some i)
    (hok : (writedataPtrBegin db h oid dataPtr).ret = .ok 0) :
    (writedataPtrBegin db h oid dataPtr).db =
      invalidate db ((db.objmeta i).slotAddr (db.objmeta i).next) := by
  unfold writedataPtrBegin at hok ⊢
  rw [hfound] at hok ⊢
  dsimp only at hok ⊢
  split at hok
  · cases hok
  rename_i hidx
  rw [if_neg hidx]
  split at hok
  · cases hok
  rename_i hdenied
  rw [if_neg hdenied]
  rfl

theorem PtrBegun.prepares [Rounding] (hb : PtrBegun oid db db')
    (hfound : db.findmetaById oid = some i) : Prepares db i db' := by
  induction hb with
  | begin hok =>
      rw [writedataPtrBegin_ok hfound hok]
      exact invalidate_prepares db i
  | @step db' db'' h op _ hrun ih =>
      rcases WriterOp.run_cases hrun with ⟨-, rfl⟩ | ⟨j, hj, -, ⟨-, hp⟩ | ⟨hcommitted, -⟩⟩
      · exact ih
      · have hsame : db'.findmetaById oid = db.findmetaById oid :=
          Db.findmetaById_congr fun k => by rw [ih.objmeta]
        rw [hsame, hfound] at hj
        cases hj
        have hinfo : db'.objmeta i = db.objmeta i := by rw [ih.objmeta]
        refine ⟨hp.objmeta.trans ih.objmeta, hp.simmode.trans ih.simmode, fun h24 b hb => ?_, ?_⟩
        · have helse := hp.elsewhere (by rw [hinfo]; exact h24)
          unfold SameElsewhere at helse
          rw [hinfo] at helse
          exact (helse b hb).trans (ih.elsewhere h24 b hb)
        · have hts := hp.ts
          rwa [hinfo] at hts
      · cases hcommitted

/-- Meanwhile a read answers from the history less the record in the slot that is written to. -/
theorem read_between [Rounding] (hr : ObjRing db oid i n) (hb : PtrBegun oid db db')
    (hfuel : n ≤ fuel)
    (h : Handle) (mode : Mode) (ts : Timestamp) (buf : Mem) (size : Int) (now : Timestamp) :
    readdataMode db' h mode oid ts buf size now fuel =
        some (readFrom db.heap (db.objmeta i) h mode ts buf size now
          ((historySlots db.heap (db.objmeta i)).filter (· ≠ (db.objmeta i).next))) ∧
      readdataModePtr db' h mode oid ts fuel =
        some (readPtrFrom db.heap (db.objmeta i) h mode ts
          ((historySlots db.heap (db.objmeta i)).filter (· ≠ (db.objmeta i).next))) := by
  have hp := hb.prepares hr.found
  have hr' := hr.prepares hp
  have hinfo : db'.objmeta i = db.objmeta i := by rw [hp.objmeta]
  have hsame := between_sameSlots hr hp
  constructor
  · rw [hr'.read hfuel, hinfo, between_historySlots hr hp, hsame.readFrom]
  · rw [hr'.readPtr hfuel, hinfo, between_historySlots hr hp, hsame.readPtrFrom]

/-! ## The whole write -/

/-- A record written through a pointer: begin, set all of it but the stamp, commit. -/
def ptrWrite [Rounding] (db : Db) (h : Handle) (oid : ObjId) (data : Mem)
    (committedTs : Timestamp) : Result × Db :=
  let begun := writedataPtrBegin db h oid 0
  match begun.ret with
  | .error e => (.error e, begun.db)
  | .ok _ =>
      let size := (data.read32 20).toInt.toNat
      let filled := fillPtr begun.db begun.ptr (fun b => data (b + 8)) (size - 8)
      let out := writedataPtrCommit filled h oid begun.ptr committedTs
      (out.ret, out.db)

theorem write64_inside_congr (m m' : Mem) {a b : Nat} (v : BitVec 64) (h1 : a ≤ b)
    (h2 : b < a + 8) : m.write64 a v b = m'.write64 a v b := by
  simp only [Mem.write64, Mem.write32, Mem.copy]
  split
  · rfl
  · split
    · rfl
    · omega

/-- The slot before its commit has what the copying write copies. -/
theorem filled_eq (w data : Mem) (proc : BitVec 32) {size : Nat} (h24 : 24 ≤ size) {filled : Mem}
    (hin : ∀ b, 8 ≤ b → b < size → filled b = data b)
    (hout : ∀ b, b < 8 ∨ size ≤ b → filled b = w.write64 0 invalidTs b) :
    filled.write32 8 proc = (w.write64 0 invalidTs).copy 0 (commitSource proc data) 0 size := by
  funext b
  by_cases hlow : b < 8
  · rw [Mem.write32_outside (by omega), hout b (Or.inl hlow), Mem.copy_inside (by omega) (by omega),
      Nat.sub_zero, Nat.zero_add, commitSource]
    exact write64_inside_congr _ _ _ (by omega) (by omega)
  · by_cases hsize : b < size
    · rw [Mem.copy_inside (by omega) (by omega), Nat.sub_zero, Nat.zero_add, commitSource,
        Mem.write64_outside (by omega)]
      by_cases hproc : b < 12
      · unfold Mem.write32
        rw [Mem.copy_inside (by omega) (by omega), Mem.copy_inside (by omega) (by omega)]
      · rw [Mem.write32_outside (by omega), Mem.write32_outside (by omega)]
        exact hin b (by omega) hsize
    · rw [Mem.write32_outside (by omega), Mem.copy_outside (by omega)]
      exact hout b (Or.inr (by omega))

theorem tooFast_between [Rounding] (hr : ObjRing db oid i n) (hp : Prepares db i db')
    {now : Timestamp} (hslow : tooFast db.heap (db.objmeta i) now = false) :
    tooFast db'.heap (db.objmeta i) now = false := by
  have h24 := hr.block.sizeMin
  have hring := placeBack_inRing hr.block (db.objmeta i).historySlot 0
  unfold tooFast at hslow ⊢
  rw [histscan_latest hr] at hslow ⊢
  by_cases hne : placeBack n (db.objmeta i).historySlot 0 = (db.objmeta i).next
  · rw [hne, between_next hp]
    exact Bool.and_false _
  · have hts : (slotWindow db'.heap (db.objmeta i)
        (placeBack n (db.objmeta i).historySlot 0)).read64 0 =
          (slotWindow db.heap (db.objmeta i)
            (placeBack n (db.objmeta i).historySlot 0)).read64 0 :=
      Mem.read64_congr fun b _ hb => between_window hr hp hring hne (by omega)
    rw [between_hasRecord hr hp hring hne]
    cases hrec : hasRecord db.heap (db.objmeta i) (placeBack n (db.objmeta i).historySlot 0) with
    | false =>
        rw [hrec] at hslow
        exact hslow
    | true =>
        rw [hrec] at hslow
        simp only [if_true] at hslow ⊢
        rwa [hts]

theorem writedata_ok_inv [Rounding] {data : Mem} {committedTs : Timestamp}
    (hfound : db.findmetaById oid = some i)
    (hok : (writedata db h oid data committedTs).ret = .ok 0) :
    (db.objmeta i).bufferIdx ≠ 0 ∧ ¬ (db.objmeta i).sizeMax < (data.read32 20).toInt ∧
      ¬ (data.read32 20).toInt < 24 ∧ tooFast db.heap (db.objmeta i) committedTs = false ∧
      (writedata db h oid data committedTs).db =
        storeRecord db i (db.objmeta i).next (commitSource (BitVec.ofInt 32 h.procOid) data)
          (data.read32 20).toInt.toNat
          (forge db.simmode committedTs
            (slotTs db.heap (db.objmeta i) (db.objmeta i).next)) := by
  unfold writedata at hok ⊢
  rw [hfound] at hok ⊢
  dsimp only at hok ⊢
  split at hok
  · cases hok
  rename_i hidx
  rw [if_neg hidx]
  split at hok
  · cases hok
  rename_i hmax
  rw [if_neg hmax]
  split at hok
  · cases hok
  rename_i hmin
  rw [if_neg hmin]
  split at hok
  · cases hok
  rename_i hdenied
  rw [if_neg hdenied]
  split at hok
  · cases hok
  rename_i hslow
  rw [if_neg hslow]
  exact ⟨hidx, hmax, hmin, (Bool.not_eq_true _).mp hslow, rfl⟩

theorem writedataPtrCommit_ok [Rounding] {dataPtr : Int} {committedTs : Timestamp}
    (hfound : db.findmetaById oid = some i) (hidx : (db.objmeta i).bufferIdx ≠ 0)
    (hmax : ¬ (db.objmeta i).sizeMax < ((db.heap.window dataPtr).read32 20).toInt)
    (hmin : ¬ ((db.heap.window dataPtr).read32 20).toInt < 24)
    (hallowed : (db.objmeta i).ptrDenied h = false)
    (hslow : tooFast db.heap (db.objmeta i) committedTs = false)
    (hptr : dataPtr = (db.objmeta i).slotAddr (db.objmeta i).next) :
    writedataPtrCommit db h oid dataPtr committedTs =
      { ret := .ok 0
        db := validate db i (db.objmeta i).next dataPtr (BitVec.ofInt 32 h.procOid) committedTs
        ptr := dataPtr } := by
  have hnext : nextSlot (db.objmeta i).historySize (db.objmeta i).historySlot =
      (db.objmeta i).next := rfl
  unfold writedataPtrCommit
  rw [hfound]
  dsimp only
  rw [if_neg hidx, if_neg hmax, if_neg hmin, if_neg (by rw [hallowed]; exact Bool.false_ne_true),
    if_neg (by rw [hslow]; exact Bool.false_ne_true), hnext, ← hptr, if_neg fun hne => hne rfl]

/-- Two heaps with the same window and the same below it. -/
theorem heap_eq_of_window {a : Int} (hbelow : ∀ b < a, heap b = heap' b)
    (hwindow : heap.window a = heap'.window a) : heap = heap' := by
  funext b
  rcases Int.lt_or_le b a with hlt | hle
  · exact hbelow b hlt
  · have hb := congrFun hwindow (b - a).toNat
    unfold Heap.window at hb
    rwa [Int.toNat_of_nonneg (by omega), show a + (b - a) = b by omega] at hb

section Filled

variable {data : Mem} {size b : Nat} {addr : Int}

theorem window_fillPtr_inside (h8 : 8 ≤ b) (hb : b < size) :
    (fillPtr (invalidate db addr) addr (fun b => data (b + 8)) (size - 8)).heap.window addr b =
      data b := by
  have hback : (addr + b - (addr + 8)).toNat + 8 = b := by omega
  unfold fillPtr Heap.window
  dsimp only
  rw [Heap.put_inside (by omega) (by omega), hback]

theorem window_fillPtr_outside (h8 : 8 ≤ size) (hb : b < 8 ∨ size ≤ b) :
    (fillPtr (invalidate db addr) addr (fun b => data (b + 8)) (size - 8)).heap.window addr b =
      (db.heap.window addr).write64 0 invalidTs b := by
  have hwindow : (invalidate db addr).heap.window addr =
      (db.heap.window addr).write64 0 invalidTs :=
    Heap.window_put_self fun k hk => Mem.write64_outside (Or.inr hk)
  rw [← hwindow]
  have hapart : addr + (b : Int) < addr + 8 ∨ addr + 8 + (size - 8 : Nat) ≤ addr + b := by omega
  unfold fillPtr Heap.window
  dsimp only
  exact Heap.put_outside hapart

/-- The slot that a write through a pointer has begun on is filled behind its stamp. -/
theorem ptrBegun_fillPtr [Rounding] (hfound : db.findmetaById oid = some i)
    (hidx : (db.objmeta i).bufferIdx ≠ 0)
    (hbegin : writedataPtrBegin db h oid 0 =
      { ret := .ok 0, db := invalidate db addr, ptr := addr })
    (haddr : (db.objmeta i).slotAddr (db.objmeta i).next = addr) (h8 : 8 ≤ size)
    (hmax : (size : Int) ≤ (db.objmeta i).sizeMax) :
    PtrBegun oid db
      (fillPtr (invalidate db addr) addr (fun b => data (b + 8)) (size - 8)) := by
  have hts : slotTs (invalidate db addr).heap (db.objmeta i) (db.objmeta i).next = invalidTs := by
    rw [← haddr]
    exact (invalidate_prepares db i).ts
  have hfill : (WriterOp.fill (fun b => data (b + 8)) (size - 8)).run h oid (invalidate db addr) =
      some (fillPtr (invalidate db addr) addr (fun b => data (b + 8)) (size - 8), false) := by
    have hfound : (invalidate db addr).findmetaById oid = some i := hfound
    have hcond : (db.objmeta i).bufferIdx ≠ 0 ∧
        slotTs (invalidate db addr).heap (db.objmeta i) (db.objmeta i).next = invalidTs ∧
        (8 + (size - 8 : Nat) : Int) ≤ (db.objmeta i).sizeMax := ⟨hidx, hts, by omega⟩
    unfold WriterOp.run
    rw [hfound]
    dsimp only
    rw [← haddr] at hcond ⊢
    exact if_pos hcond
  have hdb : (writedataPtrBegin db h oid 0).db = invalidate db addr := by rw [hbegin]
  have hfirst : PtrBegun oid db (invalidate db addr) := by
    rw [← hdb]
    exact .begin (by rw [hbegin])
  exact .step hfirst hfill

/-- The commit of a slot that has been filled leaves the heap that the copying write does. -/
theorem validate_heap_eq {filled : Db} {proc : BitVec 32} {committedTs : Timestamp}
    (hp : Prepares db i filled) (hmin : 24 ≤ (db.objmeta i).sizeMax)
    (haddr : (db.objmeta i).slotAddr (db.objmeta i).next = addr) (h24 : 24 ≤ size)
    (hin : ∀ b, 8 ≤ b → b < size → filled.heap.window addr b = data b)
    (hout : ∀ b, b < 8 ∨ size ≤ b →
      filled.heap.window addr b = (db.heap.window addr).write64 0 invalidTs b) :
    (validate filled i (filled.objmeta i).next addr proc committedTs).heap =
      (storeRecord db i (db.objmeta i).next (commitSource proc data) size committedTs).heap := by
  have hmeta : filled.objmeta = db.objmeta := hp.objmeta
  have hsrc : slotWindow (validate filled i (filled.objmeta i).next
      ((filled.objmeta i).slotAddr (filled.objmeta i).next) proc committedTs).heap
      (filled.objmeta i) (filled.objmeta i).next = _ := window_validate
  have hdst : slotWindow (storeRecord db i (db.objmeta i).next (commitSource proc data) size
      committedTs).heap (db.objmeta i) (db.objmeta i).next = _ := window_storeRecord h24
  rw [hmeta] at hsrc ⊢
  unfold slotWindow at hsrc hdst
  rw [haddr] at hsrc hdst
  refine heap_eq_of_window (a := addr) (fun b hb => ?_) ?_
  · have hbelow : filled.heap b = db.heap b :=
      hp.elsewhere hmin b (Or.inl (by rw [haddr]; exact hb))
    have hval : (validate filled i (db.objmeta i).next addr proc committedTs).heap b =
        filled.heap b := Heap.put_outside (Or.inl hb)
    have hstore : (storeRecord db i (db.objmeta i).next (commitSource proc data) size
        committedTs).heap b = db.heap b := Heap.put_outside (Or.inl (by rw [haddr]; exact hb))
    rw [hval, hstore, hbelow]
  · rw [hsrc, hdst, fillSlot, filled_eq (db.heap.window addr) data _ h24 hin hout]

end Filled

/-- A record written through a pointer is what the copying write makes of it. -/
theorem ptrWrite_eq [Rounding] (hr : ObjRing db oid i n)
    (howned : (db.objmeta i).createdProc = h.procOid)
    (hprivate : (db.objmeta i).flags.writeAllow = false) {data : Mem} {committedTs : Timestamp}
    (hclock : slotTs db.heap (db.objmeta i) (db.objmeta i).next = committedTs →
      db.simmode = true)
    (hok : (writedata db h oid data committedTs).ret = .ok 0) :
    ptrWrite db h oid data committedTs = (.ok 0, (writedata db h oid data committedTs).db) := by
  obtain ⟨hidx, hmax, hmin, hslow, hdb⟩ := writedata_ok_inv hr.found hok
  have hstamp : forge db.simmode committedTs
      (slotTs db.heap (db.objmeta i) (db.objmeta i).next) = committedTs := by
    unfold forge
    refine if_neg fun hc => hc.2 (hclock hc.1.symm)
  rw [hstamp] at hdb
  have hallowed : (db.objmeta i).ptrDenied h = false := by
    unfold ObjInfo.ptrDenied
    rw [hprivate, howned]
    simp
  have hbegin : writedataPtrBegin db h oid 0 =
      { ret := .ok 0, db := invalidate db ((db.objmeta i).slotAddr (db.objmeta i).next)
        ptr := (db.objmeta i).slotAddr (db.objmeta i).next } := by
    unfold writedataPtrBegin
    rw [hr.found]
    dsimp only
    rw [if_neg hidx, if_neg (by rw [hallowed]; exact Bool.false_ne_true)]
    rfl
  generalize hsz : (data.read32 20).toInt.toNat = size at hdb
  have h24 : 24 ≤ size := by omega
  generalize haddr : (db.objmeta i).slotAddr (db.objmeta i).next = addr at hbegin
  have hp : Prepares db i
      (fillPtr (invalidate db addr) addr (fun b => data (b + 8)) (size - 8)) :=
    (ptrBegun_fillPtr hr.found hidx hbegin haddr (by omega) (by omega)).prepares hr.found
  have hin : ∀ b, 8 ≤ b → b < size → _ := fun b h8 hb =>
    @window_fillPtr_inside db data size b addr h8 hb
  have hout : ∀ b, b < 8 ∨ size ≤ b → _ := fun b hb =>
    @window_fillPtr_outside db data size b addr (by omega) hb
  generalize hfilled : fillPtr (invalidate db addr) addr (fun b => data (b + 8)) (size - 8) =
    filled at hp hin hout
  have hmeta : filled.objmeta = db.objmeta := hp.objmeta
  have hread : (filled.heap.window addr).read32 20 = data.read32 20 :=
    Mem.read32_congr fun b h1 h2 => hin b (by omega) (by omega)
  have hcommit := @writedataPtrCommit_ok filled h oid i _ addr committedTs
    (hr.prepares hp).found (by rw [hmeta]; exact hidx) (by rw [hmeta, hread]; exact hmax)
    (by rw [hread]; exact hmin) (by rw [hmeta]; exact hallowed)
    (by rw [hmeta]; exact tooFast_between hr hp hslow) (by rw [hmeta, haddr])
  have hheap := @validate_heap_eq db i data size addr filled (BitVec.ofInt 32 h.procOid)
    committedTs hp hr.block.sizeMin haddr h24 hin hout
  rw [hmeta] at hheap
  unfold ptrWrite
  rw [hbegin]
  dsimp only
  rw [hsz, hfilled, hcommit, hdb]
  refine Prod.ext rfl ?_
  subst hfilled
  exact congrArg (fun heap : Heap =>
    ({ db.setMeta i { db.objmeta i with historySlot := (db.objmeta i).next } with
        heap := heap } : Db)) hheap

/-- Writing through a pointer refines writing: it leaves the same database behind, and until then
readers miss no more than the record in the slot that is written to. -/
theorem ptrWrite_refines [Rounding] (hr : ObjRing db oid i n)
    (howned : (db.objmeta i).createdProc = h.procOid)
    (hprivate : (db.objmeta i).flags.writeAllow = false) :
    (∀ data committedTs,
      (∀ slot, InRing (db.objmeta i) slot → slotTs db.heap (db.objmeta i) slot ≠ invalidTs →
        (slotTs db.heap (db.objmeta i) slot).toInt < committedTs.toInt) →
      (db.simmode = false → committedTs ≠ invalidTs) →
      (writedata db h oid data committedTs).ret = .ok 0 →
      ptrWrite db h oid data committedTs = (.ok 0, (writedata db h oid data committedTs).db)) ∧
    (∀ (fuel : Nat) (h' : Handle) (mode : Mode) (ts : Timestamp) (buf : Mem) (size : Int)
      (now : Timestamp), n ≤ fuel →
      readdataMode db h' mode oid ts buf size now fuel =
          some (readFrom db.heap (db.objmeta i) h' mode ts buf size now
            (historySlots db.heap (db.objmeta i))) ∧
        readdataModePtr db h' mode oid ts fuel =
          some (readPtrFrom db.heap (db.objmeta i) h' mode ts
            (historySlots db.heap (db.objmeta i)))) ∧
    ∀ db', PtrBegun oid db db' → ∀ (fuel : Nat) (h' : Handle) (mode : Mode) (ts : Timestamp)
      (buf : Mem) (size : Int) (now : Timestamp), n ≤ fuel →
      readdataMode db' h' mode oid ts buf size now fuel =
          some (readFrom db.heap (db.objmeta i) h' mode ts buf size now
            ((historySlots db.heap (db.objmeta i)).filter (· ≠ (db.objmeta i).next))) ∧
        readdataModePtr db' h' mode oid ts fuel =
          some (readPtrFrom db.heap (db.objmeta i) h' mode ts
            ((historySlots db.heap (db.objmeta i)).filter (· ≠ (db.objmeta i).next))) := by
  refine ⟨fun data committedTs hlater hreal hok => ?_, fun fuel h' mode ts buf size now hfuel => ?_,
    fun db' hbegun fuel h' mode ts buf size now hfuel => ?_⟩
  · refine ptrWrite_eq hr howned hprivate (fun hts => ?_) hok
    by_contra hsim
    have hvalid := hreal ((Bool.not_eq_true _).mp hsim)
    rw [← hts] at hvalid
    have hlt := hlater _ hr.block.next_inRing hvalid
    rw [hts] at hlt
    exact Int.lt_irrefl _ hlt
  · exact ⟨hr.read hfuel h' mode ts buf size now, hr.readPtr hfuel h' mode ts⟩
  · exact read_between hr hbegun hfuel h' mode ts buf size now

theorem wrappedDb_inRing {slot : Int} (hslot : InRing (wrappedDb.objmeta 0) slot) :
    slot = 0 ∨ slot = 1 := by
  have hhist : (wrappedDb.objmeta 0).historySize = 2 := by decide +kernel
  have hlow := hslot.1
  have hhigh := hslot.2
  omega

theorem wrappedDb_objRing : ObjRing wrappedDb 5 0 2 where
  found := by decide +kernel
  block := ⟨by decide +kernel, by decide, by decide +kernel, by decide +kernel, by decide +kernel⟩
  cursor := by decide +kernel
  unwritten hnone := absurd hnone (by decide +kernel)
  size slot hslot _ := by
    rcases wrappedDb_inRing hslot with rfl | rfl <;> decide +kernel

/-- A record written through a pointer into the ring that has wrapped, and a read before it is
committed: of the two commits the older one is missing. -/
theorem ptrWrite_refines_wrapped :
    ptrWrite wrappedDb ⟨1, false⟩ 5 historyRecord 0x10000000b =
        (.ok 0, (historyWrite wrappedDb 0x10000000b).db) ∧
      readdataMode (writedataPtrBegin wrappedDb ⟨1, false⟩ 5 0).db ⟨2, false⟩ .last 5 0 .zero 64
          0 2 =
        some (readFrom wrappedDb.heap (wrappedDb.objmeta 0) ⟨2, false⟩ .last 0 .zero 64 0 [0]) := by
  obtain ⟨hwrite, -, hread⟩ :=
    ptrWrite_refines (h := ⟨1, false⟩) wrappedDb_objRing (by decide +kernel) (by decide +kernel)
  constructor
  · refine hwrite historyRecord 0x10000000b (fun slot hslot _ => ?_) (fun _ => by decide)
      (by decide +kernel)
    rcases wrappedDb_inRing hslot with rfl | rfl <;> decide +kernel
  · have hslots : (historySlots wrappedDb.heap (wrappedDb.objmeta 0)).filter
        (· ≠ (wrappedDb.objmeta 0).next) = [0] := by decide +kernel
    have hbegun : PtrBegun 5 wrappedDb (writedataPtrBegin wrappedDb ⟨1, false⟩ 5 0).db :=
      .begin (by decide +kernel)
    rw [(hread _ hbegun 2 ⟨2, false⟩ .last 0 .zero 64 0 (Nat.le_refl 2)).1, hslots]

end KogmoRtdb
