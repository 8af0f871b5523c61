import KogmoRtdb.Lib.Archive
import KogmoRtdb.DataPath.DataTimeSearch
import KogmoRtdb.DataPath.PtrWrite
import KogmoRtdb.Meta.OwnRing
import KogmoRtdb.Udp.Server

/-!
# Objects as an archive keeps them

What the callers see of an object is its metadata and the records committed to it, without the
slots of a ring, their addresses and the words in them. `Stored` is an object so, and
`Stored.read` what a read of it answers: of the last `history_size` records the newest with the
property that the mode searches for, or the oldest. `HistoryRing` ties the ring to the records,
also in a block that another object has left full of its own, and `readdataMode_stored` says that
the loops of `kogmo_rtdb_obj_readdata__mode` answer the same.
-/

namespace KogmoRtdb

/-! ## What a read answers -/

/-- The metadata less the place of the data in the heap: whether the object has a block, and not
where. -/
def ObjInfo.shown (info : ObjInfo) : ObjInfo :=
  { info with historySlot := -1, bufferIdx := if info.bufferIdx = 0 then 0 else 1 }

abbrev Stored := Archive.Entry ObjInfo Commit

def Mode.wanted (mode : Mode) (ts : Timestamp) (c : Commit) : Bool :=
  match mode with
  | .last => ts = invalidTs || decide (c.stamp.toInt ≤ ts.toInt)
  | .older => c.stamp.toInt < ts.toInt
  | .younger => ts.toInt < c.stamp.toInt
  | .datatime => c.dataTs.toInt ≤ ts.toInt
  | .dataolder => c.dataTs.toInt < ts.toInt
  | .datayounger => ts.toInt < c.dataTs.toInt

/-- The record that a mode finds among the last `n`. -/
def Mode.pick (mode : Mode) (ts : Timestamp) (n : Nat) (cs : List Commit) : Option Commit :=
  if mode.keepsNewer then Archive.oldest (mode.wanted ts) n cs
  else Archive.newest (mode.wanted ts) n cs

namespace Stored

def select (o : Stored) (h : Handle) (mode : Mode) (ts : Timestamp) : Except Err Commit :=
  if o.info.bufferIdx = 0 then .error .notFound
  else if o.info.readDenied h then .error .noPerm
  else if mode = .last ∧ ts = invalidTs ∧ o.info.deletedTs ≠ invalidTs then .error .notFound
  else
    match mode.pick ts o.info.historySize.toNat o.records with
    | none => .error .notFound
    | some c => .ok c

def read [Rounding] (o : Stored) (h : Handle) (mode : Mode) (ts : Timestamp) (buf : Mem)
    (size : Int) (now : Timestamp) : ReadOut :=
  match o.select h mode ts with
  | .error e => { ret := .error e, buf := buf }
  | .ok c =>
      { ret := if tooOld o.info c.stamp now then .error .tooFast else .ok c.size
        buf := c.deliver size buf }

/-- The answer of a write at `committedTs`. -/
def write [Rounding] (o : Stored) (h : Handle) (data : Mem) (committedTs : Timestamp) : Result :=
  let size := (data.read32 20).toInt
  if o.info.bufferIdx = 0 then .error .notFound
  else if size < 24 ∨ o.info.sizeMax < size then .error .invalid
  else if o.info.writeDenied h then .error .noPerm
  else if o.info.flags.cycleWatch &&
      o.records.head?.any fun c =>
        Rounding.float (diffSecs c.stamp committedTs) < o.info.minCycle then
    .error .tooFast
  else .ok 0

end Stored

/-! ## The ring and the records -/

/-- The ring of `n` slots after the commits `cs`, newest first. Of the slots that have not been
written yet only the last one is known to have no stamp. -/
structure HistoryRing (heap : Heap) (info : ObjInfo) (n : Nat) (cs : List Commit) : Prop where
  block : Block info n
  slot : info.historySlot = lastSlot n cs
  held : ∀ r ∈ (ringRecords n cs).take n, HoldsRecord (slotWindow heap info r.1) r.2
  blank : cs.length < n → Stampless heap info (n - 1 : Nat)
  size : ∀ c ∈ cs, (c.size : Int) ≤ info.sizeMax
  stamp : ∀ c ∈ cs, 2 ^ 32 ≤ c.stamp.toInt
  sorted : cs.Pairwise fun c c' => c'.stamp.toInt < c.stamp.toInt

/-- The object is the one that the metadata and the heap say. -/
structure ShownBy (heap : Heap) (info : ObjInfo) (o : Stored) : Prop where
  shown : o.info = info.shown
  ring : info.bufferIdx ≠ 0 → ∃ n, HistoryRing heap info n o.records
  dataless : info.bufferIdx = 0 → o.records = []

variable {db : Db} {heap heap' : Heap} {info info' : ObjInfo} {n i fuel : Nat} {cs : List Commit}
  {c : Commit} {o : Stored} {h : Handle} {mode : Mode} {ts : Timestamp} {oid : ObjId}

/-- The slots of the records, counted back from the latest one. -/
theorem ringRecords_map_fst (hn : 0 < n) (cs : List Commit) :
    (ringRecords n cs).map Prod.fst = (List.range cs.length).map (placeBack n (lastSlot n cs)) := by
  induction cs with
  | nil => rfl
  | cons c cs ih =>
      rw [ringRecords, List.map_cons, ih, List.length_cons, List.range_succ_eq_map, List.map_cons,
        List.map_map]
      have hlt := Nat.mod_lt cs.length hn
      congr 1
      · exact (placeBack_zero (Int.natCast_nonneg _) (Int.ofNat_lt.mpr hlt)).symm
      · refine List.map_congr_left fun k hk => ?_
        cases cs with
        | nil => cases hk
        | cons d ds =>
            rw [Function.comp_apply, lastSlot, lastSlot, placeBack, placeBack, List.length_cons,
              Int.natCast_emod, Int.natCast_emod, Int.emod_sub_emod, Int.emod_sub_emod]
            congr 1
            omega

/-- Before the first record comes the last slot of the ring. -/
theorem placeBack_lastSlot (hn : 0 < n) (cs : List Commit) :
    placeBack n (lastSlot n cs) cs.length = (n - 1 : Nat) := by
  have hmod : (-1 : Int) % n = (n - 1 : Nat) := by
    rw [← Int.add_emod_right, Int.emod_eq_of_lt (by omega) (by omega)]
    omega
  cases cs with
  | nil => exact hmod
  | cons d ds =>
      rw [lastSlot, placeBack, List.length_cons, Int.natCast_emod, Int.emod_sub_emod, ← hmod]
      congr 1
      omega

namespace HistoryRing

theorem hasRecord_of_mem (hr : HistoryRing heap info n cs) {r : Int × Commit}
    (hmem : r ∈ (ringRecords n cs).take n) : hasRecord heap info r.1 = true := by
  have hc : r.2 ∈ ((ringRecords n cs).take n).map Prod.snd := List.mem_map_of_mem hmem
  rw [ringRecords_take_map_snd] at hc
  exact hasRecord_iff.mpr ((hr.held r hmem).hi_ne (hr.stamp _ (List.mem_of_mem_take hc)))

theorem historySlots_eq (hr : HistoryRing heap info n cs) :
    historySlots heap info = ((ringRecords n cs).take n).map Prod.fst := by
  have hn := hr.block.pos
  have hfst : ((ringRecords n cs).take n).map Prod.fst =
      (List.range (min n cs.length)).map (placeBack n info.historySlot) := by
    rw [List.map_take, ringRecords_map_fst hn, hr.slot, ← List.map_take, List.take_range]
  have hhas : ∀ s ∈ (List.range (min n cs.length)).map (placeBack n info.historySlot),
      hasRecord heap info s = true := by
    rw [← hfst]
    intro s hs
    obtain ⟨r, hmem, rfl⟩ := List.mem_map.mp hs
    exact hr.hasRecord_of_mem hmem
  rw [KogmoRtdb.historySlots_eq hr.block, hfst]
  by_cases hfull : n ≤ cs.length
  · rw [Nat.min_eq_left hfull] at hhas ⊢
    exact List.takeWhile_eq_self_iff.mpr hhas
  · -- the scan ends at the last slot of the ring, which comes before the first record
    have hmin : min n cs.length = cs.length := by omega
    rw [hmin] at hhas ⊢
    obtain ⟨k, rfl⟩ : ∃ k, n = cs.length + (k + 1) := ⟨n - cs.length - 1, by omega⟩
    have hlast : placeBack (cs.length + (k + 1)) info.historySlot cs.length =
        (cs.length + (k + 1) - 1 : Nat) := by
      rw [hr.slot, placeBack_lastSlot (by omega)]
    have hend : hasRecord heap info
        (placeBack (cs.length + (k + 1)) info.historySlot cs.length) = false := by
      rw [hlast]
      have hno := hr.blank (by omega)
      unfold Stampless at hno
      exact decide_eq_false (not_not.mpr hno)
    rw [List.range_add, List.map_append, List.takeWhile_append,
      List.takeWhile_eq_self_iff.mpr hhas, if_pos rfl, List.map_map, List.range_succ_eq_map,
      List.map_cons, List.takeWhile_cons_of_neg (by simp [hend]), List.append_nil]

theorem held_latest (hr : HistoryRing heap info n (c :: cs)) :
    HoldsRecord (slotWindow heap info info.historySlot) c := by
  have hn := hr.block.pos
  obtain ⟨k, rfl⟩ : ∃ k, n = k + 1 := ⟨n - 1, by omega⟩
  rw [show info.historySlot = (cs.length % (k + 1) : Nat) from hr.slot]
  refine hr.held (((cs.length % (k + 1) : Nat) : Int), c) ?_
  rw [ringRecords, List.take_succ_cons]
  exact List.mem_cons_self

theorem histscan_eq (hr : HistoryRing heap info n cs) :
    histscan heap info 0 0 0 =
      if cs = [] then none else some (info.historySlot, info.historySlot) := by
  have hn := hr.block.pos
  cases cs with
  | nil => exact histscan_unwritten hr.block hr.slot (hr.blank hn) 0 0
  | cons c cs =>
      have hpos : histPos n info.historySlot = info.historySlot := by
        rw [show info.historySlot = (cs.length % n : Nat) from hr.slot, histPos,
          Ring.tmod_self_add (Nat.mod_lt _ hn)]
      have hno : ¬ Stampless heap info info.historySlot :=
        hr.held_latest.hi_ne (hr.stamp c List.mem_cons_self)
      rw [histscan_zero hr.block, hpos, if_neg hno, if_neg (List.cons_ne_nil c cs)]

/-- A time search of the ring runs through the probes of its records. -/
theorem scanLoop_eq (hr : HistoryRing heap info n (c :: cs)) (hfuel : n ≤ fuel) :
    scanLoop heap info mode ts fuel info.historySlot info.historySlot none =
      some (searchList mode ts none (ringProbes mode n (c :: cs))) := by
  have hn := hr.block.pos
  have hslot : info.historySlot = (cs.length % n : Nat) := hr.slot
  have hlt : cs.length % n < n := Nat.mod_lt _ hn
  have hprobes : (historySlots heap info).map (probeAt heap info mode) =
      ringProbes mode n (c :: cs) := by
    rw [hr.historySlots_eq, List.map_map]
    exact List.map_congr_left fun r hmem => probeAt_eq mode (hr.held r hmem)
  have hfirst : hasRecord heap info info.historySlot = true :=
    hasRecord_iff.mpr (hr.held_latest.hi_ne (hr.stamp c List.mem_cons_self))
  obtain ⟨k, rfl⟩ : ∃ k, n = k + 1 := ⟨n - 1, by omega⟩
  have hplace : placeBack (k + 1) info.historySlot 0 = info.historySlot :=
    placeBack_zero (by omega) (by omega)
  have hloop := @scanLoop_history (k + 1) 0 fuel heap info mode ts info.historySlot hr.block
    (by omega) (by omega) k none (by omega) hfuel
  rw [hplace] at hloop
  rw [hloop, ← hprobes, KogmoRtdb.historySlots_eq hr.block, List.range_eq_range',
    List.range'_succ, List.map_cons, List.map_cons, hplace, List.takeWhile_cons_of_pos hfirst,
    List.map_cons]

end HistoryRing

/-! ## Searching -/

/-- The loops go back over the records that are not wanted, or, in the modes whose cursor runs
ahead, over those that are. -/
theorem goesBack_probeOf (mode : Mode) (ts : Timestamp) (r : Int × Commit) :
    mode.goesBack ts (mode.key (probeOf mode r)) =
      if mode.keepsNewer then mode.wanted ts r.2 else !mode.wanted ts r.2 := by
  have hle (a b : Int) : (!decide (a ≤ b)) = decide (b < a) := by
    rw [← decide_not, decide_eq_decide, Int.not_le]
  have hlt (a b : Int) : (!decide (a < b)) = decide (b ≤ a) := by
    rw [← decide_not, decide_eq_decide, Int.not_lt]
  have hkey : mode.key (probeOf mode r) = if mode.usesDataTs then r.2.dataTs else r.2.stamp := by
    cases mode <;> rfl
  rw [hkey]
  cases mode <;> simp [Mode.goesBack, Mode.wanted, Mode.keepsNewer, Mode.usesDataTs, hle, hlt]

theorem searchList_pick (mode : Mode) (ts : Timestamp) (n : Nat) (cs : List Commit) :
    match mode.pick ts n cs with
    | none => searchList mode ts none (ringProbes mode n cs) = .error .notFound
    | some c => ∃ r ∈ (ringRecords n cs).take n, r.2 = c ∧
        searchList mode ts none (ringProbes mode n cs) = .ok (probeOf mode r) := by
  have hback := goesBack_probeOf mode ts
  unfold Mode.pick
  cases hk : mode.keepsNewer with
  | false =>
      have hcomp : (fun p => !mode.goesBack ts (mode.key p)) ∘ probeOf mode =
          fun r => mode.wanted ts r.2 := by
        funext r
        rw [Function.comp_apply, hback, hk, if_neg Bool.false_ne_true, Bool.not_not]
      rw [if_neg Bool.false_ne_true, searchList_eq_find ts hk, ringProbes, List.find?_map, hcomp,
        Archive.newest, ← ringRecords_take_map_snd n n cs, List.find?_map]
      cases hf : ((ringRecords n cs).take n).find? fun r => mode.wanted ts r.2 with
      | none =>
          rw [show (mode.wanted ts ∘ Prod.snd : Int × Commit → Bool) =
            fun r => mode.wanted ts r.2 from rfl, hf]
          rfl
      | some r =>
          rw [show (mode.wanted ts ∘ Prod.snd : Int × Commit → Bool) =
            fun r => mode.wanted ts r.2 from rfl, hf]
          exact ⟨r, List.mem_of_find?_eq_some hf, rfl, rfl⟩
  | true =>
      have hcomp : (fun p => mode.goesBack ts (mode.key p)) ∘ probeOf mode =
          fun r => mode.wanted ts r.2 := by
        funext r
        rw [Function.comp_apply, hback, hk, if_pos rfl]
      rw [if_pos rfl, searchList_eq_takeWhile ts hk, ringProbes, List.takeWhile_map, hcomp,
        List.getLast?_map, Option.or_none, Archive.oldest, ← ringRecords_take_map_snd n n cs,
        List.takeWhile_map, List.getLast?_map]
      cases hl : (((ringRecords n cs).take n).takeWhile fun r => mode.wanted ts r.2).getLast? with
      | none =>
          rw [show (mode.wanted ts ∘ Prod.snd : Int × Commit → Bool) =
            fun r => mode.wanted ts r.2 from rfl, hl]
          rfl
      | some r =>
          rw [show (mode.wanted ts ∘ Prod.snd : Int × Commit → Bool) =
            fun r => mode.wanted ts r.2 from rfl, hl]
          exact ⟨r, (List.takeWhile_sublist _).subset (List.mem_of_getLast? hl), rfl, rfl⟩

/-! ## Reading -/

theorem shown_bufferIdx : info.shown.bufferIdx = 0 ↔ info.bufferIdx = 0 := by
  unfold ObjInfo.shown
  dsimp only
  split <;> rename_i h0
  · exact iff_of_true rfl h0
  · exact iff_of_false (by decide) h0

theorem select_ok_iff : o.select h mode ts = .ok c ↔
    o.info.bufferIdx ≠ 0 ∧ o.info.readDenied h = false ∧
      ¬ (mode = .last ∧ ts = invalidTs ∧ o.info.deletedTs ≠ invalidTs) ∧
      mode.pick ts o.info.historySize.toNat o.records = some c := by
  unfold Stored.select
  by_cases hidx : o.info.bufferIdx = 0
  · simp [hidx]
  rw [if_neg hidx]
  cases hden : o.info.readDenied h with
  | true => simp
  | false =>
      rw [if_neg Bool.false_ne_true]
      by_cases hlast : mode = .last ∧ ts = invalidTs ∧ o.info.deletedTs ≠ invalidTs
      · rw [if_pos hlast]
        exact iff_of_false (fun h => by cases h) fun h => h.2.2.1 hlast
      · rw [if_neg hlast, and_iff_right hidx, and_iff_right rfl, and_iff_right hlast]
        cases mode.pick ts o.info.historySize.toNat o.records <;> simp

/-- The slot that is selected holds the record that is. -/
inductive Selected (heap : Heap) (info : ObjInfo) :
    Except Err Commit → Except Err (ObjInfo × Probe) → Prop where
  | error (e : Err) : Selected heap info (.error e) (.error e)
  | ok {c : Commit} {p : Probe} (hheld : HoldsRecord (slotWindow heap info p.slot) c)
      (hts : p.ts = c.stamp) : Selected heap info (.ok c) (.ok (info, p))

theorem pick_nil (mode : Mode) (ts : Timestamp) (n : Nat) : mode.pick ts n [] = none := by
  unfold Mode.pick Archive.oldest Archive.newest
  rw [List.take_nil]
  split <;> rfl

theorem selected_ring (hr : HistoryRing heap info n cs) :
    Selected heap info
      (match mode.pick ts n cs with
        | none => .error .notFound
        | some c => .ok c)
      ((searchList mode ts none (ringProbes mode n cs)).map fun p => (info, p)) := by
  have hpick := searchList_pick mode ts n cs
  cases hp : mode.pick ts n cs with
  | none =>
      rw [hp] at hpick
      rw [hpick]
      exact .error _
  | some c =>
      rw [hp] at hpick
      obtain ⟨r, hmem, rfl, hsearch⟩ := hpick
      rw [hsearch]
      exact .ok (hr.held r hmem) rfl

theorem select_stored (hfound : db.findmetaById oid = some i)
    (hs : ShownBy db.heap (db.objmeta i) o) (hfuel : o.info.historySize.toNat ≤ fuel)
    (h : Handle) (mode : Mode) (ts : Timestamp) :
    ∃ sel, select db h mode oid ts fuel = some sel ∧
      Selected db.heap (db.objmeta i) (o.select h mode ts) sel := by
  have hden : o.info.readDenied h = (db.objmeta i).readDenied h := by rw [hs.shown]; rfl
  have hdel : o.info.deletedTs = (db.objmeta i).deletedTs := by rw [hs.shown]; rfl
  have hsize : o.info.historySize = (db.objmeta i).historySize := by rw [hs.shown]; rfl
  have hidx : o.info.bufferIdx = 0 ↔ (db.objmeta i).bufferIdx = 0 := by
    rw [hs.shown]
    exact shown_bufferIdx
  unfold Stored.select select
  rw [hfound, hden, hdel]
  dsimp only
  by_cases h0 : (db.objmeta i).bufferIdx = 0
  · rw [if_pos (hidx.mpr h0), if_pos h0]
    exact ⟨_, rfl, .error _⟩
  rw [if_neg (mt hidx.mp h0), if_neg h0]
  by_cases hdenied : (db.objmeta i).readDenied h = true
  · rw [if_pos hdenied, if_pos hdenied]
    exact ⟨_, rfl, .error _⟩
  rw [if_neg hdenied, if_neg hdenied]
  obtain ⟨n, hr⟩ := hs.ring h0
  have hn := hr.block.pos
  rw [hsize, hr.block.historySize, Int.toNat_natCast]
  rw [hsize, hr.block.historySize, Int.toNat_natCast] at hfuel
  cases hcs : o.records with
  | nil =>
      rw [hcs] at hr
      rw [hr.histscan_eq, if_pos rfl, pick_nil]
      refine ⟨_, rfl, ?_⟩
      split <;> exact .error _
  | cons c cs =>
      rw [hcs] at hr
      rw [hr.histscan_eq, if_neg (List.cons_ne_nil c cs)]
      dsimp only
      split
      · exact ⟨_, rfl, .error _⟩
      · rw [hr.scanLoop_eq hfuel]
        exact ⟨_, rfl, selected_ring hr⟩

/-- Copying out a record, whether it is withheld or not. -/
theorem copyOut_record [Rounding] {p : Probe} (hheld : HoldsRecord (slotWindow heap info p.slot) c)
    (hts : p.ts = c.stamp) (size : Int) (buf : Mem) (now : Timestamp) :
    copyOut heap info p size buf now =
      { ret := if tooOld info c.stamp now then .error .tooFast else .ok c.size
        buf := c.deliver size buf } := by
  have hcopy {n : Nat} (hn : n ≤ c.size) :
      buf.copy 0 (slotWindow heap info p.slot) 0 n = buf.copy 0 c.bytes 0 n := by
    funext b
    by_cases hb : b < n
    · rw [Mem.copy_inside (by omega) (by omega), Mem.copy_inside (by omega) (by omega)]
      exact hheld _ (by omega)
    · rw [Mem.copy_outside (by omega), Mem.copy_outside (by omega)]
  have havail : (if (c.size : Int) ≤ size then (c.size : Int) else size).toNat ≤ c.size := by
    split <;> omega
  unfold copyOut Commit.deliver
  simp only [hheld.read32_size, hheld.read64_stamp, hcopy havail, hts]
  rw [if_neg fun h => h rfl]
  split <;> rfl

/-- A copying read answers what the object with its records does. -/
theorem readdataMode_stored [Rounding] (hfound : db.findmetaById oid = some i)
    (hs : ShownBy db.heap (db.objmeta i) o) (hfuel : o.info.historySize.toNat ≤ fuel)
    (h : Handle) (mode : Mode) (ts : Timestamp) (buf : Mem) (size : Int) (now : Timestamp) :
    readdataMode db h mode oid ts buf size now fuel = some (o.read h mode ts buf size now) := by
  have hold : tooOld o.info = tooOld (db.objmeta i) := by rw [hs.shown]; rfl
  obtain ⟨sel, hsel, hselected⟩ := select_stored hfound hs hfuel h mode ts
  rw [readdataMode, hsel, Option.map_some, Stored.read, hold]
  generalize o.select h mode ts = found at hselected
  cases hselected with
  | error e => rfl
  | ok hheld hts => exact congrArg some (copyOut_record hheld hts size buf now)

theorem readdataModePtr_stored (hfound : db.findmetaById oid = some i)
    (hs : ShownBy db.heap (db.objmeta i) o) (hfuel : o.info.historySize.toNat ≤ fuel)
    (h : Handle) (mode : Mode) (ts : Timestamp) :
    match o.select h mode ts with
    | .error e => readdataModePtr db h mode oid ts fuel = some (.error e)
    | .ok c => ∃ addr, readdataModePtr db h mode oid ts fuel = some (.ok (addr, c.size)) ∧
        HoldsRecord (db.heap.window addr) c := by
  obtain ⟨sel, hsel, hselected⟩ := select_stored hfound hs hfuel h mode ts
  rw [readdataModePtr, hsel]
  generalize o.select h mode ts = found at hselected
  cases hselected with
  | error e => rfl
  | ok hheld hts =>
      refine ⟨_, ?_, hheld⟩
      rw [← hheld.read32_size]
      rfl

/-! ## Writing -/

/-- The test of the cycle time looks at the newest record. -/
theorem tooFast_stored [Rounding] (hs : ShownBy heap info o) (hidx : info.bufferIdx ≠ 0)
    (committedTs : Timestamp) : tooFast heap info committedTs = (o.info.flags.cycleWatch &&
      o.records.head?.any fun c =>
        Rounding.float (diffSecs c.stamp committedTs) < o.info.minCycle) := by
  obtain ⟨n, hr⟩ := hs.ring hidx
  rw [hs.shown, tooFast]
  cases hcs : o.records with
  | nil =>
      rw [hcs] at hr
      rw [hr.histscan_eq, if_pos rfl]
      rfl
  | cons c cs =>
      rw [hcs] at hr
      rw [hr.histscan_eq, if_neg (List.cons_ne_nil c cs)]
      dsimp only
      rw [hr.held_latest.read64_stamp]
      rfl

/-- A write answers what the object with its records does. -/
theorem writedata_stored [Rounding] (hfound : db.findmetaById oid = some i)
    (hs : ShownBy db.heap (db.objmeta i) o) (h : Handle) (data : Mem) (committedTs : Timestamp) :
    (writedata db h oid data committedTs).ret = o.write h data committedTs := by
  have hden : o.info.writeDenied h = (db.objmeta i).writeDenied h := by rw [hs.shown]; rfl
  have hsize : o.info.sizeMax = (db.objmeta i).sizeMax := by rw [hs.shown]; rfl
  have hidx : o.info.bufferIdx = 0 ↔ (db.objmeta i).bufferIdx = 0 := by
    rw [hs.shown]
    exact shown_bufferIdx
  unfold writedata Stored.write
  rw [hfound, hden, hsize]
  dsimp only
  by_cases h0 : (db.objmeta i).bufferIdx = 0
  · rw [if_pos h0, if_pos (hidx.mpr h0)]
  rw [if_neg h0, if_neg (mt hidx.mp h0), ← tooFast_stored hs h0]
  by_cases hmax : (db.objmeta i).sizeMax < (data.read32 20).toInt
  · rw [if_pos hmax, if_pos (Or.inr hmax)]
  rw [if_neg hmax]
  by_cases hmin : (data.read32 20).toInt < 24
  · rw [if_pos hmin, if_pos (Or.inl hmin)]
  have hfits : ¬ ((data.read32 20).toInt < 24 ∨
      (db.objmeta i).sizeMax < (data.read32 20).toInt) := fun hor => hor.elim hmin hmax
  rw [if_neg hmin, if_neg hfits]
  by_cases hdenied : (db.objmeta i).writeDenied h = true
  · rw [if_pos hdenied, if_pos hdenied]
  rw [if_neg hdenied, if_neg hdenied]
  by_cases hfast : tooFast db.heap (db.objmeta i) committedTs = true
  · rw [if_pos hfast, if_pos hfast]
  · rw [if_neg hfast, if_neg hfast]

end KogmoRtdb
