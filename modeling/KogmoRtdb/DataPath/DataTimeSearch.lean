import KogmoRtdb.DataPath.HistSearch

/-!
# The search by data time is exact

`kogmo_rtdb_obj_readdata_datatime` and its two siblings step back by the order of the commits
and stop by another key, `data_ts`, that several records may share. What they select is the
first record of the list that ends the loop (`searchList_eq_find`), or the last one that does
not (`searchList_eq_takeWhile`), whatever the keys are. While the data times do not decrease,
these are the newest and the oldest commit with the property searched for.
-/

namespace KogmoRtdb

/-- `kogmo_rtdb_obj_readdata_datatime`. -/
def readdataDatatime [Rounding] (db : Db) (h : Handle) := readdataMode db h .datatime
/-- `kogmo_rtdb_obj_readdata_dataolder`. -/
def readdataDataolder [Rounding] (db : Db) (h : Handle) := readdataMode db h .dataolder
/-- `kogmo_rtdb_obj_readdata_datayounger`. -/
def readdataDatayounger [Rounding] (db : Db) (h : Handle) := readdataMode db h .datayounger

/-- The data time of a record, which is its stamp if the writer gave none. -/
def Commit.dataTs (c : Commit) : Timestamp := c.bytes.read64 12

/-! ## What the loops select -/

section Selection

variable {mode : Mode} (ts : Timestamp)

/-- The modes without a running-ahead cursor take the first record that ends their loop. -/
theorem searchList_eq_find (hm : mode.keepsNewer = false) (l : List Probe) :
    searchList mode ts none l =
      atEndResult (l.find? fun p => !mode.goesBack ts (mode.key p)) := by
  induction l with
  | nil => rfl
  | cons p ps ih =>
      cases hg : mode.goesBack ts (mode.key p) with
      | false =>
          have hv : mode.verdict ts none p = .take p := by simp [Mode.verdict, hg, hm]
          simp [searchList, hv, hg, atEndResult]
      | true =>
          have hv : mode.verdict ts none p = .back none := by simp [Mode.verdict, hg, hm]
          simp only [searchList, hv, ih]
          rw [List.find?_cons_of_neg (by simp [hg])]

/-- The others take the last record of those they step over, or the one they came with. -/
theorem searchList_eq_takeWhile (hm : mode.keepsNewer = true) (kept : Option Probe)
    (l : List Probe) :
    searchList mode ts kept l =
      atEndResult ((l.takeWhile fun p => mode.goesBack ts (mode.key p)).getLast?.or kept) := by
  induction l generalizing kept with
  | nil => rfl
  | cons p ps ih =>
      cases hg : mode.goesBack ts (mode.key p) with
      | false =>
          have hv : mode.verdict ts kept p = Mode.atEnd kept := by simp [Mode.verdict, hg, hm]
          rw [List.takeWhile_cons_of_neg (by simp [hg])]
          cases kept <;> simp [searchList, hv, Mode.atEnd, atEndResult]
      | true =>
          have hv : mode.verdict ts kept p = .back (some p) := by simp [Mode.verdict, hg, hm]
          simp only [searchList, hv, ih]
          rw [List.takeWhile_cons_of_pos (by simpa using hg), List.getLast?_cons]
          cases (ps.takeWhile fun p => mode.goesBack ts (mode.key p)).getLast? <;> rfl

end Selection

/-! ## The newest and the oldest -/

section Picks

variable {R : List Commit} {P : Commit → Bool} {c : Commit}

theorem newestWith_of_find (hsorted : R.Pairwise fun c c' => c'.stamp.toInt < c.stamp.toInt)
    (hfind : R.find? P = some c) : NewestWith R (fun c => P c = true) c := by
  induction R with
  | nil => cases hfind
  | cons d R ih =>
      obtain ⟨hd, hR⟩ := List.pairwise_cons.mp hsorted
      cases hP : P d with
      | true =>
          rw [List.find?_cons_of_pos hP] at hfind
          cases hfind
          refine ⟨List.mem_cons_self, hP, fun c' hc' _ => ?_⟩
          rcases List.mem_cons.mp hc' with rfl | hc'
          · exact Int.le_refl _
          · exact Int.le_of_lt (hd c' hc')
      | false =>
          rw [List.find?_cons_of_neg (by simp [hP])] at hfind
          obtain ⟨hmem, hPc, hmax⟩ := ih hR hfind
          refine ⟨List.mem_cons_of_mem _ hmem, hPc, fun c' hc' hP' => ?_⟩
          rcases List.mem_cons.mp hc' with rfl | hc'
          · exact absurd (hP.symm.trans hP') (by decide)
          · exact hmax c' hc' hP'

/-- A property that newer commits share with older ones holds of the records stepped over. -/
theorem takeWhile_eq_filter (hmono : R.Pairwise fun c c' => P c' = true → P c = true) :
    R.takeWhile P = R.filter P := by
  induction R with
  | nil => rfl
  | cons d R ih =>
      obtain ⟨hd, hR⟩ := List.pairwise_cons.mp hmono
      cases hP : P d with
      | true => rw [List.takeWhile_cons_of_pos hP, List.filter_cons_of_pos hP, ih hR]
      | false =>
          have hnone : ∀ c' ∈ R, ¬ P c' = true := fun c' hc' hP' => by
            rw [hd c' hc' hP'] at hP
            cases hP
          rw [List.takeWhile_cons_of_neg (by simp [hP]), List.filter_cons_of_neg (by simp [hP]),
            List.filter_eq_nil_iff.mpr hnone]

theorem oldestWith_of_getLast (hsorted : R.Pairwise fun c c' => c'.stamp.toInt < c.stamp.toInt)
    (hlast : (R.filter P).getLast? = some c) : OldestWith R (fun c => P c = true) c := by
  obtain ⟨l, hl⟩ := List.getLast?_eq_some_iff.mp hlast
  have hmem : c ∈ R.filter P := by
    rw [hl]
    exact List.mem_append_right _ List.mem_cons_self
  have hbefore := hsorted.filter P
  rw [hl] at hbefore
  refine ⟨(List.mem_filter.mp hmem).1, (List.mem_filter.mp hmem).2, fun c' hc' hP' => ?_⟩
  have hc'' : c' ∈ R.filter P := List.mem_filter.mpr ⟨hc', hP'⟩
  rw [hl] at hc''
  rcases List.mem_append.mp hc'' with hc'' | hc''
  · exact Int.le_of_lt ((List.pairwise_append.mp hbefore).2.2 c' hc'' c List.mem_cons_self)
  · exact Int.le_of_eq (by rw [List.mem_singleton.mp hc''])

end Picks

/-! ## The answers -/

section Answers

variable {db : Db} {h : Handle} {oid : ObjId} {i n fuel : Nat} {cs : List Commit} {size : Int}
  {m : Mode}

theorem key_probeOf (hm : m.usesDataTs = true) (r : Int × Commit) :
    m.key (probeOf m r) = r.2.dataTs := by
  simp [Mode.key, probeOf, hm, Commit.dataTs]

/-- The tests of a mode on the records of the ring, in the order of the search. -/
theorem map_snd_find (g : Timestamp → Bool) (l : List (Int × Commit)) :
    (l.find? fun r => g r.2.dataTs).map Prod.snd =
      (l.map Prod.snd).find? fun c => g c.dataTs := by
  rw [List.find?_map]
  rfl

theorem answers_newest_data [Rounding] (ts : Timestamp) (hm : m.usesDataTs = true)
    (hk : m.keepsNewer = false) (hr : Readable db h oid i n cs) (hsize : 0 ≤ size)
    (hfuel : n ≤ fuel) (buf : Mem) (now : Timestamp) :
    Answers (readdataMode db h m oid ts buf size now fuel) size NewestWith (cs.take n)
      fun c => (!m.goesBack ts c.dataTs) = true := by
  refine answers_of_record hr hsize hfuel ?_ buf now
  have hfind : ((ringRecords n cs).take n).find? (fun r => !m.goesBack ts r.2.dataTs) =
      ((ringRecords n cs).take n).find?
        ((fun p => !m.goesBack ts (m.key p)) ∘ probeOf m) := by
    congr 1
    funext r
    rw [Function.comp_apply, key_probeOf hm]
  have hmap := map_snd_find (fun k => !m.goesBack ts k) ((ringRecords n cs).take n)
  rw [ringRecords_take_map_snd] at hmap
  rw [searchList_eq_find ts hk, ringProbes, List.find?_map, ← hfind]
  cases hf : ((ringRecords n cs).take n).find? (fun r => !m.goesBack ts r.2.dataTs) with
  | none =>
      rw [hf] at hmap
      exact ⟨rfl, fun c hc => List.find?_eq_none.mp hmap.symm c hc⟩
  | some r =>
      rw [hf] at hmap
      refine ⟨r, List.mem_of_find?_eq_some hf, rfl, ?_⟩
      exact newestWith_of_find (hr.ring.sorted.sublist (List.take_sublist ..)) hmap.symm

theorem answers_oldest_data [Rounding] (ts : Timestamp) (hm : m.usesDataTs = true)
    (hk : m.keepsNewer = true) (hr : Readable db h oid i n cs)
    (hdata : cs.Pairwise fun c c' => c'.dataTs.toInt ≤ c.dataTs.toInt) (hsize : 0 ≤ size)
    (hfuel : n ≤ fuel) (buf : Mem) (now : Timestamp) :
    Answers (readdataMode db h m oid ts buf size now fuel) size OldestWith (cs.take n)
      fun c => m.goesBack ts c.dataTs = true := by
  refine answers_of_record hr hsize hfuel ?_ buf now
  have htake : ((ringRecords n cs).take n).takeWhile (fun r => m.goesBack ts r.2.dataTs) =
      ((ringRecords n cs).take n).takeWhile
        ((fun p => m.goesBack ts (m.key p)) ∘ probeOf m) := by
    congr 1
    funext r
    rw [Function.comp_apply, key_probeOf hm]
  -- a commit that is stepped over has newer ones that are
  have hmono : (cs.take n).Pairwise fun c c' =>
      m.goesBack ts c'.dataTs = true → m.goesBack ts c.dataTs = true :=
    (hdata.sublist (List.take_sublist ..)).imp fun hle hgo => goesBack_mono hgo hle
  have hlast : ((((ringRecords n cs).take n).takeWhile
      (fun r => m.goesBack ts r.2.dataTs)).getLast?).map Prod.snd =
        ((cs.take n).filter fun c => m.goesBack ts c.dataTs).getLast? := by
    rw [← takeWhile_eq_filter hmono, ← ringRecords_take_map_snd n n cs, List.takeWhile_map,
      List.getLast?_map]
    rfl
  rw [searchList_eq_takeWhile ts hk, ringProbes, List.takeWhile_map, List.getLast?_map, ← htake,
    Option.or_none]
  cases hf : (((ringRecords n cs).take n).takeWhile
      (fun r => m.goesBack ts r.2.dataTs)).getLast? with
  | none =>
      rw [hf] at hlast
      refine ⟨rfl, fun c hc hgo => ?_⟩
      have hnil := List.getLast?_eq_none_iff.mp hlast.symm
      exact List.filter_eq_nil_iff.mp hnil c hc hgo
  | some r =>
      rw [hf] at hlast
      refine ⟨r, ?_, rfl, ?_⟩
      · exact (List.takeWhile_sublist _).subset (List.mem_of_getLast? hf)
      · exact oldestWith_of_getLast (hr.ring.sorted.sublist (List.take_sublist ..)) hlast.symm

end Answers

/-- Search by data time is exact. With `R` the last `n` commits of a run to a fresh object,
and data times that do not decrease: `readdata_datatime` answers with the newest record of `R`
with a data time not after `ts`, `readdata_dataolder` with the newest before `ts`,
`readdata_datayounger` with the oldest after `ts`, and each with `-NOTFOUND` exactly if there is
none. -/
theorem dataTimeSearch_exact [Rounding] {db₀ db : Db} {oid : ObjId} {i n fuel : Nat}
    {cs : List Commit}
    {h : Handle} {size : Int} (hf : FreshObject db₀ oid i n) (hrun : WriteRun db₀ oid cs db)
    (hdata : cs.Pairwise fun c c' => c'.dataTs.toInt ≤ c.dataTs.toInt)
    (hread : (db₀.objmeta i).readDenied h = false) (hsize : 0 ≤ size) (hfuel : n ≤ fuel)
    (ts : Timestamp) (buf : Mem) (now : Timestamp) :
    Answers (readdataDatatime db h oid ts buf size now fuel) size NewestWith (cs.take n)
        (fun c => c.dataTs.toInt ≤ ts.toInt) ∧
      Answers (readdataDataolder db h oid ts buf size now fuel) size NewestWith (cs.take n)
        (fun c => c.dataTs.toInt < ts.toInt) ∧
      Answers (readdataDatayounger db h oid ts buf size now fuel) size OldestWith (cs.take n)
        (fun c => ts.toInt < c.dataTs.toInt) := by
  have hr := hrun.readable hf hread
  refine ⟨?_, ?_, ?_⟩
  · have hdatatime := answers_newest_data (m := .datatime) ts rfl rfl hr hsize hfuel buf now
    have hP : (fun c : Commit => (!Mode.goesBack .datatime ts c.dataTs) = true) =
        fun c => c.dataTs.toInt ≤ ts.toInt := by
      funext c
      simp [Mode.goesBack]
    rwa [hP] at hdatatime
  · have holder := answers_newest_data (m := .dataolder) ts rfl rfl hr hsize hfuel buf now
    have hP : (fun c : Commit => (!Mode.goesBack .dataolder ts c.dataTs) = true) =
        fun c => c.dataTs.toInt < ts.toInt := by
      funext c
      simp [Mode.goesBack]
    rwa [hP] at holder
  · have hyounger :=
      answers_oldest_data (m := .datayounger) ts rfl rfl hr hdata hsize hfuel buf now
    have hP : (fun c : Commit => Mode.goesBack .datayounger ts c.dataTs = true) =
        fun c => ts.toInt < c.dataTs.toInt := by
      funext c
      simp [Mode.goesBack]
    rwa [hP] at hyounger

/-- Two commits of one data time are left in the ring. -/
theorem dataTimeSearch_exact_equal :
    Answers (readdataDatatime wrappedDb ⟨1, false⟩ 5 0x0707070707070707 .zero 64 0 2) 64
        NewestWith ([0x100000009, 0x100000007].map historyCommitAt)
        (fun c => c.dataTs.toInt ≤ (0x0707070707070707 : Timestamp).toInt) ∧
      Answers (readdataDataolder wrappedDb ⟨1, false⟩ 5 0x0707070707070707 .zero 64 0 2) 64
        NewestWith ([0x100000009, 0x100000007].map historyCommitAt)
        (fun c => c.dataTs.toInt < (0x0707070707070707 : Timestamp).toInt) ∧
      Answers (readdataDatayounger wrappedDb ⟨1, false⟩ 5 0x0707070707070707 .zero 64 0 2) 64
        OldestWith ([0x100000009, 0x100000007].map historyCommitAt)
        (fun c => (0x0707070707070707 : Timestamp).toInt < c.dataTs.toInt) :=
  dataTimeSearch_exact historyDb_fresh wrappedDb_run (by decide +kernel) rfl (by decide)
    (Nat.le_refl 2) 0x0707070707070707 .zero 0

end KogmoRtdb
