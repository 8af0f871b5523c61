import KogmoRtdb.Meta.Visibility

/-!
# Incremental searches

`kogmo_rtdb_obj_searchinfo_waitnext_until` and `kogmo_rtdb_obj_searchinfo_lists_nonblocking`
compare a new list of matches with the list the caller has, by nested scans of the two arrays,
and leave what was added and what was deleted in two more. The scans are modelled here as the
source has them; they enter what the sets' differences have (`collect_entries`), so that the
calls refine those of `IdLists` (`waitnextUntil_eq`, `listsNonblocking_eq`).

The reports of any number of such calls that share one known list add up to the matches
(`reports_of_guarded`). What spoils it is a name that is an object id: if the object does not
exist the search leaves the new list as it is, which is as the stack had it.
-/

namespace KogmoRtdb

open Prog

/-! ## The loops over the arrays -/

/-- `while (idlist[++j]) if (idlist[j] == oid) ..`: whether the list has the oid. -/
def scanFor (idlist : IdList) (oid : ObjId) : Nat → Nat → Bool
  | 0, _ => false
  | fuel + 1, j =>
      if idlist j = 0 then false
      else if idlist j = oid then true
      else scanFor idlist oid fuel (j + 1)

/-- `list[num++] = oid` -/
def enter (list : IdList × Nat) (oid : ObjId) : IdList × Nat :=
  (Function.update list.1 list.2 oid, list.2 + 1)

/-- The loop that enters what the first list has and the second has not. -/
def scanNew (idlist other : IdList) : Nat → Nat → IdList × Nat → IdList × Nat
  | 0, _, list => list
  | fuel + 1, i, list =>
      if idlist i = 0 then list
      else if scanFor other (idlist i) (idlistMax + 1) 0 then
        scanNew idlist other fuel (i + 1) list
      else scanNew idlist other fuel (i + 1) (enter list (idlist i))

def collect (idlist other : IdList) (list : IdList × Nat) : IdList × Nat :=
  let list := scanNew idlist other (idlistMax + 1) 0 list
  (Function.update list.1 list.2 0, list.2)

/-- `while (newidlist[++i]) known_idlist[i] = newidlist[i]; known_idlist[i] = 0`. -/
def copyList (newidlist : IdList) : Nat → Nat → IdList → IdList
  | 0, i, known => Function.update known i 0
  | fuel + 1, i, known =>
      if newidlist i = 0 then Function.update known i 0
      else copyList newidlist fuel (i + 1) (Function.update known i (newidlist i))

/-! ## The calls -/

structure ListArgs where
  known : IdList
  added : IdList
  deleted : IdList

/-- `kogmo_rtdb_obj_searchinfo_waitnext_until`; the counters are not set back for another
round. -/
def waitnextUntil (env : Env) (name : Option ObjName) (otype : Int)
    (parentOid procOid : ObjId) (wakeupTs : Timestamp) :
    Nat → ListArgs → IdList → Nat → Nat → Call (Result × ListArgs)
  | 0, _, _, _, _ => Prog.diverge
  | fuel + 1, lists, newidlist, numAdded, numDeleted => do
      objmetaLock env
      let (ret, out) ← searchinfoNolock env name otype parentOid procOid 0 (some newidlist) 0
      let newidlist := out.getD newidlist
      match ret with
      | .error .invalid =>
          objmetaUnlock
          return (.error .invalid, lists)
      | _ =>
          let (added, numAdded) := collect newidlist lists.known (lists.added, numAdded)
          let (deleted, numDeleted) := collect lists.known newidlist (lists.deleted, numDeleted)
          if 0 < numAdded ∨ 0 < numDeleted then
            objmetaUnlock
            return (.ok (numAdded + numDeleted),
              { known := copyList newidlist (idlistMax + 1) 0 lists.known
                added := added
                deleted := deleted })
          else if ← waitMetanotify env wakeupTs then
            objmetaUnlock
            return (.error .timeout, { lists with added := added, deleted := deleted })
          else
            waitnextUntil env name otype parentOid procOid wakeupTs fuel
              { lists with added := added, deleted := deleted } newidlist numAdded numDeleted

/-- `kogmo_rtdb_obj_searchinfo_lists_nonblocking`. -/
def listsNonblocking (env : Env) (name : Option ObjName) (otype : Int)
    (parentOid procOid : ObjId) (lists : ListArgs) : Call (Result × ListArgs) := do
  objmetaLock env
  let (ret, out) ← searchinfoNolock env name otype parentOid procOid 0 (some env.uninit) 0
  let newidlist := out.getD env.uninit
  match ret with
  | .error .invalid =>
      objmetaUnlock
      return (.error .invalid, lists)
  | _ =>
      let (added, numAdded) := collect newidlist lists.known (lists.added, 0)
      let (deleted, numDeleted) := collect lists.known newidlist (lists.deleted, 0)
      objmetaUnlock
      return (.ok (numAdded + numDeleted),
        { known := copyList newidlist (idlistMax + 1) 0 lists.known
          added := added
          deleted := deleted })

/-! ## What the loops compute -/

/-- The entries from place `i` on, of `n` places. -/
def IdList.entriesFrom (idlist : IdList) (i n : Nat) : List ObjId :=
  ((List.range' i n).map idlist).takeWhile (· ≠ 0)

variable {idlist other known newidlist : IdList} {oid : ObjId}

theorem entriesFrom_zero (idlist : IdList) :
    idlist.entriesFrom 0 (idlistMax + 1) = idlist.entries := by
  unfold IdList.entriesFrom IdList.entries
  rw [List.range_eq_range']

theorem entriesFrom_succ (idlist : IdList) (i n : Nat) : idlist.entriesFrom i (n + 1) =
    if idlist i = 0 then [] else idlist i :: idlist.entriesFrom (i + 1) n := by
  unfold IdList.entriesFrom
  rw [List.range'_succ, List.map_cons]
  by_cases h0 : idlist i = 0
  · rw [if_pos h0, List.takeWhile_cons_of_neg (by simp [h0])]
  · rw [if_neg h0, List.takeWhile_cons_of_pos (by simp [h0])]

theorem scanFor_eq (idlist : IdList) (oid : ObjId) (n j : Nat) :
    scanFor idlist oid n j = decide (oid ∈ idlist.entriesFrom j n) := by
  induction n generalizing j with
  | zero => rfl
  | succ n ih =>
      rw [scanFor, entriesFrom_succ]
      by_cases h0 : idlist j = 0
      · simp [h0]
      · rw [if_neg h0, if_neg h0]
        by_cases heq : idlist j = oid
        · simp [heq]
        · rw [if_neg heq, ih]
          have hne : ¬ oid = idlist j := fun h => heq h.symm
          simp [hne]

theorem scanNew_eq (idlist other : IdList) (n i : Nat) (list : IdList × Nat) :
    scanNew idlist other n i list =
      ((idlist.entriesFrom i n).filter (· ∉ other.entries)).foldl enter list := by
  induction n generalizing i list with
  | zero => rfl
  | succ n ih =>
      rw [scanNew, entriesFrom_succ, scanFor_eq, entriesFrom_zero]
      by_cases h0 : idlist i = 0
      · rw [if_pos h0, if_pos h0]
        rfl
      · rw [if_neg h0, if_neg h0]
        by_cases hmem : idlist i ∈ other.entries
        · rw [if_pos (by simpa using hmem), ih, List.filter_cons_of_neg (by simpa using hmem)]
        · rw [if_neg (by simpa using hmem), ih, List.filter_cons_of_pos (by simpa using hmem),
            List.foldl_cons]

theorem foldl_enter (l : List ObjId) (idlist : IdList) :
    (l.foldl enter (idlist, 0)).2 = l.length ∧
      ∀ (k : Nat) (hk : k < l.length), (l.foldl enter (idlist, 0)).1 k = l[k] := by
  induction l using List.reverseRecOn with
  | nil => simp
  | append_singleton l o ih =>
      obtain ⟨hnum, hget⟩ := ih
      rw [List.foldl_append, List.foldl_cons, List.foldl_nil, enter]
      refine ⟨by simp [hnum], fun k hk => ?_⟩
      rw [hnum]
      dsimp only
      by_cases hlast : k = l.length
      · subst hlast
        simp
      · have hk' : k < l.length := by
          simp only [List.length_append, List.length_singleton] at hk
          omega
        rw [Function.update_of_ne hlast, hget k hk', List.getElem_append_left hk']

/-- A list that starts with nonzero entries and then ends has them. -/
theorem entries_of_append {l : List ObjId} (hlen : l.length ≤ idlistMax + 1)
    (hget : ∀ (k : Nat) (hk : k < l.length), idlist k = l[k]) (hne : ∀ c ∈ l, c ≠ 0)
    (hend : idlist l.length = 0) : idlist.entries = l := by
  have hmap : (List.range l.length).map idlist = l := by
    refine List.ext_getElem (by simp) fun k hk hk' => ?_
    rw [List.getElem_map, List.getElem_range]
    exact hget k hk'
  have htake : l.takeWhile (· ≠ 0) = l :=
    List.takeWhile_eq_self_iff.mpr fun c hc => decide_eq_true (hne c hc)
  by_cases hle : l.length ≤ idlistMax
  · rw [IdList.entries_of_end hle hend, hmap, htake]
  · unfold IdList.entries
    rw [show idlistMax + 1 = l.length by omega, hmap, htake]

theorem entries_length_le (idlist : IdList) : idlist.entries.length ≤ idlistMax + 1 := by
  unfold IdList.entries
  refine (List.takeWhile_prefix _).length_le.trans ?_
  simp

/-- The loop leaves the difference of the lists, and counts it. -/
theorem collect_entries (idlist other list : IdList) :
    (collect idlist other (list, 0)).1.entries = idlist.entries.filter (· ∉ other.entries) ∧
      (collect idlist other (list, 0)).2 = (idlist.entries.filter (· ∉ other.entries)).length := by
  unfold collect
  rw [scanNew_eq, entriesFrom_zero]
  have hlen : (idlist.entries.filter (· ∉ other.entries)).length ≤ idlistMax + 1 :=
    (List.length_filter_le ..).trans (entries_length_le idlist)
  have hne : ∀ c ∈ idlist.entries.filter (· ∉ other.entries), c ≠ 0 :=
    fun c hc => IdList.ne_zero_of_mem_entries (List.mem_filter.mp hc).1
  generalize idlist.entries.filter (· ∉ other.entries) = l at hlen hne ⊢
  obtain ⟨hnum, hget⟩ := foldl_enter l list
  dsimp only
  rw [hnum]
  refine ⟨entries_of_append hlen (fun k hk => ?_) hne (Function.update_self ..), rfl⟩
  rw [Function.update_of_ne (by omega)]
  exact hget k hk

theorem copyList_eq (newidlist : IdList) (n i : Nat) (known : IdList) :
    copyList newidlist n i known = fun k =>
      if i ≤ k ∧ k < i + (newidlist.entriesFrom i n).length then newidlist k
      else if k = i + (newidlist.entriesFrom i n).length then 0
      else known k := by
  induction n generalizing i known with
  | zero =>
      funext k
      have hnil : newidlist.entriesFrom i 0 = [] := rfl
      rw [copyList, hnil, List.length_nil, if_neg (by omega), Function.update_apply]
      rfl
  | succ n ih =>
      funext k
      rw [copyList, entriesFrom_succ]
      by_cases h0 : newidlist i = 0
      · rw [if_pos h0, if_pos h0, List.length_nil, if_neg (by omega), Function.update_apply]
        rfl
      · rw [if_neg h0, if_neg h0, ih, List.length_cons]
        generalize (newidlist.entriesFrom (i + 1) n).length = len
        dsimp only
        rcases Nat.lt_trichotomy k i with hlt | rfl | hgt
        · rw [if_neg (by omega), if_neg (by omega), if_neg (by omega), if_neg (by omega),
            Function.update_of_ne (by omega)]
        · rw [if_neg (by omega), if_neg (by omega), if_pos (by omega), Function.update_self]
        · rw [Function.update_of_ne (by omega)]
          have hin : (i + 1 ≤ k ∧ k < i + 1 + len) ↔ (i ≤ k ∧ k < i + (len + 1)) := by omega
          have hend : k = i + 1 + len ↔ k = i + (len + 1) := by omega
          simp only [hin, hend]

/-! ## What the calls compute -/

def ListArgs.contents (lists : ListArgs) : IdLists where
  known := lists.known
  added := lists.added.entries
  deleted := lists.deleted.entries

variable {env : Env} {name : Option ObjName} {otype : Int} {parentOid procOid : ObjId}
  {wakeupTs : Timestamp}

theorem copyList_takeOver (newidlist : IdList) (lists : IdLists) :
    copyList newidlist (idlistMax + 1) 0 lists.known = (lists.takeOver newidlist).known := by
  rw [copyList_eq, entriesFrom_zero]
  funext k
  unfold IdLists.takeOver
  simp only [Nat.zero_le, true_and, Nat.zero_add]

theorem listsNonblocking_eq (lists : ListArgs) :
    (fun r => (r.1, r.2.contents)) <$>
        listsNonblocking env name otype parentOid procOid lists =
      searchinfoListsNonblocking env name otype parentOid procOid lists.contents := by
  unfold listsNonblocking searchinfoListsNonblocking
  rw [map_bind]
  refine bind_congr fun _ => ?_
  rw [map_bind]
  refine bind_congr fun r => ?_
  obtain ⟨ret, out⟩ := r
  dsimp only
  generalize out.getD env.uninit = newidlist
  obtain ⟨hadded, hnumAdded⟩ := collect_entries newidlist lists.known lists.added
  obtain ⟨hdeleted, hnumDeleted⟩ := collect_entries lists.known newidlist lists.deleted
  have hcopy := copyList_takeOver newidlist (IdLists.compare lists.known newidlist)
  have hfound : ∀ (numAdded numDeleted : Nat),
      numAdded = (IdLists.compare lists.known newidlist).added.length →
      numDeleted = (IdLists.compare lists.known newidlist).deleted.length →
      (fun r : Result × ListArgs => (r.1, r.2.contents)) <$> (do
          objmetaUnlock
          return (.ok (numAdded + numDeleted),
            { known := copyList newidlist (idlistMax + 1) 0 lists.known
              added := (collect newidlist lists.known (lists.added, 0)).1
              deleted := (collect lists.known newidlist (lists.deleted, 0)).1 }) :
          Call (Result × ListArgs)) =
        (do
          objmetaUnlock
          return (.ok ((IdLists.compare lists.known newidlist).added.length +
              (IdLists.compare lists.known newidlist).deleted.length),
            (IdLists.compare lists.known newidlist).takeOver newidlist)) := by
    rintro _ _ rfl rfl
    rw [map_bind]
    refine bind_congr fun _ => ?_
    rw [map_pure]
    unfold ListArgs.contents
    dsimp only
    rw [hadded, hdeleted, show lists.known = (IdLists.compare lists.known newidlist).known from rfl,
      hcopy]
    rfl
  cases ret with
  | ok n => exact hfound _ _ hnumAdded hnumDeleted
  | error e =>
      cases e with
      | invalid =>
          dsimp only
          rw [map_bind]
          refine bind_congr fun _ => ?_
          rw [map_pure]
      | _ => exact hfound _ _ hnumAdded hnumDeleted

/-- The end of the list after a comparison without a difference. -/
theorem compare_contents (lists : ListArgs) (newidlist : IdList) :
    ({ lists with
        added := (collect newidlist lists.known (lists.added, 0)).1
        deleted := (collect lists.known newidlist (lists.deleted, 0)).1 } : ListArgs).contents =
      IdLists.compare lists.known newidlist := by
  unfold ListArgs.contents
  dsimp only
  rw [(collect_entries newidlist lists.known lists.added).1,
    (collect_entries lists.known newidlist lists.deleted).1]
  rfl

/-- The call that waits is the one on lists: when it goes round again, it has counted
nothing. -/
theorem waitnextUntil_eq (fuel : Nat) (lists : ListArgs) (newidlist : IdList) :
    (fun r => (r.1, r.2.contents)) <$>
        waitnextUntil env name otype parentOid procOid wakeupTs fuel lists newidlist 0 0 =
      searchinfoWaitnextUntil env name otype parentOid procOid wakeupTs fuel lists.contents
        newidlist := by
  induction fuel generalizing lists newidlist with
  | zero => rfl
  | succ fuel ih =>
      rw [waitnextUntil, searchinfoWaitnextUntil, map_bind]
      refine bind_congr fun _ => ?_
      rw [map_bind]
      refine bind_congr fun r => ?_
      obtain ⟨ret, out⟩ := r
      dsimp only
      generalize out.getD newidlist = newidlist
      have hcontents := compare_contents lists newidlist
      have hnumAdded := (collect_entries newidlist lists.known lists.added).2
      have hnumDeleted := (collect_entries lists.known newidlist lists.deleted).2
      generalize collect newidlist lists.known (lists.added, 0) = added at hcontents hnumAdded ⊢
      generalize collect lists.known newidlist (lists.deleted, 0) = deleted
        at hcontents hnumDeleted ⊢
      obtain ⟨added, numAdded⟩ := added
      obtain ⟨deleted, numDeleted⟩ := deleted
      dsimp only at hcontents hnumAdded hnumDeleted ⊢
      have hrest : (fun r : Result × ListArgs => (r.1, r.2.contents)) <$> (
            if 0 < numAdded ∨ 0 < numDeleted then do
              objmetaUnlock
              return (.ok (numAdded + numDeleted),
                { known := copyList newidlist (idlistMax + 1) 0 lists.known
                  added := added
                  deleted := deleted })
            else do
              if ← waitMetanotify env wakeupTs then
                objmetaUnlock
                return (.error .timeout, { lists with added := added, deleted := deleted })
              else
                waitnextUntil env name otype parentOid procOid wakeupTs fuel
                  { lists with added := added, deleted := deleted } newidlist numAdded
                  numDeleted : Call (Result × ListArgs)) =
          (let found := IdLists.compare lists.contents.known newidlist
          if found.added.length + found.deleted.length = 0 then do
            if ← waitMetanotify env wakeupTs then
              objmetaUnlock
              return (.error .timeout, found)
            else
              searchinfoWaitnextUntil env name otype parentOid procOid wakeupTs fuel found
                newidlist
          else do
            objmetaUnlock
            return (.ok (found.added.length + found.deleted.length),
              found.takeOver newidlist)) := by
        have hcompare : IdLists.compare lists.contents.known newidlist =
            { lists with added := added, deleted := deleted }.contents := hcontents.symm
        rw [hcompare]
        have hadded : added.entries.length = numAdded :=
          (congrArg (fun l : IdLists => l.added.length) hcontents).trans hnumAdded.symm
        have hdeleted : deleted.entries.length = numDeleted :=
          (congrArg (fun l : IdLists => l.deleted.length) hcontents).trans hnumDeleted.symm
        dsimp only [ListArgs.contents]
        simp only [hadded, hdeleted]
        by_cases hzero : numAdded + numDeleted = 0
        · obtain ⟨rfl, rfl⟩ := Nat.add_eq_zero_iff.mp hzero
          rw [if_neg (by omega), if_pos (by omega), map_bind]
          refine bind_congr fun timedOut => ?_
          cases timedOut with
          | true => rfl
          | false => exact ih _ newidlist
        · rw [if_pos (by omega), if_neg (by omega), map_bind]
          refine bind_congr fun _ => ?_
          rw [map_pure]
          rw [copyList_takeOver newidlist
            { known := lists.known, added := added.entries, deleted := deleted.entries }]
          rfl
      cases ret with
      | ok n => exact hrest
      | error e =>
          cases e with
          | invalid =>
              dsimp only
              rw [map_bind]
              refine bind_congr fun _ => ?_
              rw [map_pure]
          | _ => exact hrest

/-! ## The list of the last search -/

def newList (env : Env) (db : Db) (name : Option ObjName) (otype : Int)
    (parentOid procOid : ObjId) (idlist : IdList) : IdList :=
  (searchDb env db name otype parentOid procOid 0 (some idlist) 0).2.getD idlist

/-- What a call answers that has found the new list different from the known one. -/
structure ReturnsDiff (known newidlist : IdList) (n : Int) (lists : IdLists) : Prop where
  lists_eq : lists = (IdLists.compare known newidlist).takeOver newidlist
  count : n = (IdLists.compare known newidlist).added.length +
    (IdLists.compare known newidlist).deleted.length

def SameEntries (known newidlist : IdList) : Prop :=
  (IdLists.compare known newidlist).added.length +
    (IdLists.compare known newidlist).deleted.length = 0

theorem searchDb_badPattern (db : Db) (parentOid procOid : ObjId) (ts : Timestamp)
    (idlist : Option IdList) (nth : Int) (hname : searchName env name otype = .badPattern) :
    (searchDb env db name otype parentOid procOid ts idlist nth).1 = .error .invalid := by
  unfold searchDb
  rw [hname]

/-- What the call without waiting answers is about the list of its search. -/
theorem listsNonblocking_cases {lists out : IdLists} {w w' : World} {ret : Result}
    (hrun : searchinfoListsNonblocking env name otype parentOid procOid lists w =
      some ((ret, out), w')) :
    (ret = .error .invalid ∧ out = lists) ∨
      ∃ n, ret = .ok n ∧ searchName env name otype ≠ .badPattern ∧
        ReturnsDiff lists.known (newList env w'.db name otype parentOid procOid env.uninit) n
          out := by
  unfold searchinfoListsNonblocking at hrun
  obtain ⟨_, w₁, hlock, hrun⟩ := bind_some.mp hrun
  obtain ⟨⟨found, list⟩, w₂, hsearch, hrun⟩ := bind_some.mp hrun
  rw [searchinfoNolock_eq] at hsearch
  obtain ⟨hans, rfl⟩ := Prod.mk.inj (Option.some.inj hsearch)
  have hlist : newList env w₁.db name otype parentOid procOid env.uninit =
      list.getD env.uninit := by
    unfold newList
    rw [hans]
  dsimp only at hrun
  split at hrun
  · obtain ⟨_, w₂, -, hrun⟩ := bind_some.mp hrun
    obtain ⟨heq, -⟩ := pure_some.mp hrun
    cases heq
    exact Or.inl ⟨rfl, rfl⟩
  · rename_i hvalid
    obtain ⟨_, w₂, hunlock, hrun⟩ := bind_some.mp hrun
    cases hunlock
    obtain ⟨heq, rfl⟩ := pure_some.mp hrun
    cases heq
    refine Or.inr ⟨_, rfl, fun hbad => hvalid ?_, ?_⟩
    · have := searchDb_badPattern w₁.db parentOid procOid 0 (some env.uninit) 0 hbad
      rw [hans] at this
      exact this
    · rw [show w₁.unlock.db = w₁.db from rfl, hlist]
      exact ⟨rfl, rfl⟩

/-- So is what the call that waits answers, and the search before, if there was one, had found
no difference. -/
theorem waitnextUntil_cases {fuel : Nat} {lists out : IdLists} {idlist : IdList} {w w' : World}
    {ret : Result}
    (hrun : searchinfoWaitnextUntil env name otype parentOid procOid wakeupTs fuel lists idlist w =
      some ((ret, out), w')) :
    (∃ e, ret = .error e ∧ out.known = lists.known) ∨
      ∃ n idlist', ret = .ok n ∧ n ≠ 0 ∧ searchName env name otype ≠ .badPattern ∧
        (idlist' = idlist ∨ SameEntries lists.known idlist') ∧
        ReturnsDiff lists.known (newList env w'.db name otype parentOid procOid idlist') n out := by
  induction fuel generalizing lists idlist w with
  | zero => cases hrun
  | succ fuel ih =>
      rw [searchinfoWaitnextUntil] at hrun
      obtain ⟨_, w₁, hlock, hrun⟩ := bind_some.mp hrun
      obtain ⟨⟨found, list⟩, w₂, hsearch, hrun⟩ := bind_some.mp hrun
      rw [searchinfoNolock_eq] at hsearch
      obtain ⟨hans, rfl⟩ := Prod.mk.inj (Option.some.inj hsearch)
      have hlist : newList env w₁.db name otype parentOid procOid idlist =
          list.getD idlist := by
        unfold newList
        rw [hans]
      dsimp only at hrun
      split at hrun
      · obtain ⟨_, w₂, -, hrun⟩ := bind_some.mp hrun
        obtain ⟨heq, -⟩ := pure_some.mp hrun
        cases heq
        exact Or.inl ⟨_, rfl, rfl⟩
      · rename_i hvalid
        have hname : searchName env name otype ≠ .badPattern := by
          intro hbad
          have := searchDb_badPattern w₁.db parentOid procOid 0 (some idlist) 0 hbad
          rw [hans] at this
          exact hvalid this
        split at hrun
        · rename_i hsame
          obtain ⟨timedOut, w₂, hwait, hrun⟩ := bind_some.mp hrun
          cases timedOut with
          | true =>
              obtain ⟨_, w₃, -, hrun⟩ := bind_some.mp hrun
              obtain ⟨heq, -⟩ := pure_some.mp hrun
              cases heq
              exact Or.inl ⟨_, rfl, rfl⟩
          | false =>
              rcases ih hrun with herr | ⟨n, idlist', rfl, hn, -, hprev, hdiff⟩
              · exact Or.inl herr
              · refine Or.inr ⟨n, idlist', rfl, hn, hname, Or.inr ?_, hdiff⟩
                rcases hprev with rfl | hprev
                · exact hsame
                · exact hprev
        · rename_i hdiff
          obtain ⟨_, w₂, hunlock, hrun⟩ := bind_some.mp hrun
          cases hunlock
          obtain ⟨heq, rfl⟩ := pure_some.mp hrun
          cases heq
          refine Or.inr ⟨_, idlist, rfl, by omega, hname, Or.inl rfl, ?_⟩
          rw [show w₁.unlock.db = w₁.db from rfl, hlist]
          exact ⟨rfl, rfl⟩

/-! ## Calls that share a known list -/

def currentMatches (env : Env) (db : Db) (name : Option ObjName) (otype : Int)
    (procOid : ObjId) : List ObjId :=
  match searchName env name otype with
  | .oid oid => if db.findmetaById oid = none then [] else [oid]
  | .scan test otype => allMatches db test otype 0 procOid 0
  | .badPattern => []

/-- One of the two calls, with the table and whatever else it finds: between two calls anything
may happen to the table. -/
structure ListCall where
  env : Env
  world : World
  /-- The wake-up time, and how often the call goes round, if it waits. -/
  wait : Option (Timestamp × Nat)

def ListCall.run (c : ListCall) (name : Option ObjName) (otype : Int) (procOid : ObjId)
    (lists : ListArgs) : Option ((Result × ListArgs) × World) :=
  match c.wait with
  | none => listsNonblocking c.env name otype 0 procOid lists c.world
  | some (wakeupTs, fuel) =>
      waitnextUntil c.env name otype 0 procOid wakeupTs fuel lists c.env.uninit 0 0 c.world

/-- A call that has returned a count: what was known before, the matches when it returned, and
what it left. -/
structure Report where
  before : List ObjId
  current : List ObjId
  count : Int
  lists : ListArgs

structure IdList.Holds (idlist : IdList) (l : List ObjId) : Prop where
  stored : ∀ (k : Nat) (hk : k < l.length), idlist k = l[k]
  nonzero : ∀ c ∈ l, c ≠ 0
  fits : l.length ≤ idlistMax
  ended : idlist l.length = 0

/-- The lists are the differences, and the known one is up to date. -/
structure Report.Right (r : Report) : Prop where
  added : ∃ l, r.lists.added.Holds l ∧ l.Nodup ∧ ∀ oid, oid ∈ l ↔ oid ∈ r.current ∧ oid ∉ r.before
  deleted : ∃ l, r.lists.deleted.Holds l ∧ l.Nodup ∧
    ∀ oid, oid ∈ l ↔ oid ∈ r.before ∧ oid ∉ r.current
  count : r.count = r.lists.added.entries.length + r.lists.deleted.entries.length
  known : r.lists.known.Holds r.current

structure ListState where
  lists : ListArgs
  log : List Report

def ListState.after (s : ListState) (current : List ObjId) : Result → ListArgs → ListState
  | .ok n, lists =>
      { lists := lists
        log := ⟨s.lists.known.entries, current, n, lists⟩ :: s.log }
  | .error _, lists => { s with lists := lists }

/-- Any calls in any order, with a known list that starts empty. -/
def listsLts (name : Option ObjName) (otype : Int) (procOid : ObjId) : Lts ListState ListCall where
  init s := s.lists.known 0 = 0 ∧ s.log = []
  step s c := (c.run name otype procOid s.lists).map fun ((ret, lists), w) =>
    s.after (currentMatches c.env w.db name otype procOid) ret lists

def latest : List Report → List ObjId
  | [] => []
  | r :: _ => r.current

def replay : List Report → Set ObjId
  | [] => ∅
  | r :: log =>
      (replay log ∪ {oid | oid ∈ r.lists.added.entries}) \ {oid | oid ∈ r.lists.deleted.entries}

structure ListsRight (s : ListState) : Prop where
  reports : ∀ r ∈ s.log, r.Right
  known : s.lists.known.Holds (latest s.log)
  replayed : replay s.log = {oid | oid ∈ latest s.log}

/-- A search for objects: there are fewer than the list has places for, none of them twice, and
one that is searched for by its oid exists. Else the list, which the search leaves alone, is
empty. -/
def FillsList (env : Env) (db : Db) (name : Option ObjName) (otype : Int) (procOid : ObjId)
    (idlist : IdList) : Prop :=
  match searchName env name otype with
  | .oid oid => db.findmetaById oid ≠ none ∨ idlist 0 = 0
  | .scan test otype => (allMatches db test otype 0 procOid 0).length < idlistMax ∧
      (allMatches db test otype 0 procOid 0).Nodup
  | .badPattern => True

/-- The search that the call ends with is one for objects. -/
def ListGuard (name : Option ObjName) (otype : Int) (procOid : ObjId) (s : ListState)
    (c : ListCall) : Prop :=
  ∀ r w, c.run name otype procOid s.lists = some (r, w) →
    FillsList c.env w.db name otype procOid c.env.uninit

variable {s s' : ListState} {c : ListCall} {db : Db}

theorem entriesFrom_getElem (idlist : IdList) (i n : Nat) :
    (∀ (k : Nat) (hk : k < (idlist.entriesFrom i n).length),
      idlist (i + k) = (idlist.entriesFrom i n)[k]) ∧
    ((idlist.entriesFrom i n).length < n → idlist (i + (idlist.entriesFrom i n).length) = 0) := by
  induction n generalizing i with
  | zero => exact ⟨fun k hk => absurd hk (Nat.not_lt_zero k), fun h => absurd h (Nat.not_lt_zero _)⟩
  | succ n ih =>
      rw [entriesFrom_succ]
      by_cases h0 : idlist i = 0
      · rw [if_pos h0]
        exact ⟨fun k hk => absurd hk (Nat.not_lt_zero k), fun _ => h0⟩
      · rw [if_neg h0]
        obtain ⟨hget, hend⟩ := ih (i + 1)
        refine ⟨fun k hk => ?_, fun hlt => ?_⟩
        · cases k with
          | zero => rfl
          | succ k =>
              rw [List.getElem_cons_succ, ← hget k (Nat.lt_of_succ_lt_succ hk),
                show i + (k + 1) = i + 1 + k by omega]
        · rw [List.length_cons] at hlt ⊢
          rw [← hend (Nat.lt_of_succ_lt_succ hlt)]
          exact congrArg idlist (by omega)

theorem holds_entries (h : idlist.entries.length ≤ idlistMax) : idlist.Holds idlist.entries := by
  obtain ⟨hget, hend⟩ := entriesFrom_getElem idlist 0 (idlistMax + 1)
  rw [entriesFrom_zero] at hget hend
  simp only [Nat.zero_add] at hget hend
  exact ⟨hget, fun c hc => IdList.ne_zero_of_mem_entries hc, h, hend (by omega)⟩

theorem IdList.Holds.entries_eq {l : List ObjId} (h : idlist.Holds l) : idlist.entries = l :=
  entries_of_append (Nat.le_succ_of_le h.fits) h.stored h.nonzero h.ended

/-- The list of a search for objects holds the matches. -/
theorem newList_holds {name : Option ObjName} {otype : Int} {procOid : ObjId}
    (hbad : searchName env name otype ≠ .badPattern)
    (hguard : FillsList env db name otype procOid idlist) :
    (newList env db name otype 0 procOid idlist).Holds (currentMatches env db name otype procOid) ∧
      (currentMatches env db name otype procOid).length < idlistMax ∧
      (currentMatches env db name otype procOid).Nodup := by
  have hone : 1 < idlistMax := by
    unfold idlistMax
    decide
  have hempty {l : IdList} (h0 : l 0 = 0) : l.Holds [] :=
    ⟨fun k hk => absurd hk (Nat.not_lt_zero k), fun c hc => absurd hc List.not_mem_nil,
      Nat.zero_le _, h0⟩
  have hfill {found : List ObjId} (hlen : found.length < idlistMax) (hne : ∀ c ∈ found, c ≠ 0) :
      (idlist.fill found).Holds found := by
    have hentries : (idlist.fill found).entries = found := entries_fill hlen hne
    have hholds : (idlist.fill found).Holds (idlist.fill found).entries :=
      holds_entries (by rw [hentries]; omega)
    rwa [hentries] at hholds
  unfold FillsList at hguard
  unfold newList currentMatches searchDb
  cases hname : searchName env name otype with
  | badPattern => exact absurd hname hbad
  | oid oid =>
      rw [hname] at hguard
      unfold searchDirect
      dsimp only at hguard ⊢
      cases hfind : db.findmetaById oid with
      | none =>
          rw [if_pos rfl]
          exact ⟨hempty (hguard.resolve_left fun h => h hfind), Nat.lt_of_succ_lt hone,
            List.nodup_nil⟩
      | some i =>
          rw [if_neg (by simp)]
          refine ⟨hfill hone fun c hc => ?_, hone, List.nodup_singleton oid⟩
          rw [List.mem_singleton.mp hc]
          exact searchName_oid_ne hname
  | scan test otype =>
      rw [hname] at hguard
      dsimp only at hguard ⊢
      obtain ⟨hlen, hnodup⟩ := hguard
      have hne : ∀ c ∈ allMatches db test otype 0 procOid 0, c ≠ 0 := fun c hc =>
        mem_allMatches_ne hc
      rw [searchTable_eq, upTo, if_neg (Int.lt_irrefl 0)]
      unfold searchAnswer
      refine ⟨?_, hlen, hnodup⟩
      by_cases hnil : allMatches db test otype 0 procOid 0 = []
      · rw [if_pos hnil, hnil]
        have h0 : idlist.clear 0 = 0 := Function.update_self ..
        exact hempty h0
      · rw [if_neg hnil]
        exact hfill hlen hne

theorem takeOver_holds {lists : IdLists} {l : List ObjId} (h : newidlist.Holds l) :
    (lists.takeOver newidlist).known.Holds l := by
  unfold IdLists.takeOver
  rw [h.entries_eq]
  dsimp only
  refine ⟨fun k hk => ?_, h.nonzero, h.fits, ?_⟩
  · rw [if_pos hk]
    exact h.stored k hk
  · rw [if_neg (Nat.lt_irrefl _), if_pos rfl]

/-- A call that returns a count has compared the known list with the matches. -/
theorem report_right {lists out : ListArgs} {newidlist : IdList} {n : Int} {before l : List ObjId}
    (hbefore : lists.known.Holds before) (hnodup : before.Nodup) (hnew : newidlist.Holds l)
    (hnodup' : l.Nodup) (hdiff : ReturnsDiff lists.known newidlist n out.contents) :
    (⟨before, l, n, out⟩ : Report).Right := by
  obtain ⟨hlists, hcount⟩ := hdiff
  have hadded : out.added.entries = l.filter (· ∉ before) := by
    rw [show out.added.entries = out.contents.added from rfl, hlists, ← hnew.entries_eq,
      ← hbefore.entries_eq]
    rfl
  have hdeleted : out.deleted.entries = before.filter (· ∉ l) := by
    rw [show out.deleted.entries = out.contents.deleted from rfl, hlists, ← hnew.entries_eq,
      ← hbefore.entries_eq]
    rfl
  have hholds {idlist : IdList} {m m' : List ObjId} (h : idlist.entries = m.filter (· ∉ m'))
      (hfits : m.length ≤ idlistMax) : idlist.Holds (m.filter (· ∉ m')) := by
    rw [← h]
    refine holds_entries ?_
    rw [h]
    exact (List.length_filter_le ..).trans hfits
  refine ⟨⟨_, hholds hadded hnew.fits, hnodup'.filter _, fun oid => by simp⟩,
    ⟨_, hholds hdeleted hbefore.fits, hnodup.filter _, fun oid => by simp⟩, ?_, ?_⟩
  · dsimp only
    rw [hcount, hadded, hdeleted, ← hnew.entries_eq, ← hbefore.entries_eq]
    rfl
  · have hknown : out.known = ((IdLists.compare lists.known newidlist).takeOver newidlist).known :=
      congrArg IdLists.known hlists
    dsimp only
    rw [hknown]
    exact takeOver_holds hnew

theorem map_some {α β : Type} {f : α → β} {m : Call α} {w w' : World} {a : α}
    (h : m w = some (a, w')) : (f <$> m) w = some (f a, w') := by
  change Option.bind (m w) _ = _
  rw [h]
  rfl

theorem call_cases {name : Option ObjName} {otype : Int} {procOid : ObjId} {lists out : ListArgs}
    {w : World} {ret : Result} (hrun : c.run name otype procOid lists = some ((ret, out), w)) :
    (∃ e, ret = .error e ∧ out.known = lists.known) ∨
      ∃ n idlist, ret = .ok n ∧ searchName c.env name otype ≠ .badPattern ∧
        (idlist = c.env.uninit ∨ n ≠ 0 ∧ SameEntries lists.known idlist) ∧
        ReturnsDiff lists.known (newList c.env w.db name otype 0 procOid idlist) n
          out.contents := by
  unfold ListCall.run at hrun
  split at hrun
  · have hrun := map_some (f := fun r => (r.1, r.2.contents)) hrun
    rw [listsNonblocking_eq] at hrun
    rcases listsNonblocking_cases hrun with ⟨rfl, hknown⟩ | ⟨n, rfl, hname, hdiff⟩
    · exact Or.inl ⟨_, rfl, congrArg IdLists.known hknown⟩
    · exact Or.inr ⟨n, _, rfl, hname, Or.inl rfl, hdiff⟩
  · have hrun := map_some (f := fun r => (r.1, r.2.contents)) hrun
    rw [waitnextUntil_eq] at hrun
    rcases waitnextUntil_cases hrun with
      ⟨e, rfl, hknown⟩ | ⟨n, idlist, rfl, hn, hname, hprev, hdiff⟩
    · exact Or.inl ⟨e, rfl, hknown⟩
    · exact Or.inr ⟨n, idlist, rfl, hname, hprev.imp id fun h => ⟨hn, h⟩, hdiff⟩

/-- The list with which the call ends has the matches in it. -/
theorem lastList_holds {name : Option ObjName} {otype : Int} {procOid : ObjId} {known : IdList}
    {w : World} {n : Int} {lists : IdLists} (hbad : searchName c.env name otype ≠ .badPattern)
    (hguard : FillsList c.env w.db name otype procOid c.env.uninit)
    (hprev : idlist = c.env.uninit ∨ n ≠ 0 ∧ SameEntries known idlist)
    (hdiff : ReturnsDiff known (newList c.env w.db name otype 0 procOid idlist) n lists) :
    (newList c.env w.db name otype 0 procOid idlist).Holds
        (currentMatches c.env w.db name otype procOid) ∧
      (currentMatches c.env w.db name otype procOid).length < idlistMax ∧
      (currentMatches c.env w.db name otype procOid).Nodup := by
  refine newList_holds hbad ?_
  rcases hprev with rfl | ⟨hn, hsame⟩
  · exact hguard
  unfold FillsList at hguard ⊢
  cases hname : searchName c.env name otype with
  | badPattern => trivial
  | scan test otype =>
      rw [hname] at hguard
      exact hguard
  | oid oid =>
      rw [hname] at hguard
      refine Or.inl fun hnone => hn ?_
      -- the list is still that of the search before, and no other than the known one
      have hlist : newList c.env w.db name otype 0 procOid idlist = idlist := by
        unfold newList searchDb searchDirect
        rw [hname]
        dsimp only
        rw [hnone]
        rfl
      have hcount := hdiff.count
      rw [hlist] at hcount
      unfold SameEntries at hsame
      omega

/-- What a run keeps: the reports were right, and what is known is what was last found. -/
structure ListsInv (s : ListState) : Prop extends ListsRight s where
  nodup : (latest s.log).Nodup

theorem replay_report {r : Report} {log : List Report} (hr : r.Right)
    (hbefore : r.before = latest log) (hlog : replay log = {oid | oid ∈ latest log}) :
    replay (r :: log) = {oid | oid ∈ r.current} := by
  obtain ⟨added, hadded, -, hadd⟩ := hr.added
  obtain ⟨deleted, hdeleted, -, hdel⟩ := hr.deleted
  ext oid
  rw [replay, hlog, hadded.entries_eq, hdeleted.entries_eq, ← hbefore]
  simp only [Set.mem_sdiff, Set.mem_union, Set.mem_ofPred_eq, hadd, hdel]
  tauto

theorem listsInv_step {name : Option ObjName} {otype : Int} {procOid : ObjId} (hi : ListsInv s)
    (hg : ListGuard name otype procOid s c)
    (hs : (listsLts name otype procOid).step s c = some s') : ListsInv s' := by
  obtain ⟨⟨⟨ret, out⟩, w⟩, hrun, rfl⟩ := Option.map_eq_some_iff.mp hs
  rcases call_cases hrun with ⟨e, rfl, hknown⟩ | ⟨n, idlist, rfl, hname, hprev, hdiff⟩
  · refine ⟨⟨hi.reports, ?_, hi.replayed⟩, hi.nodup⟩
    show out.known.Holds (latest s.log)
    rw [hknown]
    exact hi.known
  · obtain ⟨hholds, -, hnodup⟩ := lastList_holds hname (hg _ _ hrun) hprev hdiff
    have hright := report_right hi.known hi.nodup hholds hnodup hdiff
    have hbefore : s.lists.known.entries = latest s.log := hi.known.entries_eq
    rw [← hbefore] at hright
    refine ⟨⟨fun r hr => ?_, hright.known, replay_report hright hbefore hi.replayed⟩, hnodup⟩
    rcases List.mem_cons.mp hr with rfl | hr
    · exact hright
    · exact hi.reports r hr

/-- Where the call without waiting reports something, the one that waits does the same. -/
theorem waitnextUntil_of_listsNonblocking {lists out : ListArgs} {n : Int} {w w' : World}
    (hrun : listsNonblocking env name otype parentOid procOid lists w = some ((.ok n, out), w'))
    (hn : n ≠ 0) (wakeupTs : Timestamp) (fuel : Nat) :
    waitnextUntil env name otype parentOid procOid wakeupTs (fuel + 1) lists env.uninit 0 0 w =
      some ((.ok n, out), w') := by
  unfold listsNonblocking at hrun
  obtain ⟨_, w₁, hlock, hrun⟩ := bind_some.mp hrun
  obtain ⟨⟨ret, list⟩, w₂, hsearch, hrun⟩ := bind_some.mp hrun
  rw [waitnextUntil]
  refine bind_some.mpr ⟨_, w₁, hlock, bind_some.mpr ⟨_, w₂, hsearch, ?_⟩⟩
  dsimp only at hrun ⊢
  split at hrun
  · obtain ⟨_, w₃, -, hrun⟩ := bind_some.mp hrun
    obtain ⟨heq, -⟩ := pure_some.mp hrun
    cases heq
  · obtain ⟨_, w₃, hunlock, hrun⟩ := bind_some.mp hrun
    obtain ⟨heq, rfl⟩ := pure_some.mp hrun
    cases heq
    split
    · exact bind_some.mpr ⟨_, _, hunlock, rfl⟩
    · rename_i hzero
      omega

/-- In any sequence of calls that share a known list, each of which ends with a search for
objects, the reports are right and add up to the matches, and both calls report the same. -/
theorem reports_of_guarded {name : Option ObjName} {otype : Int} {procOid : ObjId} {s : ListState}
    (h : (listsLts name otype procOid).Guarded (ListGuard name otype procOid) s) :
    ListsRight s ∧
      ∀ (env : Env) (lists out : ListArgs) (n : Int) (w w' : World),
        listsNonblocking env name otype 0 procOid lists w = some ((.ok n, out), w') → n ≠ 0 →
          ∀ wakeupTs fuel, waitnextUntil env name otype 0 procOid wakeupTs (fuel + 1) lists
            env.uninit 0 0 w = some ((.ok n, out), w') := by
  refine ⟨?_, fun env lists out n w w' hrun hn wakeupTs fuel =>
    waitnextUntil_of_listsNonblocking hrun hn wakeupTs fuel⟩
  have hinv : ListsInv s := by
    refine h.invariant (I := ListsInv) ?_ fun s c s' hi hg hs => listsInv_step hi hg hs
    rintro s ⟨h0, hlog⟩
    have hempty : s.lists.known.Holds [] := ⟨fun k hk => absurd hk (Nat.not_lt_zero k),
      fun c hc => absurd hc List.not_mem_nil, Nat.zero_le _, h0⟩
    refine ⟨⟨?_, ?_, ?_⟩, ?_⟩ <;> rw [hlog]
    · exact fun r hr => absurd hr List.not_mem_nil
    · exact hempty
    · simp [replay, latest]
    · exact List.nodup_nil
  exact hinv.toListsRight

instance (name : Option ObjName) (otype : Int) (procOid : ObjId) (idlist : IdList) :
    Decidable (FillsList env db name otype procOid idlist) := by
  unfold FillsList
  cases searchName env name otype <;> infer_instance

def listGuard (name : Option ObjName) (otype : Int) (procOid : ObjId) (s : ListState)
    (c : ListCall) : Bool :=
  match c.run name otype procOid s.lists with
  | none => true
  | some (_, w) => decide (FillsList c.env w.db name otype procOid c.env.uninit)

theorem listGuard_sound {name : Option ObjName} {otype : Int} {procOid : ObjId} (s : ListState)
    (c : ListCall) (h : listGuard name otype procOid s c = true) :
    ListGuard name otype procOid s c := by
  intro r w hrun
  unfold listGuard at h
  rw [hrun] at h
  exact of_decide_eq_true h

def emptyLists : ListArgs := ⟨fun _ => 0, fun _ => 0, fun _ => 0⟩

/-- Two objects are found, and one of them is found to be deleted. -/
theorem reports_of_guarded_two :
    ∃ s, (listsLts none 0 0).Guarded (ListGuard none 0 0) s ∧ ListsRight s ∧
      s.log.map (fun r => (r.current, r.count)) = [([1], 1), ([1, 2], 2)] := by
  obtain ⟨s, hr, hp⟩ := (listsLts none 0 0).exists_of_execGuarded
    (G := ListGuard none 0 0) (g := listGuard none 0 0) listGuard_sound
    [⟨exampleEnv 4096, tableWith 2, none⟩, ⟨exampleEnv 4096, tableWith 1, some (0, 1)⟩]
    (fun s => decide (s.log.map (fun r => (r.current, r.count)) = [([1], 1), ([1, 2], 2)]))
    (s := ⟨emptyLists, []⟩) ⟨rfl, rfl⟩ (by decide +kernel)
  exact ⟨s, hr, (reports_of_guarded hr).1, of_decide_eq_true hp⟩

/-- A search by the oid of an object that does not exist reports what the stack had in the
list. -/
theorem exists_not_listsRight :
    ∃ (name : Option ObjName) (s : ListState), (listsLts name 0 0).Reachable s ∧
      ¬ ListsRight s := by
  obtain ⟨s, hr, hp⟩ := (listsLts directQuery.name 0 0).exists_of_exec
    [⟨{ directEnv with uninit := fun k => if k = 0 then 7 else 0 }, tableWith 0, none⟩]
    (fun s => decide (s.log.map (fun r => (r.current, r.lists.added.entries)) = [([], [7])]))
    (s := ⟨emptyLists, []⟩) ⟨rfl, rfl⟩ (by decide +kernel)
  have hlog := of_decide_eq_true hp
  refine ⟨directQuery.name, s, hr, fun hright => ?_⟩
  obtain ⟨r, hrest, hreport⟩ := List.map_eq_singleton_iff.mp hlog
  obtain ⟨hcurrent, hentries⟩ := Prod.mk.inj hreport
  have hmem : r ∈ s.log := by
    rw [hrest]
    exact List.mem_singleton_self r
  obtain ⟨l, hholds, -, hmem⟩ := (hright.reports r hmem).added
  have hl : l = [7] := hholds.entries_eq.symm.trans hentries
  have := ((hmem 7).mp (by rw [hl]; exact List.mem_singleton_self 7)).1
  rw [hcurrent] at this
  exact absurd this List.not_mem_nil

end KogmoRtdb
