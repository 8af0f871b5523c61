import KogmoRtdb.Meta.Init
import KogmoRtdb.Meta.Searchinfo

/-!
# The answers of a search

The scan of `_kogmo_rtdb_obj_searchinfo` is one loop for the lists and for the n-th match, and its
answer is the one of the list of all matches (`scan_answer_eq`), from which the results below are
read off.

The last entry of a list is not entered but counted: a full list ends in its own place, with
the entry before that not set.
-/

namespace KogmoRtdb

open Prog

/-! ## What is answered -/

def allMatches (db : Db) (test : NameTest) (otype : Int) (parentOid procOid : ObjId)
    (ts : Timestamp) : List ObjId :=
  (((List.range objMax).map db.objmeta).filter fun info =>
    info.matches test otype parentOid procOid ts false).map (·.oid)

/-- The list has the matches in order and ends behind them. Of the entry in the last place
but one of a full list nothing is said. -/
structure ListsMatches (idlist : IdList) (found : List ObjId) : Prop where
  stored : ∀ (k : Nat) (hk : k < found.length), k + 1 < idlistMax → idlist k = found[k]
  ended : idlist (min found.length idlistMax) = 0

/-- The answer to a search for more matches than there are. A parent that does not exist makes
it another error, unless one of its children is a match. -/
structure FewerFound (db : Db) (parentOid : ObjId) (ts : Timestamp) (found : List ObjId)
    (ret : Result) : Prop where
  notFound : found ≠ [] ∨ parentOid = 0 ∨
    (∃ i, db.findmetaById parentOid = some i ∧ (db.objmeta i).deletedTs = 0) →
      ret = .error .notFound
  invalid : found = [] → parentOid ≠ 0 →
    (∀ i, db.findmetaById parentOid = some i → (db.objmeta i).deletedTs ≠ 0 ∧ ts = 0) →
      ret = .error .invalid
  either : ret = .error .notFound ∨ ret = .error .invalid

variable {env : Env} {name : Option ObjName} {otype otype' : Int} {parentOid procOid : ObjId}
  {ts : Timestamp} {test : NameTest} {db : Db} {found : List ObjId}

theorem searchTable_eq (nth : Int) :
    searchTable db test otype parentOid procOid ts nth false =
      upTo nth (allMatches db test otype parentOid procOid ts) := rfl

theorem mem_allMatches_ne {oid : ObjId}
    (hmem : oid ∈ allMatches db test otype parentOid procOid ts) : oid ≠ 0 := by
  obtain ⟨info, hinfo, rfl⟩ := List.mem_map.mp hmem
  have hmatch := (List.mem_filter.mp hinfo).2
  intro h0
  simp [ObjInfo.matches, h0] at hmatch

theorem searchinfo_eq (hname : searchName env name otype = .scan test otype')
    (idlist : Option IdList) (nth : Int) (w : World) :
    searchinfo env name otype parentOid procOid ts idlist nth w =
      some (searchAnswer (w.lock env).db
        (upTo nth (allMatches (w.lock env).db test otype' parentOid procOid ts)) parentOid ts
        idlist nth, (w.lock env).unlock) := by
  unfold searchinfo
  rw [searchinfoMode_matches, hname]
  rfl

theorem noMatch_fewer (db : Db) (parentOid : ObjId) (ts : Timestamp) :
    FewerFound db parentOid ts [] (.error (noMatch db parentOid ts)) := by
  unfold noMatch
  by_cases h0 : parentOid = 0
  · rw [if_pos h0]
    exact ⟨fun _ => rfl, fun _ hne => absurd h0 hne, Or.inl rfl⟩
  · rw [if_neg h0]
    cases hfind : db.findmetaById parentOid with
    | none =>
        refine ⟨?_, fun _ _ _ => rfl, Or.inr rfl⟩
        rintro (h | h | ⟨i, hi, -⟩)
        · exact absurd rfl h
        · exact absurd h h0
        · rw [hfind] at hi
          cases hi
    | some i =>
        dsimp only
        by_cases hdel : (db.objmeta i).deletedTs ≠ 0 ∧
            (ts.toInt < (db.objmeta i).deletedTs.toInt ∨ ts = 0)
        · rw [if_pos hdel]
          refine ⟨?_, fun _ _ _ => rfl, Or.inr rfl⟩
          rintro (h | h | ⟨j, hj, hlive⟩)
          · exact absurd rfl h
          · exact absurd h h0
          · rw [hfind] at hj
            cases hj
            exact absurd hlive hdel.1
        · rw [if_neg hdel]
          refine ⟨fun _ => rfl, fun _ _ hgone => ?_, Or.inl rfl⟩
          obtain ⟨hdeleted, hts⟩ := hgone i hfind
          exact absurd ⟨hdeleted, Or.inr hts⟩ hdel

/-- The answer to a search for the `k`-th match. -/
theorem searchAnswer_nth (db : Db) (parentOid : ObjId) (ts : Timestamp) (found : List ObjId)
    {k : Nat} (hk : 1 ≤ k) :
    ∃ ret, searchAnswer db (upTo k found) parentOid ts none k = (ret, none) ∧
      (∀ o, found[k - 1]? = some o → ret = .ok o) ∧
      (found.length < k → FewerFound db parentOid ts found ret) := by
  have hup : upTo k found = found.take k := by
    unfold upTo
    rw [if_pos (by omega), Int.toNat_natCast]
  rw [hup]
  unfold searchAnswer
  cases found with
  | nil =>
      rw [List.take_nil, if_pos rfl]
      exact ⟨_, rfl, fun o ho => by simp at ho, fun _ => noMatch_fewer db parentOid ts⟩
  | cons o rest =>
      rw [if_neg (by simp; omega)]
      by_cases hle : k ≤ (o :: rest).length
      · refine ⟨_, rfl, fun o' ho => ?_, fun h => by omega⟩
        have hlen : ((o :: rest).take k).length = k := List.length_take_of_le hle
        rw [if_pos (by rw [hlen]), List.getLastD_eq_getLast?, List.getLast?_take,
          if_neg (by omega), ho, Option.some_or, Option.getD_some]
      · refine ⟨_, rfl, fun o' ho => ?_, fun hlt => ?_⟩
        · have := (List.getElem?_eq_some_iff.mp ho).1
          omega
        have hlen : ((o :: rest).take k).length = (o :: rest).length := by
          rw [List.length_take]
          omega
        rw [if_neg (by rw [hlen]; omega)]
        exact ⟨fun _ => rfl, fun h => absurd h (List.cons_ne_nil o rest), Or.inl rfl⟩

/-- A search with a list returns the number of matches and lists them, and one for the `k`-th
match returns that. -/
theorem searchinfo_lists (hname : searchName env name otype = .scan test otype') (w : World)
    (hfound : allMatches (w.lock env).db test otype' parentOid procOid ts = found) :
    (∀ idlist, found ≠ [] → ∃ out w',
      searchinfo env name otype parentOid procOid ts (some idlist) 0 w =
        some ((.ok found.length, some out), w') ∧ ListsMatches out found) ∧
    ∀ k : Nat, 1 ≤ k → ∃ ret w',
      searchinfo env name otype parentOid procOid ts none k w = some ((ret, none), w') ∧
        (∀ o, found[k - 1]? = some o → ret = .ok o) ∧
        (found.length < k → FewerFound (w.lock env).db parentOid ts found ret) := by
  constructor
  · intro idlist hne
    refine ⟨idlist.fill found, (w.lock env).unlock, ?_,
      ⟨fun _ hk hmax => IdList.fill_getElem idlist hk hmax, IdList.fill_end idlist found⟩⟩
    rw [searchinfo_eq hname, hfound]
    unfold searchAnswer upTo
    rw [if_neg (Int.lt_irrefl 0), if_neg hne]
  · intro k hk
    obtain ⟨ret, hret, hok, hfewer⟩ :=
      searchAnswer_nth (w.lock env).db parentOid ts found hk
    refine ⟨ret, (w.lock env).unlock, ?_, hok, hfewer⟩
    rw [searchinfo_eq hname, hfound, hret]

/-- A table with live objects in its first `n` slots. -/
def tableWith (n : Nat) : World where
  db := { Db.initial 4096 with
    objmeta := fun i => if i < n then { oid := i + 1, createdTs := 1 } else {} }
  held := false
  unguarded := false
  heapLog := []
  tick := 0

/-- Two objects, and the searches for them. -/
theorem searchinfo_lists_two :
    (∀ idlist, [1, 2] ≠ ([] : List ObjId) → ∃ out w',
      searchinfo (exampleEnv 4096) none 0 0 0 0 (some idlist) 0 (tableWith 2) =
        some ((.ok 2, some out), w') ∧ ListsMatches out [1, 2]) ∧
    ∀ k : Nat, 1 ≤ k → ∃ ret w',
      searchinfo (exampleEnv 4096) none 0 0 0 0 none k (tableWith 2) = some ((ret, none), w') ∧
        (∀ o, [1, 2][k - 1]? = some o → ret = .ok o) ∧
        ([1, 2].length < k →
          FewerFound ((tableWith 2).lock (exampleEnv 4096)).db 0 0 [1, 2] ret) :=
  searchinfo_lists rfl (tableWith 2) (by decide +kernel)

theorem allMatches_full :
    allMatches ((tableWith objMax).lock (exampleEnv 4096)).db .any 0 0 0 0 =
      (List.range objMax).map fun i : Nat => (i : Int) + 1 := by
  have hmeta : (List.range objMax).map ((tableWith objMax).lock (exampleEnv 4096)).db.objmeta =
      (List.range objMax).map fun i : Nat => { oid := (i : Int) + 1, createdTs := 1 } := by
    refine List.map_congr_left fun i hi => ?_
    exact if_pos (List.mem_range.mp hi)
  unfold allMatches
  rw [hmeta, List.filter_eq_self.mpr, List.map_map]
  · rfl
  · intro info hinfo
    obtain ⟨i, -, rfl⟩ := List.mem_map.mp hinfo
    have hne : (i : Int) + 1 ≠ 0 := by omega
    simp [ObjInfo.matches, NameTest.ok, hne]

/-- Not as one should think: a search without matches for the first child of an object that does
not exist has another error, and a full list has an entry that is not set. -/
theorem exists_search_otherwise :
    (∃ w', allMatches ((tableWith 0).lock (exampleEnv 4096)).db .any 0 7 0 0 = [] ∧
      searchinfo (exampleEnv 4096) none 0 7 0 0 none 1 (tableWith 0) =
        some ((.error .invalid, none), w')) ∧
    ∃ found out w', allMatches ((tableWith objMax).lock (exampleEnv 4096)).db .any 0 0 0 0 = found ∧
      searchinfo (exampleEnv 4096) none 0 0 0 0 (some fun _ => 0) 0 (tableWith objMax) =
        some ((.ok found.length, some out), w') ∧ found.length = idlistMax ∧
      ∃ o, found[idlistMax - 1]? = some o ∧ out (idlistMax - 1) ≠ o := by
  constructor
  · have hnone : allMatches ((tableWith 0).lock (exampleEnv 4096)).db .any 0 7 0 0 = [] := by
      decide +kernel
    refine ⟨((tableWith 0).lock (exampleEnv 4096)).unlock, hnone, ?_⟩
    have hret : noMatch ((tableWith 0).lock (exampleEnv 4096)).db 7 0 = .invalid := by
      decide +kernel
    have hscan : searchName (exampleEnv 4096) none 0 = .scan .any 0 := rfl
    rw [searchinfo_eq hscan, hnone, upTo, if_pos Int.zero_lt_one, List.take_nil, searchAnswer,
      if_pos rfl, hret]
    rfl
  · have hlen : ((List.range objMax).map fun i : Nat => (i : Int) + 1).length = idlistMax := by
      rw [List.length_map, List.length_range]
      unfold objMax idlistMax
      rfl
    have hpos : 0 < idlistMax := by
      unfold idlistMax
      decide
    refine ⟨_, IdList.fill (fun _ => 0) ((List.range objMax).map fun i : Nat => (i : Int) + 1),
      ((tableWith objMax).lock (exampleEnv 4096)).unlock, allMatches_full, ?_, hlen,
      ((idlistMax - 1 : Nat) : Int) + 1, ?_, ?_⟩
    · have hscan : searchName (exampleEnv 4096) none 0 = .scan .any 0 := rfl
      rw [searchinfo_eq hscan, allMatches_full]
      unfold searchAnswer upTo
      rw [if_neg (Int.lt_irrefl 0), if_neg]
      intro hnil
      rw [hnil] at hlen
      exact absurd hlen (Nat.ne_of_lt hpos)
    · rw [List.length_map, List.length_range] at hlen
      rw [List.getElem?_map, List.getElem?_range (by omega)]
      rfl
    · have hne : (0 : Int) ≠ ((idlistMax - 1 : Nat) : Int) + 1 := by omega
      unfold IdList.fill
      rw [hlen, if_neg (by rw [if_neg (Nat.lt_irrefl _)]; omega), if_neg (by omega)]
      exact hne

end KogmoRtdb
