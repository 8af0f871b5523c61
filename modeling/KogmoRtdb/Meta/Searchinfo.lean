import Mathlib.Data.List.Induction
import Mathlib.Data.List.TakeWhile
import KogmoRtdb.Meta.World

/-!
# Searching and reading the metadata

`_kogmo_rtdb_obj_searchinfo` and the functions around it, `readinfo` and
`changeinfo`. The scan of the table is a function of the database; the
calls add where the lock is taken.
-/

namespace KogmoRtdb

/-! ## Result lists -/

/-- `KOGMO_RTDB_OBJIDLIST_MAX`. -/
@[irreducible] def idlistMax : Nat := 1000

def IdList.entries (idlist : IdList) : List ObjId :=
  ((List.range (idlistMax + 1)).map idlist).takeWhile (· ≠ 0)

/-- The list after a search that found `found`. A match in the last place is
counted but not stored. -/
def IdList.fill (idlist : IdList) (found : List ObjId) : IdList := fun k =>
  if k = (if idlistMax < found.length then idlistMax else found.length) then 0
  else if k < found.length ∧ k + 1 < idlistMax then found.getD k 0
  else idlist k

def IdList.clear (idlist : IdList) : IdList := Function.update idlist 0 0

theorem IdList.ne_zero_of_mem_entries {idlist : IdList} {oid : ObjId}
    (h : oid ∈ idlist.entries) : oid ≠ 0 := by
  have := List.mem_takeWhile_imp h
  simpa using this

/-- The last entry of a list is behind those found, or in its own place. -/
theorem IdList.fill_end (idlist : IdList) (found : List ObjId) :
    idlist.fill found (min found.length idlistMax) = 0 := by
  unfold IdList.fill
  refine if_pos ?_
  rw [Nat.min_def]
  split <;> split <;> omega

theorem IdList.fill_getElem (idlist : IdList) {found : List ObjId} {k : Nat}
    (hk : k < found.length) (hmax : k + 1 < idlistMax) : idlist.fill found k = found[k] := by
  unfold IdList.fill
  rw [if_neg (by split <;> omega), if_pos ⟨hk, hmax⟩, List.getD_eq_getElem?_getD,
    List.getElem?_eq_getElem hk, Option.getD_some]

/-- The entries lie before the first place known to hold the end. -/
theorem IdList.entries_of_end {idlist : IdList} {n : Nat} (hn : n ≤ idlistMax)
    (hend : idlist n = 0) :
    idlist.entries = ((List.range n).map idlist).takeWhile (· ≠ 0) := by
  have hrange : List.range (idlistMax + 1) = List.range n ++
      n :: List.range' (n + 1) (idlistMax - n) := by
    rw [← List.range'_succ, List.range_eq_range', List.range_eq_range',
      show idlistMax + 1 = n + (idlistMax - n + 1) by omega]
    exact List.range'_append_1.symm ▸ by simp
  unfold IdList.entries
  rw [hrange, List.map_append, List.map_cons, List.takeWhile_append,
    List.takeWhile_cons_of_neg (by simp [hend]), List.append_nil]
  split
  · rename_i hall
    exact ((List.takeWhile_prefix _).eq_of_length hall).symm
  · rfl

/-! ## `_kogmo_rtdb_obj_searchinfo` -/

inductive NameTest where
  | any
  | exact (name : ObjName)
  | regex (accepts : ObjName → Bool)

def NameTest.ok : NameTest → ObjName → Bool
  | .any, _ => true
  | .exact name, n => decide (n = name)
  | .regex accepts, n => accepts n

inductive SearchName where
  | oid (oid : ObjId)
  | scan (test : NameTest) (otype : Int)
  | badPattern

/-- The treatment of the name argument, `none` being the null pointer. -/
def searchName (env : Env) (name : Option ObjName) (otype : Int) : SearchName :=
  match name with
  | none => .scan .any otype
  | some ('~' :: rest) =>
      if env.directOid ('~' :: rest) ≠ 0 then .oid (env.directOid ('~' :: rest))
      else
        let (otype, pattern) := (env.directType ('~' :: rest)).getD (otype, '~' :: rest)
        match env.regcomp pattern.tail with
        | none => .badPattern
        | some accepts => .scan (.regex accepts) otype
  | some name =>
      match env.nameRemap name with
      | [] => .scan .any otype
      | name => .scan (.exact name) otype

def ObjInfo.matches (info : ObjInfo) (test : NameTest) (otype parentOid procOid : Int)
    (ts : Timestamp) (includedeleted : Bool) : Bool :=
  info.oid ≠ 0 && info.createdTs ≠ 0 && (info.otype = otype || otype = 0) &&
    (info.parentOid = parentOid || parentOid = 0) &&
    (info.createdProc = procOid || procOid = 0) &&
    !(info.deletedTs ≠ 0 && !includedeleted && (info.deletedTs.toInt < ts.toInt || ts = 0)) &&
    !(ts.toInt < info.createdTs.toInt && ts ≠ 0) && test.ok info.name

structure Scan where
  nfound : Nat
  oid : ObjId
  idlist : Option IdList

/-- A match, which is entered into the result list if there is one and there is space. -/
def Scan.found (s : Scan) (oid : ObjId) : Scan where
  nfound := s.nfound + 1
  oid := oid
  idlist := s.idlist.map fun idlist =>
    if s.nfound + 1 < idlistMax then Function.update idlist s.nfound oid else idlist

/-- The scan of the slots, which stops after the `nth` match. -/
def scanSlots (accepts : ObjInfo → Bool) (nth : Int) : List ObjInfo → Scan → Scan
  | [], s => s
  | info :: rest, s =>
      if accepts info then
        if nth = (s.found info.oid).nfound then s.found info.oid
        else scanSlots accepts nth rest (s.found info.oid)
      else scanSlots accepts nth rest s

def noMatch (db : Db) (parentOid : ObjId) (ts : Timestamp) : Err :=
  if parentOid = 0 then .notFound
  else
    match db.findmetaById parentOid with
    | none => .invalid
    | some i =>
        let deletedTs := (db.objmeta i).deletedTs
        if deletedTs ≠ 0 ∧ (ts.toInt < deletedTs.toInt ∨ ts = 0) then .invalid else .notFound

def Scan.answer (s : Scan) (db : Db) (parentOid : ObjId) (ts : Timestamp) (nth : Int) :
    Result × Option IdList :=
  if s.nfound = 0 then (.error (noMatch db parentOid ts), s.idlist.map (·.clear))
  else
    match s.idlist with
    | none => (if nth = s.nfound then .ok s.oid else .error .notFound, none)
    | some idlist =>
        (.ok s.nfound,
          some (Function.update idlist (if idlistMax < s.nfound then idlistMax else s.nfound) 0))

/-- The answer to a search name that is an object id. -/
def searchDirect (db : Db) (oid : ObjId) (idlist : Option IdList) (nth : Int) :
    Result × Option IdList :=
  match db.findmetaById oid with
  | none => (.error .notFound, idlist)
  | some _ =>
      match idlist with
      | none => (if nth = 1 then .ok oid else .error .notFound, none)
      | some idlist => (.ok 1, some (idlist.fill [oid]))

/-- `_kogmo_rtdb_obj_searchinfo`: the answer, and the list if one was given. -/
def searchinfoMode (env : Env) (name : Option ObjName) (otype : Int)
    (parentOid procOid : ObjId) (ts : Timestamp) (idlist : Option IdList) (nth : Int)
    (nolock includedeleted : Bool) : Call (Result × Option IdList) :=
  match searchName env name otype with
  | .badPattern => return (.error .invalid, idlist)
  | .oid oid => do
      let db ← readDb
      return searchDirect db oid idlist nth
  | .scan test otype => do
      Prog.when (!nolock) (objmetaLock env)
      let db ← readDb
      let scan := scanSlots (·.matches test otype parentOid procOid ts includedeleted) nth
        ((List.range objMax).map db.objmeta) ⟨0, 0, idlist⟩
      Prog.when (!nolock) objmetaUnlock
      let db ← readDb
      return scan.answer db parentOid ts nth

/-- `kogmo_rtdb_obj_searchinfo`. -/
def searchinfo (env : Env) (name : Option ObjName) (otype : Int) (parentOid procOid : ObjId)
    (ts : Timestamp) (idlist : Option IdList) (nth : Int) : Call (Result × Option IdList) :=
  searchinfoMode env name otype parentOid procOid ts idlist nth false false

/-- `kogmo_rtdb_obj_searchinfo_nolock`. -/
def searchinfoNolock (env : Env) (name : Option ObjName) (otype : Int)
    (parentOid procOid : ObjId) (ts : Timestamp) (idlist : Option IdList) (nth : Int) :
    Call (Result × Option IdList) :=
  searchinfoMode env name otype parentOid procOid ts idlist nth true false

/-- `kogmo_rtdb_obj_searchinfo_deleted`. -/
def searchinfoDeleted (env : Env) (name : Option ObjName) (otype : Int)
    (parentOid procOid : ObjId) (ts : Timestamp) (idlist : Option IdList) (nth : Int) :
    Call (Result × Option IdList) :=
  searchinfoMode env name otype parentOid procOid ts idlist nth false true

/-! ## The matches -/

/-- The object ids the scan finds, up to the `nth` if that is positive. -/
def searchTable (db : Db) (test : NameTest) (otype parentOid procOid : Int) (ts : Timestamp)
    (nth : Int) (includedeleted : Bool) : List ObjId :=
  let found := (((List.range objMax).map db.objmeta).filter fun info =>
    info.matches test otype parentOid procOid ts includedeleted).map (·.oid)
  if 0 < nth then found.take nth.toNat else found

/-- The answer to a scan that found `found`. -/
def searchAnswer (db : Db) (found : List ObjId) (parentOid : ObjId) (ts : Timestamp)
    (idlist : Option IdList) (nth : Int) : Result × Option IdList :=
  if found = [] then (.error (noMatch db parentOid ts), idlist.map (·.clear))
  else
    match idlist with
    | none => (if nth = found.length then .ok (found.getLastD 0) else .error .notFound, none)
    | some idlist => (.ok found.length, some (idlist.fill found))

/-- The matches that a loop for the `nth` one comes to. -/
def upTo (nth : Int) (found : List ObjId) : List ObjId :=
  if 0 < nth then found.take nth.toNat else found

theorem upTo_cons (nth : Int) (oid : ObjId) (found : List ObjId) :
    upTo nth (oid :: found) = oid :: if nth = 1 then [] else upTo (nth - 1) found := by
  unfold upTo
  by_cases hpos : 0 < nth
  · obtain ⟨k, hk⟩ : ∃ k : Nat, nth = k + 1 := ⟨(nth - 1).toNat, by omega⟩
    rw [if_pos hpos, hk, show ((k : Int) + 1).toNat = k + 1 by omega, List.take_succ_cons,
      show (k : Int) + 1 - 1 = k by omega]
    congr 1
    cases k with
    | zero => rfl
    | succ k => rw [if_neg (by omega), if_pos (by omega), Int.toNat_natCast]
  · rw [if_neg hpos, if_neg (by omega), if_neg (by omega)]

/-- The loop goes through the matches up to the one that is asked for. -/
theorem scanSlots_eq (accepts : ObjInfo → Bool) (nth : Int) (l : List ObjInfo) (s : Scan)
    (hnth : nth ≤ 0 ∨ s.nfound < nth) :
    scanSlots accepts nth l s =
      (upTo (nth - s.nfound) ((l.filter accepts).map (·.oid))).foldl Scan.found s := by
  induction l generalizing s with
  | nil => simp [scanSlots, upTo]
  | cons info rest ih =>
      cases hacc : accepts info with
      | false =>
          rw [scanSlots, if_neg (by simp [hacc]), ih s hnth,
            List.filter_cons_of_neg (by simp [hacc])]
      | true =>
          have hcount : (s.found info.oid).nfound = s.nfound + 1 := rfl
          rw [scanSlots, if_pos hacc, List.filter_cons_of_pos hacc, List.map_cons, upTo_cons,
            List.foldl_cons, hcount]
          by_cases hlast : nth - s.nfound = 1
          · rw [if_pos (by omega), if_pos hlast, List.foldl_nil]
          · rw [if_neg (by omega), if_neg hlast, ih _ (by rw [hcount]; omega), hcount,
              show nth - ((s.nfound + 1 : Nat) : Int) = nth - s.nfound - 1 by omega]

theorem foldl_found (oid : ObjId) (idlist : Option IdList) (found : List ObjId) :
    found.foldl Scan.found ⟨0, oid, idlist⟩ =
      { nfound := found.length
        oid := found.getLastD oid
        idlist := idlist.map fun idlist k =>
          if k < found.length ∧ k + 1 < idlistMax then found.getD k 0 else idlist k } := by
  induction found using List.reverseRecOn with
  | nil => cases idlist <;> simp
  | append_singleton found o ih =>
      rw [List.foldl_append, ih, List.foldl_cons, List.foldl_nil]
      cases idlist with
      | none => simp [Scan.found]
      | some idlist =>
          simp only [Scan.found, Option.map_some, List.length_append, List.length_cons,
            List.length_nil, Scan.mk.injEq, Option.some.injEq]
          refine ⟨trivial, by simp, funext fun k => ?_⟩
          -- the new match is behind the others, or does not fit
          rcases Nat.lt_trichotomy k found.length with hlt | rfl | hgt
          · have hget : (found ++ [o]).getD k 0 = found.getD k 0 := by
              simp [List.getD_eq_getElem?_getD, List.getElem?_append_left hlt]
            by_cases hfit : found.length + 1 < idlistMax
            · rw [if_pos hfit, Function.update_of_ne (by omega), hget]
              simp [hlt, Nat.lt_succ_of_lt hlt]
            · rw [if_neg hfit, hget]
              simp [hlt, Nat.lt_succ_of_lt hlt]
          · by_cases hfit : found.length + 1 < idlistMax
            · simp [hfit, List.getD_eq_getElem?_getD]
            · simp [hfit]
          · by_cases hfit : found.length + 1 < idlistMax
            · rw [if_pos hfit, Function.update_of_ne (by omega), if_neg (by omega),
                if_neg (by omega)]
            · rw [if_neg hfit, if_neg (by omega), if_neg (by omega)]

/-- The answer of the loop is the one of the list of matches. -/
theorem scan_answer_eq (db db' : Db) (test : NameTest) (otype : Int) (parentOid procOid oid : ObjId)
    (ts : Timestamp) (idlist : Option IdList) (nth : Int) (includedeleted : Bool) :
    (scanSlots (·.matches test otype parentOid procOid ts includedeleted) nth
        ((List.range objMax).map db.objmeta) ⟨0, oid, idlist⟩).answer db' parentOid ts nth =
      searchAnswer db' (searchTable db test otype parentOid procOid ts nth includedeleted)
        parentOid ts idlist nth := by
  rw [scanSlots_eq _ _ _ _ (by dsimp only; omega)]
  have htable : upTo (nth - ((0 : Nat) : Int)) ((((List.range objMax).map db.objmeta).filter
      (·.matches test otype parentOid procOid ts includedeleted)).map (·.oid)) =
        searchTable db test otype parentOid procOid ts nth includedeleted := by
    rw [Int.natCast_zero, Int.sub_zero]
    rfl
  rw [htable, foldl_found]
  generalize searchTable db test otype parentOid procOid ts nth includedeleted = found
  unfold Scan.answer searchAnswer
  cases found with
  | nil => cases idlist <;> simp
  | cons o found =>
      have hcount : ¬ (o :: found).length = 0 := Nat.succ_ne_zero _
      rw [if_neg hcount, if_neg (List.cons_ne_nil o found)]
      cases idlist with
      | none => simp only [Option.map_none, List.getLastD_cons]
      | some idlist =>
          simp only [Option.map_some]
          refine congrArg (fun l => (Except.ok _, some l)) (funext fun k => ?_)
          rw [IdList.fill, Function.update_apply]

/-- A search with the list of its matches in place of the loop. -/
theorem searchinfoMode_matches (env : Env) (name : Option ObjName) (otype : Int)
    (parentOid procOid : ObjId) (ts : Timestamp) (idlist : Option IdList) (nth : Int)
    (nolock includedeleted : Bool) :
    searchinfoMode env name otype parentOid procOid ts idlist nth nolock includedeleted =
      match searchName env name otype with
      | .badPattern => return (.error .invalid, idlist)
      | .oid oid => do
          let db ← readDb
          return searchDirect db oid idlist nth
      | .scan test otype => do
          Prog.when (!nolock) (objmetaLock env)
          let db ← readDb
          let found := searchTable db test otype parentOid procOid ts nth includedeleted
          Prog.when (!nolock) objmetaUnlock
          let db ← readDb
          return searchAnswer db found parentOid ts idlist nth := by
  unfold searchinfoMode
  simp only [scan_answer_eq]

/-- The answer of a search of live objects in one look at the database. -/
def searchDb (env : Env) (db : Db) (name : Option ObjName) (otype : Int)
    (parentOid procOid : ObjId) (ts : Timestamp) (idlist : Option IdList) (nth : Int) :
    Result × Option IdList :=
  match searchName env name otype with
  | .badPattern => (.error .invalid, idlist)
  | .oid oid => searchDirect db oid idlist nth
  | .scan test otype =>
      searchAnswer db (searchTable db test otype parentOid procOid ts nth false) parentOid ts
        idlist nth

/-- Without the lock a search is a look at the database. -/
theorem searchinfoNolock_eq (env : Env) (name : Option ObjName) (otype : Int)
    (parentOid procOid : ObjId) (ts : Timestamp) (idlist : Option IdList) (nth : Int) (w : World) :
    searchinfoNolock env name otype parentOid procOid ts idlist nth w =
      some (searchDb env w.db name otype parentOid procOid ts idlist nth, w) := by
  unfold searchinfoNolock searchDb
  rw [searchinfoMode_matches]
  cases searchName env name otype <;> rfl

theorem searchinfoNolock_some {env : Env} {name : Option ObjName} {otype : Int}
    {parentOid procOid : ObjId} {ts : Timestamp} {idlist : Option IdList} {nth : Int}
    {w w' : World} {r : Result × Option IdList}
    (h : searchinfoNolock env name otype parentOid procOid ts idlist nth w = some (r, w')) :
    w' = w := by
  rw [searchinfoNolock_eq] at h
  cases h
  rfl

/-! ## `kogmo_rtdb_obj_readinfo` -/

/-- The object is not there at `ts`. -/
def ObjInfo.hidden (info : ObjInfo) (ts : Timestamp) : Bool :=
  (ts.toInt < info.createdTs.toInt && ts ≠ 0) ||
    (info.deletedTs ≠ 0 && (info.deletedTs.toInt < ts.toInt || ts = 0))

/-- `kogmo_rtdb_obj_readinfo`: the answer and the caller's copy. -/
def readinfo (env : Env) (id : ObjId) (ts : Timestamp) (metadata : ObjInfo) :
    Call (Result × ObjInfo) := do
  objmetaLock env
  let db ← readDb
  match db.findmetaById id with
  | none =>
      objmetaUnlock
      return (.error .notFound, metadata)
  | some i =>
      if (db.objmeta i).hidden ts then
        objmetaUnlock
        return (.error .notFound, metadata)
      else
        objmetaUnlock
        return (.ok 0, db.objmeta i)

/-! ## `kogmo_rtdb_obj_changeinfo` -/

/-- `KOGMO_RTDB_OBJMETA_NAME_MAXLEN`. -/
def nameMaxlen : Nat := 32

def ObjInfo.change (used metadata : ObjInfo) : ObjInfo :=
  let name := metadata.name.take (nameMaxlen - 1)
  { used with
    name := if name ≠ [] then name else used.name
    otype := if metadata.otype ≠ 0 then metadata.otype else used.otype
    parentOid := if metadata.parentOid ≠ 0 then metadata.parentOid else used.parentOid
    maxCycletime :=
      if 0 < metadata.maxCycletime then metadata.maxCycletime else used.maxCycletime
    minCycletime :=
      if 0 < metadata.minCycletime then metadata.minCycletime else used.minCycletime
    historyInterval :=
      if 0 < metadata.historyInterval then metadata.historyInterval else used.historyInterval }

/-- `kogmo_rtdb_obj_changeinfo`; what it answers on success is read after the lock
is released. -/
def changeinfo (env : Env) (h : Handle) (oid : ObjId) (metadata : ObjInfo) : Call Result :=
  if h.admin then do
    let _ ← timestampNow env
    objmetaLock env
    let db ← readDb
    match db.findmetaById oid with
    | none =>
        objmetaUnlock
        return .error .notFound
    | some i =>
        writeDb fun db => db.setMeta i ((db.objmeta i).change metadata)
        objmetaUnlockNotify
        let db ← readDb
        return .ok (db.objmeta i).oid
  else return .error .noPerm

/-! ## The searches that wait -/

/-- `kogmo_rtdb_obj_searchinfo_wait_until`. -/
def searchinfoWaitUntil (env : Env) (name : Option ObjName) (otype : Int)
    (parentOid procOid : ObjId) (wakeupTs : Timestamp) : Nat → Call Result
  | 0 => Prog.diverge
  | fuel + 1 => do
      objmetaLock env
      let (ret, _) ← searchinfoNolock env name otype parentOid procOid 0 none 1
      if ret = .error .notFound then
        if ← waitMetanotify env wakeupTs then
          objmetaUnlock
          return .error .timeout
        else searchinfoWaitUntil env name otype parentOid procOid wakeupTs fuel
      else
        objmetaUnlock
        return ret

/-- What the incremental searches leave in the caller's lists. -/
structure IdLists where
  known : IdList
  added : List ObjId
  deleted : List ObjId

/-- The loops that compare the new list with the known one. -/
def IdLists.compare (known newidlist : IdList) : IdLists where
  known := known
  added := newidlist.entries.filter (· ∉ known.entries)
  deleted := known.entries.filter (· ∉ newidlist.entries)

def IdLists.takeOver (lists : IdLists) (newidlist : IdList) : IdLists :=
  { lists with
    known := fun k =>
      if k < newidlist.entries.length then newidlist k
      else if k = newidlist.entries.length then 0
      else lists.known k }

/-- `kogmo_rtdb_obj_searchinfo_waitnext_until`. -/
def searchinfoWaitnextUntil (env : Env) (name : Option ObjName) (otype : Int)
    (parentOid procOid : ObjId) (wakeupTs : Timestamp) :
    Nat → IdLists → IdList → Call (Result × IdLists)
  | 0, _, _ => Prog.diverge
  | fuel + 1, lists, newidlist => do
      objmetaLock env
      let (ret, out) ← searchinfoNolock env name otype parentOid procOid 0 (some newidlist) 0
      let newidlist := out.getD newidlist
      match ret with
      | .error .invalid =>
          objmetaUnlock
          return (.error .invalid, lists)
      | _ =>
          let found := IdLists.compare lists.known newidlist
          if found.added.length + found.deleted.length = 0 then
            if ← waitMetanotify env wakeupTs then
              objmetaUnlock
              return (.error .timeout, found)
            else
              searchinfoWaitnextUntil env name otype parentOid procOid wakeupTs fuel found
                newidlist
          else
            objmetaUnlock
            return (.ok (found.added.length + found.deleted.length), found.takeOver newidlist)

/-- `kogmo_rtdb_obj_searchinfo_lists_nonblocking`. -/
def searchinfoListsNonblocking (env : Env) (name : Option ObjName) (otype : Int)
    (parentOid procOid : ObjId) (lists : IdLists) : Call (Result × IdLists) := do
  objmetaLock env
  let (ret, out) ← searchinfoNolock env name otype parentOid procOid 0 (some env.uninit) 0
  let newidlist := out.getD env.uninit
  match ret with
  | .error .invalid =>
      objmetaUnlock
      return (.error .invalid, lists)
  | _ =>
      let found := IdLists.compare lists.known newidlist
      objmetaUnlock
      return (.ok (found.added.length + found.deleted.length), found.takeOver newidlist)

end KogmoRtdb
