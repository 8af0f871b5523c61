import KogmoRtdb.Lib.TreeWalk
import KogmoRtdb.Meta.Visibility

/-!
# The dump of the object tree

`kogmo_rtdb_dump` prints the tree below the root object, and then each object of a list of all
objects that it has not marked as linked by then, with what is below that. `dump_recursive` marks
an object as it prints it, but looks at no mark before it goes down, so that a cycle of parents is
printed forever, and what hangs below an object that comes later in the list is printed twice.
`dumpsOnce_iff` says which tables are printed as they should.

The visits of the dump are those of `TreeWalk.Walk` and `TreeWalk.Sweep`.
-/

namespace KogmoRtdb

open Prog TreeWalk Relation

/-! ## The dump -/

/-- `KOGMO_RTDB_OBJTYPE_C3_ROOT`. -/
def otypeRoot : Int := 0xC30001

/-- What the dump prints: an object's line, or the heading of the unlinked objects. The times and
processes on a line come from reads that change nothing and fail without consequence. -/
inductive DumpLine where
  | object (generation : Nat) (om : ObjInfo)
  | unlinkedObjects

/-- The lines so far, and the list of the objects that are not linked. -/
structure Dump where
  lines : List DumpLine
  olist : IdList

/-- The loop that marks an object as linked: it ends with the list. -/
def IdList.mark (olist : IdList) (oid : ObjId) : IdList :=
  match (List.range (idlistMax + 1)).find? fun k => olist k = 0 || olist k = oid with
  | some k => if olist k = 0 then olist else Function.update olist k (-1)
  | none => olist

/-- The part of `dump_recursive` before its loop over the children. An error ends the program. -/
def dumpObject (env : Env) (oid : ObjId) (ts : Timestamp) (generation : Nat) (dump : Dump) :
    Call (Except Err Dump) := do
  let (ret, om) ← readinfo env oid ts {}
  match ret with
  | .error e => return .error e
  | .ok _ => return .ok ⟨dump.lines ++ [.object generation om], dump.olist.mark oid⟩

mutual

/-- `dump_recursive`. -/
def dumpRecursive (env : Env) (fuel : Nat) (parentoid : ObjId) (ts : Timestamp)
    (generation : Nat) (dump : Dump) : Call (Except Err Dump) :=
  match fuel with
  | 0 => diverge
  | fuel + 1 => do
      match ← dumpObject env parentoid ts generation dump with
      | .error e => return .error e
      | .ok dump => dumpChildren env fuel parentoid ts generation 1 dump

/-- The loop over the children, from the `i`-th on. -/
def dumpChildren (env : Env) (fuel : Nat) (parentoid : ObjId) (ts : Timestamp)
    (generation i : Nat) (dump : Dump) : Call (Except Err Dump) :=
  match fuel with
  | 0 => diverge
  | fuel + 1 => do
      let (ret, _) ← searchinfo env (some []) 0 parentoid 0 ts none i
      match ret with
      | .error _ => return .ok dump
      | .ok oid =>
          if 0 < oid then do
            match ← dumpRecursive env fuel oid ts (generation + 1) dump with
            | .error e => return .error e
            | .ok dump => dumpChildren env fuel parentoid ts generation (i + 1) dump
          else return .ok dump

end

def dumpUnlinked (env : Env) (ts : Timestamp) :
    (fuel i : Nat) → (unlinkedObjectsFound : Bool) → Dump → Call (Except Err Dump)
  | 0, _, _, _ => diverge
  | fuel + 1, i, found, dump =>
      if dump.olist i = 0 then return .ok dump
      else if dump.olist i = -1 then dumpUnlinked env ts fuel (i + 1) found dump
      else do
        let lines := if found then dump.lines else dump.lines ++ [.unlinkedObjects]
        match ← dumpRecursive env fuel (dump.olist i) ts 0 { dump with lines } with
        | .error e => return .error e
        | .ok dump => dumpUnlinked env ts fuel (i + 1) true dump

def dumpTree (env : Env) (fuel : Nat) (ts : Timestamp) : Call (Except Err Dump) := do
  let (ret, olist) ← searchinfo env none 0 0 0 ts (some env.uninit) 0
  match ret with
  | .error e => return .error e
  | .ok _ => do
      let (ret, _) ← searchinfo env none otypeRoot 0 0 ts none 1
      match ret with
      | .error e => return .error e
      | .ok oid => do
          match ← dumpRecursive env fuel oid ts 1 ⟨[], olist.getD env.uninit⟩ with
          | .error e => return .error e
          | .ok dump => dumpUnlinked env ts fuel 0 false dump

def Dump.oids (dump : Dump) : List ObjId :=
  dump.lines.filterMap fun
    | .object _ om => some om.oid
    | .unlinkedObjects => none

/-- The dump ends, and has printed every object that is there at `ts` exactly once. -/
def DumpsOnce (env : Env) (w : World) (ts : Timestamp) : Prop :=
  ∃ fuel dump w', dumpTree env fuel ts w = some (.ok dump, w') ∧
    ∀ i < objMax, (w.db.objmeta i).oid ≠ 0 → (w.db.objmeta i).Listed ts →
      dump.oids.count (w.db.objmeta i).oid = 1

/-! ## The objects and their parents -/

/-- The objects that are there at `ts`, in the order of their slots. -/
def visibleOids (db : Db) (ts : Timestamp) : List ObjId := allMatches db .any 0 0 0 ts

/-- How the names of children are compared with the empty one they are looked for by. -/
def childTest (env : Env) : NameTest :=
  match env.nameRemap [] with
  | [] => .any
  | name => .exact name

/-- The visible objects with the parent, which is visible itself. -/
def childOids (env : Env) (db : Db) (ts : Timestamp) (p : ObjId) : List ObjId :=
  if p ∈ visibleOids db ts then allMatches db (childTest env) 0 p 0 ts else []

/-- The tables that are printed as they should: every object is found by its own oid, no object is
above itself, nothing is above the root, and an object that is not below the root stands in the
table behind the topmost object above it. -/
structure Dumpable (env : Env) (db : Db) (ts : Timestamp) (root : ObjId) : Prop where
  nodup : (visibleOids db ts).Nodup
  shown : ∀ oid ∈ visibleOids db ts, Shown db oid ts
  tops : TopsFirst (childOids env db ts) root (visibleOids db ts)

variable {env : Env} {w w' : World} {ts : Timestamp} {db : Db} {oid p root : ObjId}
  {olist : IdList} {dump dump' dump'' : Dump} {out out' : List ObjId}

theorem mem_visibleOids : oid ∈ visibleOids db ts ↔
    ∃ i < objMax, (db.objmeta i).oid = oid ∧ oid ≠ 0 ∧ (db.objmeta i).Listed ts := by
  unfold visibleOids
  rw [mem_allMatches]
  constructor
  · rintro ⟨i, hi, rfl, hmatch⟩
    obtain ⟨hne, hlisted⟩ := ObjInfo.matches_any.mp hmatch
    exact ⟨i, hi, rfl, hne, hlisted⟩
  · rintro ⟨i, hi, rfl, hne, hlisted⟩
    exact ⟨i, hi, rfl, ObjInfo.matches_any.mpr ⟨hne, hlisted⟩⟩

theorem childOids_of_mem (hp : p ∈ visibleOids db ts) :
    childOids env db ts p = allMatches db (childTest env) 0 p 0 ts := if_pos hp

/-- The objects with a parent are some of those there are. -/
theorem allMatches_sublist (test : NameTest) (p : ObjId) :
    (allMatches db test 0 p 0 ts).Sublist (visibleOids db ts) := by
  refine List.Sublist.map _ (List.monotone_filter_right _ fun info hmatch => ?_)
  exact ObjInfo.matches_any.mpr (ObjInfo.matches_times hmatch)

theorem childOids_sublist (p : ObjId) : (childOids env db ts p).Sublist (visibleOids db ts) := by
  unfold childOids
  split
  · exact allMatches_sublist _ p
  · exact List.nil_sublist _

theorem childOids_mem (a b : ObjId) (h : Child (childOids env db ts) a b) :
    a ∈ visibleOids db ts ∧ b ∈ visibleOids db ts := by
  refine ⟨?_, (childOids_sublist a).subset h⟩
  by_contra ha
  unfold Child childOids at h
  rw [if_neg ha] at h
  cases h

theorem exists_slot_of_child (h : Child (childOids env db ts) p oid) :
    ∃ i < objMax, (db.objmeta i).oid = oid ∧ (db.objmeta i).Listed ts ∧
      (db.objmeta i).parentOid = p := by
  have hp := (childOids_mem p oid h).1
  have hne := mem_allMatches_ne hp
  unfold Child at h
  rw [childOids_of_mem hp] at h
  obtain ⟨i, hi, rfl, hmatch⟩ := mem_allMatches.mp h
  refine ⟨i, hi, rfl, (ObjInfo.matches_times hmatch).2, ?_⟩
  unfold ObjInfo.matches at hmatch
  simp only [Bool.and_eq_true, Bool.or_eq_true, decide_eq_true_eq] at hmatch
  exact hmatch.1.1.1.1.2.resolve_right hne

theorem slot_unique (hnodup : (visibleOids db ts).Nodup) {i j : Nat} (hi : i < objMax)
    (hj : j < objMax) (hne : (db.objmeta i).oid ≠ 0) (hil : (db.objmeta i).Listed ts)
    (hjl : (db.objmeta j).Listed ts) (heq : (db.objmeta j).oid = (db.objmeta i).oid) : j = i := by
  have hfilter : ((List.range objMax).filter fun k =>
      (db.objmeta k).matches .any 0 0 0 ts false).map (fun k => (db.objmeta k).oid) =
        visibleOids db ts := by
    unfold visibleOids allMatches
    rw [List.filter_map, List.map_map]
    rfl
  rw [← hfilter] at hnodup
  refine List.inj_on_of_nodup_map hnodup ?_ ?_ heq
  · exact List.mem_filter.mpr ⟨List.mem_range.mpr hj,
      ObjInfo.matches_any.mpr ⟨by rwa [heq], hjl⟩⟩
  · exact List.mem_filter.mpr ⟨List.mem_range.mpr hi, ObjInfo.matches_any.mpr ⟨hne, hil⟩⟩

theorem forest_childOids (hnodup : (visibleOids db ts).Nodup) : Forest (childOids env db ts) where
  parent a b x ha hb := by
    obtain ⟨i, hi, rfl, hil, rfl⟩ := exists_slot_of_child ha
    obtain ⟨j, hj, heq, hjl, rfl⟩ := exists_slot_of_child hb
    have hne := mem_allMatches_ne (childOids_mem _ _ ha).2
    rw [slot_unique hnodup hi hj hne hil hjl heq]
  nodup a := hnodup.sublist (childOids_sublist a)

/-! ## What is printed -/

/-- The objects in `out` are printed, and marked one after the other. -/
structure Prints (out : List ObjId) (dump dump' : Dump) : Prop where
  oids : dump'.oids = dump.oids ++ out
  olist : dump'.olist = out.foldl IdList.mark dump.olist

theorem Prints.refl : Prints [] dump dump := ⟨(List.append_nil _).symm, rfl⟩

theorem Prints.trans (h : Prints out dump dump') (h' : Prints out' dump' dump'') :
    Prints (out ++ out') dump dump'' where
  oids := by rw [h'.oids, h.oids, List.append_assoc]
  olist := by rw [h'.olist, h.olist, List.foldl_append]

theorem Prints.object (dump : Dump) (generation : Nat) (om : ObjInfo) :
    Prints [om.oid] dump ⟨dump.lines ++ [.object generation om], dump.olist.mark om.oid⟩ where
  oids := by simp [Dump.oids]
  olist := rfl

theorem Prints.heading (h : Prints out
    { dump with lines := dump.lines ++ [.unlinkedObjects] } dump') : Prints out dump dump' where
  oids := by simpa [Dump.oids] using h.oids
  olist := h.olist

/-! ## The calls of the dump -/

theorem readinfo_shown (metadata : ObjInfo) {i : Nat} (hi : w.db.findmetaById oid = some i)
    (hvisible : (w.db.objmeta i).hidden ts = false) :
    readinfo env.atomic oid ts metadata w =
      some ((.ok 0, w.db.objmeta i), (w.lock env.atomic).unlock) := by
  have hdb : (w.lock env.atomic).db = w.db := atomic_lock_db w
  unfold readinfo
  refine bind_some.mpr ⟨_, _, rfl, bind_some.mpr ⟨_, _, rfl, ?_⟩⟩
  rw [hdb, hi]
  dsimp only
  rw [if_neg (by simp [hvisible])]
  rfl

theorem readinfo_not_shown (metadata : ObjInfo) (hno : ¬ Shown w.db oid ts) :
    readinfo env.atomic oid ts metadata w =
      some ((.error .notFound, metadata), (w.lock env.atomic).unlock) := by
  have hdb : (w.lock env.atomic).db = w.db := atomic_lock_db w
  unfold readinfo
  refine bind_some.mpr ⟨_, _, rfl, bind_some.mpr ⟨_, _, rfl, ?_⟩⟩
  rw [hdb]
  cases hi : w.db.findmetaById oid with
  | none => rfl
  | some i =>
      have hhidden : (w.db.objmeta i).hidden ts = true := by
        by_contra hvisible
        exact hno ⟨i, hi, Bool.eq_false_of_not_eq_true hvisible⟩
      dsimp only
      rw [if_pos hhidden]
      rfl

theorem dumpObject_run (env : Env) (hshown : Shown w.db oid ts) (generation : Nat) (dump : Dump) :
    ∃ dump' w', dumpObject env.atomic oid ts generation dump w = some (.ok dump', w') ∧
      w'.db = w.db ∧ Prints [oid] dump dump' := by
  obtain ⟨i, hi, hvisible⟩ := hshown
  obtain ⟨-, rfl⟩ := Db.findmetaById_some hi
  refine ⟨_, _, bind_some.mpr ⟨_, _, readinfo_shown {} hi hvisible, rfl⟩, atomic_lock_db w, ?_⟩
  exact Prints.object dump generation (w.db.objmeta i)

theorem dumpObject_some {generation : Nat}
    (hrun : dumpObject env.atomic oid ts generation dump w = some (.ok dump', w')) :
    Shown w.db oid ts ∧ w'.db = w.db ∧ Prints [oid] dump dump' := by
  have hshown : Shown w.db oid ts := by
    by_contra hno
    obtain ⟨r, w₁, hread, hret⟩ := bind_some.mp hrun
    rw [readinfo_not_shown {} hno] at hread
    cases hread
    cases hret
  obtain ⟨d, w₁, hrun', hdb, hprints⟩ := dumpObject_run env hshown generation dump
  rw [hrun] at hrun'
  cases hrun'
  exact ⟨hshown, hdb, hprints⟩

/-- A search for the `i`-th child answers this, and an error behind the last. -/
theorem searchChild_run (hp : p ∈ visibleOids w.db ts) {i : Nat}
    (hi : 1 ≤ i) :
    ∃ ret w', searchinfo env.atomic (some []) 0 p 0 ts none i w = some ((ret, none), w') ∧
      w'.db = w.db ∧ (∀ oid, (childOids env w.db ts p)[i - 1]? = some oid → ret = .ok oid) ∧
      ((childOids env w.db ts p)[i - 1]? = none → ∃ e, ret = .error e) := by
  have hname : searchName env.atomic (some []) 0 = .scan (childTest env) 0 := by
    have hremap : env.atomic.nameRemap [] = env.nameRemap [] := rfl
    unfold searchName childTest
    dsimp only
    rw [hremap]
    cases env.nameRemap [] <;> rfl
  have hdb : (w.lock env.atomic).db = w.db := atomic_lock_db w
  obtain ⟨ret, hret, hok, hfewer⟩ :=
    searchAnswer_nth w.db p ts (allMatches w.db (childTest env) 0 p 0 ts) hi
  refine ⟨ret, (w.lock env.atomic).unlock, ?_, hdb, ?_⟩
  · rw [searchinfo_eq hname, hdb, hret]
  · rw [childOids_of_mem hp]
    refine ⟨hok, fun hnone => ?_⟩
    have hlen := List.getElem?_eq_none_iff.mp hnone
    rcases (hfewer (by omega)).either with h | h
    · exact ⟨_, h⟩
    · exact ⟨_, h⟩

/-! ## Walks -/

/-- Where the loop over the children stands in the list of the children. -/
theorem drop_child {kids : List ObjId} {i : Nat} (hi : 1 ≤ i) (h : kids[i - 1]? = some oid) :
    kids.drop (i - 1) = oid :: kids.drop (i + 1 - 1) := by
  obtain ⟨hlt, rfl⟩ := List.getElem?_eq_some_iff.mp h
  rw [List.drop_eq_getElem_cons hlt, show i - 1 + 1 = i + 1 - 1 by omega]

theorem walk_of_run (hpos : ∀ oid ∈ visibleOids db ts, 0 < oid)
    (fuel : Nat) :
    (∀ p generation dump dump' w w', p ∈ visibleOids db ts → w.db = db →
      dumpRecursive env.atomic fuel p ts generation dump w = some (.ok dump', w') →
        w'.db = db ∧ ∃ out, TreeWalk.Walk (childOids env db ts) [p] out ∧ Prints out dump dump' ∧
          ∀ x ∈ out, Shown db x ts) ∧
    ∀ p generation i dump dump' w w', p ∈ visibleOids db ts → w.db = db → 1 ≤ i →
      dumpChildren env.atomic fuel p ts generation i dump w = some (.ok dump', w') →
        w'.db = db ∧ ∃ out,
          TreeWalk.Walk (childOids env db ts) ((childOids env db ts p).drop (i - 1)) out ∧
          Prints out dump dump' ∧ ∀ x ∈ out, Shown db x ts := by
  induction fuel with
  | zero =>
      refine ⟨fun p g dump dump' w w' _ _ hrun => ?_, fun p g i dump dump' w w' _ _ _ hrun => ?_⟩
      · rw [dumpRecursive] at hrun
        cases hrun
      · rw [dumpChildren] at hrun
        cases hrun
  | succ fuel ih =>
      obtain ⟨ihtree, ihchildren⟩ := ih
      refine ⟨fun p g dump dump' w w' hp hdb hrun => ?_,
        fun p g i dump dump' w w' hp hdb hi hrun => ?_⟩
      · rw [dumpRecursive] at hrun
        obtain ⟨r, w₁, hobj, hrun⟩ := bind_some.mp hrun
        cases r with
        | error e => cases hrun
        | ok dump₁ =>
            obtain ⟨hshown, hdb₁, hprints₁⟩ := dumpObject_some hobj
            obtain ⟨hdb', sub, hwalk, hprints, hall⟩ :=
              ihchildren p g 1 dump₁ dump' w₁ w' hp (hdb₁.trans hdb) (Nat.le_refl 1) hrun
            refine ⟨hdb', p :: (sub ++ []), .cons hwalk .nil, ?_, fun x hx => ?_⟩
            · rw [List.append_nil]
              exact hprints₁.trans hprints
            · rw [List.append_nil] at hx
              rcases List.mem_cons.mp hx with rfl | hx
              · rwa [← hdb]
              · exact hall x hx
      · rw [dumpChildren] at hrun
        obtain ⟨⟨ret, list⟩, w₁, hsearch, hrun⟩ := bind_some.mp hrun
        have hp' : p ∈ visibleOids w.db ts := hdb ▸ hp
        obtain ⟨ret', w₁', hsearch', hdb₁, hchild, hend⟩ := searchChild_run hp' hi
        rw [hsearch] at hsearch'
        obtain ⟨rfl, rfl⟩ : ret = ret' ∧ w₁ = w₁' := by
          cases hsearch'
          exact ⟨rfl, rfl⟩
        rw [hdb] at hdb₁ hchild hend
        cases hget : (childOids env db ts p)[i - 1]? with
        | none =>
            obtain ⟨e, rfl⟩ := hend hget
            cases hrun
            rw [List.drop_eq_nil_of_le (List.getElem?_eq_none_iff.mp hget)]
            exact ⟨hdb₁, [], .nil, .refl, fun x hx => absurd hx List.not_mem_nil⟩
        | some oid =>
            obtain rfl := hchild oid hget
            have hoid : oid ∈ visibleOids db ts :=
              (childOids_sublist p).subset (List.mem_of_getElem? hget)
            dsimp only at hrun
            rw [if_pos (hpos oid hoid)] at hrun
            obtain ⟨r, w₂, htree, hrun⟩ := bind_some.mp hrun
            cases r with
            | error e => cases hrun
            | ok dump₂ =>
                obtain ⟨hdb₂, out, hwalk, hprints, hall⟩ :=
                  ihtree oid (g + 1) dump dump₂ w₁ w₂ hoid hdb₁ htree
                obtain ⟨hdb', out', hwalk', hprints', hall'⟩ :=
                  ihchildren p g (i + 1) dump₂ dump' w₂ w' hp hdb₂ (by omega) hrun
                rw [drop_child hi hget]
                refine ⟨hdb', out ++ out', hwalk.append hwalk', hprints.trans hprints',
                  fun x hx => ?_⟩
                rcases List.mem_append.mp hx with hx | hx
                · exact hall x hx
                · exact hall' x hx

theorem run_of_walk (hpos : ∀ oid ∈ visibleOids db ts, 0 < oid)
    (hshown : ∀ oid ∈ visibleOids db ts, Shown db oid ts) {vs : List ObjId}
    (hwalk : TreeWalk.Walk (childOids env db ts) vs out) :
    ∀ p generation i, p ∈ visibleOids db ts → 1 ≤ i → (childOids env db ts p).drop (i - 1) = vs →
      ∃ n, ∀ fuel, n ≤ fuel → ∀ dump w, w.db = db → ∃ dump' w',
        dumpChildren env.atomic fuel p ts generation i dump w = some (.ok dump', w') ∧
          w'.db = db ∧ Prints out dump dump' := by
  induction hwalk with
  | nil =>
      intro p g i hp hi hdrop
      refine ⟨1, fun fuel hfuel dump w hdb => ?_⟩
      obtain ⟨fuel, rfl⟩ : ∃ m, fuel = m + 1 := ⟨fuel - 1, by omega⟩
      obtain ⟨ret, w', hsearch, hdb', -, hend⟩ :=
        searchChild_run (w := w) (hdb ▸ hp) hi
      obtain ⟨e, rfl⟩ := hend (by
        rw [hdb]
        exact List.getElem?_eq_none (List.drop_eq_nil_iff.mp hdrop))
      refine ⟨dump, w', ?_, hdb'.trans hdb, .refl⟩
      rw [dumpChildren]
      exact bind_some.mpr ⟨_, _, hsearch, rfl⟩
  | @cons v vs sub rest _ _ ihsub ihrest =>
      intro p g i hp hi hdrop
      have hget : (childOids env db ts p)[i - 1]? = some v := by
        have := congrArg (·[0]?) hdrop
        simpa [List.getElem?_drop] using this
      have hv : v ∈ visibleOids db ts := (childOids_sublist p).subset (List.mem_of_getElem? hget)
      have hrest : (childOids env db ts p).drop (i + 1 - 1) = vs := by
        rw [drop_child hi hget] at hdrop
        exact (List.cons.inj hdrop).2
      obtain ⟨n, hn⟩ := ihsub v (g + 1) 1 hv (Nat.le_refl 1) rfl
      obtain ⟨m, hm⟩ := ihrest p g (i + 1) hp (by omega) hrest
      refine ⟨n + m + 2, fun fuel hfuel dump w hdb => ?_⟩
      obtain ⟨fuel, rfl⟩ : ∃ m, fuel = m + 2 := ⟨fuel - 2, by omega⟩
      obtain ⟨ret, w₁, hsearch, hdb₁, hchild, -⟩ :=
        searchChild_run (w := w) (hdb ▸ hp) hi
      obtain rfl := hchild v (by rwa [hdb])
      obtain ⟨dump₁, w₂, hobj, hdb₂, hprints₁⟩ :=
        dumpObject_run env (hdb₁.trans hdb ▸ hshown v hv : Shown w₁.db v ts) (g + 1) dump
      obtain ⟨dump₂, w₃, hsub, hdb₃, hprints₂⟩ :=
        hn fuel (by omega) dump₁ w₂ (hdb₂.trans (hdb₁.trans hdb))
      obtain ⟨dump₃, w', hrun, hdb', hprints₃⟩ := hm (fuel + 1) (by omega) dump₂ w₃ hdb₃
      have htree : dumpRecursive env.atomic (fuel + 1) v ts (g + 1) dump w₁ =
          some (.ok dump₂, w₃) := by
        rw [dumpRecursive]
        exact bind_some.mpr ⟨_, _, hobj, hsub⟩
      refine ⟨dump₃, w', ?_, hdb', (hprints₁.trans hprints₂).trans hprints₃⟩
      rw [dumpChildren]
      refine bind_some.mpr ⟨_, _, hsearch, ?_⟩
      dsimp only
      rw [if_pos (hpos v hv)]
      exact bind_some.mpr ⟨_, _, htree, hrun⟩

theorem tree_of_walk (hpos : ∀ oid ∈ visibleOids db ts, 0 < oid)
    (hshown : ∀ oid ∈ visibleOids db ts, Shown db oid ts) (hp : p ∈ visibleOids db ts)
    (generation : Nat) (hwalk : TreeWalk.Walk (childOids env db ts) [p] out) :
    ∃ n, ∀ fuel, n ≤ fuel → ∀ dump w, w.db = db → ∃ dump' w',
      dumpRecursive env.atomic fuel p ts generation dump w = some (.ok dump', w') ∧
        w'.db = db ∧ Prints out dump dump' := by
  cases hwalk with
  | @cons _ _ sub rest hsub hrest =>
      cases hrest
      rw [List.append_nil]
      obtain ⟨n, hn⟩ :=
        run_of_walk hpos hshown hsub p generation 1 hp (Nat.le_refl 1) rfl
      refine ⟨n + 1, fun fuel hfuel dump w hdb => ?_⟩
      obtain ⟨fuel, rfl⟩ : ∃ m, fuel = m + 1 := ⟨fuel - 1, by omega⟩
      obtain ⟨dump₁, w₁, hobj, hdb₁, hprints₁⟩ :=
        dumpObject_run env (hdb ▸ hshown p hp : Shown w.db p ts) generation dump
      obtain ⟨dump', w', hrun, hdb', hprints⟩ := hn fuel (by omega) dump₁ w₁ (hdb₁.trans hdb)
      refine ⟨dump', w', ?_, hdb', hprints₁.trans hprints⟩
      rw [dumpRecursive]
      exact bind_some.mpr ⟨_, _, hobj, hrun⟩

/-! ## Marks -/

/-- The first entry with the oid is marked, if there is one before the end of the list. -/
theorem IdList.mark_cases {n : Nat} (hn : n ≤ idlistMax) (hend : olist n = 0)
    (hbefore : ∀ j < n, olist j ≠ 0) (oid : ObjId) :
    (olist.mark oid = olist ∧ ∀ j < n, olist j ≠ oid) ∨
      ∃ k < n, olist k = oid ∧ (∀ j < k, olist j ≠ oid) ∧
        olist.mark oid = Function.update olist k (-1) := by
  unfold IdList.mark
  by_cases hex : ∃ k, k < n ∧ olist k = oid
  · obtain ⟨hk, hoid⟩ := Nat.find_spec hex
    have hmin : ∀ j < Nat.find hex, olist j ≠ oid := fun j hj heq =>
      Nat.find_min hex hj ⟨hj.trans hk, heq⟩
    generalize Nat.find hex = k at hk hoid hmin
    have hfind : (List.range (idlistMax + 1)).find? (fun k => olist k = 0 || olist k = oid) =
        some k := by
      refine List.find?_range_eq_some.mpr ⟨by simp [hoid], List.mem_range.mpr (by omega), ?_⟩
      intro j hj
      simp [hbefore j (hj.trans hk), hmin j hj]
    rw [hfind]
    dsimp only
    rw [if_neg (hbefore k hk)]
    exact Or.inr ⟨k, hk, hoid, hmin, rfl⟩
  · have hno : ∀ j < n, olist j ≠ oid := fun j hj heq => hex ⟨j, hj, heq⟩
    have hfind : (List.range (idlistMax + 1)).find? (fun k => olist k = 0 || olist k = oid) =
        some n := by
      refine List.find?_range_eq_some.mpr ⟨by simp [hend], List.mem_range.mpr (by omega), ?_⟩
      intro j hj
      simp [hbefore j hj, hno j hj]
    rw [hfind]
    dsimp only
    rw [if_pos hend]
    exact Or.inl ⟨rfl, hno⟩

/-- The entries are those of `all`, marked if they are in `done`. -/
structure Linked (all done : List ObjId) (olist : IdList) : Prop where
  entry : ∀ (k : Nat) (hk : k < all.length), olist k = if all[k] ∈ done then -1 else all[k]
  ended : olist all.length = 0

section Marks

variable {all done : List ObjId}

theorem Linked.ne_zero (hpos : ∀ x ∈ all, 0 < x) (h : Linked all done olist) {k : Nat}
    (hk : k < all.length) : olist k ≠ 0 := by
  rw [h.entry k hk]
  split
  · decide
  · exact Int.ne_of_gt (hpos _ (List.getElem_mem hk))

theorem Linked.fill (hlen : all.length < idlistMax) (olist : IdList) :
    Linked all [] (olist.fill all) where
  entry k hk := by
    rw [if_neg List.not_mem_nil]
    exact olist.fill_getElem hk (by omega)
  ended := by
    have hend := olist.fill_end all
    rwa [Nat.min_eq_left (by omega)] at hend

theorem Linked.mark (hnodup : all.Nodup) (hpos : ∀ x ∈ all, 0 < x) (hlen : all.length < idlistMax)
    (h : Linked all done olist) (hoid : 0 < oid) : Linked all (done ++ [oid]) (olist.mark oid) := by
  have hsame {k : Nat} (hk : k < all.length) (hne : all[k] ≠ oid) :
      olist k = if all[k] ∈ done ++ [oid] then -1 else all[k] := by
    rw [h.entry k hk]
    simp [hne]
  rcases IdList.mark_cases (Nat.le_of_lt hlen) h.ended (fun _ hk => h.ne_zero hpos hk) oid with
    ⟨heq, hno⟩ | ⟨k, hk, hkoid, -, heq⟩
  · rw [heq]
    refine ⟨fun j hj => ?_, h.ended⟩
    by_cases hjo : all[j] = oid
    · have hmarked := h.entry j hj
      have hentry := hno j hj
      by_cases hdone : all[j] ∈ done
      · rw [hmarked, if_pos hdone, if_pos (List.mem_append_left _ hdone)]
      · rw [hmarked, if_neg hdone] at hentry
        exact absurd hjo hentry
    · exact hsame hj hjo
  · rw [heq]
    have hk' : all[k] = oid := by
      rw [h.entry k hk] at hkoid
      split at hkoid
      · rw [← hkoid] at hoid
        exact absurd hoid (by decide)
      · exact hkoid
    refine ⟨fun j hj => ?_, ?_⟩
    · by_cases hjk : j = k
      · subst hjk
        rw [Function.update_self, if_pos (by simp [hk'])]
      · rw [Function.update_of_ne hjk]
        refine hsame hj fun heq => hjk ?_
        exact (hnodup.getElem_inj_iff).mp (heq.trans hk'.symm)
    · rw [Function.update_of_ne (Nat.ne_of_gt hk)]
      exact h.ended

theorem Linked.print (hnodup : all.Nodup) (hpos : ∀ x ∈ all, 0 < x)
    (hlen : all.length < idlistMax) (h : Linked all done dump.olist)
    (hprints : Prints out dump dump') (hout : ∀ x ∈ out, x ∈ all) :
    Linked all (done ++ out) dump'.olist := by
  rw [hprints.olist]
  generalize dump.olist = olist at h
  clear hprints
  induction out generalizing done olist with
  | nil => rwa [List.append_nil]
  | cons x out ih =>
      have hmark := h.mark hnodup hpos hlen (hpos x (hout x List.mem_cons_self))
      have hrest := ih (fun y hy => hout y (List.mem_cons_of_mem _ hy)) _ hmark
      rwa [List.append_assoc] at hrest

/-- Whether the oids are distinct or not, for each that is marked one object has been printed. -/
structure Counted (all done : List ObjId) (olist : IdList) : Prop where
  entry : ∀ (k : Nat) (hk : k < all.length), olist k = all[k] ∨ olist k = -1
  ended : olist all.length = 0
  count : ∀ x ∈ all,
    all.count x ≤ ((List.range all.length).map olist).count x + done.count x

theorem Counted.ne_zero (hpos : ∀ x ∈ all, 0 < x) (h : Counted all done olist) {k : Nat}
    (hk : k < all.length) : olist k ≠ 0 := by
  rcases h.entry k hk with heq | heq <;> rw [heq]
  · exact Int.ne_of_gt (hpos _ (List.getElem_mem hk))
  · decide

theorem Counted.fill (hlen : all.length < idlistMax) (olist : IdList) :
    Counted all [] (olist.fill all) where
  entry k hk := Or.inl (olist.fill_getElem hk (by omega))
  ended := (Linked.fill hlen olist).ended
  count x _ := by
    have hmap : (List.range all.length).map (olist.fill all) = all := by
      refine List.ext_getElem (by simp) fun k hk hk' => ?_
      rw [List.getElem_map, List.getElem_range]
      exact olist.fill_getElem hk' (by omega)
    rw [hmap]
    exact Nat.le_add_right ..

/-- A mark takes one entry off, and none that had been marked comes back. -/
theorem Counted.mark (hpos : ∀ x ∈ all, 0 < x) (hlen : all.length < idlistMax)
    (h : Counted all done olist) (oid : ObjId) :
    Counted all (done ++ [oid]) (olist.mark oid) ∧
      ∀ k, olist k = -1 → olist.mark oid k = -1 := by
  rcases IdList.mark_cases (Nat.le_of_lt hlen) h.ended (fun _ hk => h.ne_zero hpos hk) oid with
    ⟨heq, -⟩ | ⟨k, hk, hkoid, -, heq⟩
  · rw [heq]
    refine ⟨⟨h.entry, h.ended, fun x hx => (h.count x hx).trans ?_⟩, fun _ hk => hk⟩
    rw [List.count_append]
    omega
  · rw [heq]
    refine ⟨⟨fun j hj => ?_, ?_, fun x hx => ?_⟩, fun j hj => ?_⟩
    · by_cases hjk : j = k
      · exact Or.inr (by rw [hjk, Function.update_self])
      · rw [Function.update_of_ne hjk]
        exact h.entry j hj
    · rw [Function.update_of_ne (Nat.ne_of_gt hk)]
      exact h.ended
    · have hset : (List.range all.length).map (Function.update olist k (-1)) =
          ((List.range all.length).map olist).set k (-1) := by
        refine List.ext_getElem (by simp) fun j hj hj' => ?_
        rw [List.getElem_map, List.getElem_range, List.getElem_set, Function.update_apply]
        simp [eq_comm]
      have hcount := h.count x hx
      have hx0 := hpos x hx
      rw [hset, List.count_set (by simpa using hk), List.count_append]
      simp only [List.getElem_map, List.getElem_range, hkoid, List.count_singleton]
      split <;> split <;> omega
    · by_cases hjk : j = k
      · rw [hjk, Function.update_self]
      · rwa [Function.update_of_ne hjk]

end Marks

/-! ## Sweeps -/

theorem visible_of_walk {vs : List ObjId} (hwalk : TreeWalk.Walk (childOids env db ts) vs out)
    (hvs : ∀ v ∈ vs, v ∈ visibleOids db ts) : ∀ x ∈ out, x ∈ visibleOids db ts := by
  intro x hx
  obtain ⟨v, hv, hvx⟩ := hwalk.mem_iff.mp hx
  exact mem_of_closed (fun a _ b hab => (childOids_mem a b hab).2) (hvs v hv) hvx

/-- With the heading or without it, the same objects are printed. -/
theorem Prints.unlinked {found : Bool}
    (h : Prints out { dump with
      lines := if found then dump.lines else dump.lines ++ [.unlinkedObjects] } dump') :
    Prints out dump dump' := by
  cases found with
  | true => exact h
  | false => exact h.heading

/-- A dump of the unlinked objects that ends is a sweep. -/
theorem sweep_of_run (hpos : ∀ oid ∈ visibleOids db ts, 0 < oid)
    (hnodup : (visibleOids db ts).Nodup) (hlen : (visibleOids db ts).length < idlistMax)
    (fuel : Nat) :
    ∀ i found done dump dump' w w', w.db = db → i ≤ (visibleOids db ts).length →
      Linked (visibleOids db ts) done dump.olist →
      dumpUnlinked env.atomic ts fuel i found dump w = some (.ok dump', w') →
        ∃ out, Sweep (childOids env db ts) done ((visibleOids db ts).drop i) out ∧
          Prints out dump dump' ∧ ∀ x ∈ out, Shown db x ts := by
  induction fuel with
  | zero =>
      intro i found done dump dump' w w' _ _ _ hrun
      cases hrun
  | succ fuel ih =>
      intro i found done dump dump' w w' hdb hi hlinked hrun
      rw [dumpUnlinked] at hrun
      rcases Nat.eq_or_lt_of_le hi with rfl | hlt
      · rw [if_pos hlinked.ended] at hrun
        cases hrun
        rw [List.drop_length]
        exact ⟨[], .nil, .refl, fun x hx => absurd hx List.not_mem_nil⟩
      rw [if_neg (hlinked.ne_zero hpos hlt)] at hrun
      rw [List.drop_eq_getElem_cons hlt]
      have hentry := hlinked.entry i hlt
      have hvisible : (visibleOids db ts)[i] ∈ visibleOids db ts := List.getElem_mem hlt
      generalize (visibleOids db ts)[i] = v at hentry hvisible ⊢
      by_cases hdone : v ∈ done
      · rw [if_pos hdone] at hentry
        rw [if_pos hentry] at hrun
        obtain ⟨out, hsweep, hprints, hall⟩ :=
          ih (i + 1) found done dump dump' w w' hdb hlt hlinked hrun
        exact ⟨out, .skip hdone hsweep, hprints, hall⟩
      · rw [if_neg hdone] at hentry
        have hv := hpos v hvisible
        rw [hentry, if_neg (by rintro rfl; exact absurd hv (by decide))] at hrun
        obtain ⟨r, w₁, htree, hrun⟩ := bind_some.mp hrun
        cases r with
        | error e => cases hrun
        | ok dump₁ =>
            obtain ⟨hdb₁, sub, hwalk, hprints₁, hall₁⟩ :=
              (walk_of_run hpos fuel).1 v 0 _ dump₁ w w₁ hvisible hdb htree
            have hprints₁ := hprints₁.unlinked
            have hsub := visible_of_walk hwalk fun u hu => List.mem_singleton.mp hu ▸ hvisible
            obtain ⟨out, hsweep, hprints, hall⟩ :=
              ih (i + 1) true (done ++ sub) dump₁ dump' w₁ w' hdb₁ hlt
                (hlinked.print hnodup hpos hlen hprints₁ hsub) hrun
            refine ⟨sub ++ out, .start hdone hwalk hsweep, hprints₁.trans hprints, fun x hx => ?_⟩
            rcases List.mem_append.mp hx with hx | hx
            · exact hall₁ x hx
            · exact hall x hx

theorem run_of_sweep (hpos : ∀ oid ∈ visibleOids db ts, 0 < oid)
    (hshown : ∀ oid ∈ visibleOids db ts, Shown db oid ts)
    (hnodup : (visibleOids db ts).Nodup) (hlen : (visibleOids db ts).length < idlistMax)
    {done todo : List ObjId} (hsweep : Sweep (childOids env db ts) done todo out) :
    ∀ i, i ≤ (visibleOids db ts).length → (visibleOids db ts).drop i = todo →
      ∃ n, ∀ fuel, n ≤ fuel → ∀ found dump w, w.db = db →
        Linked (visibleOids db ts) done dump.olist → ∃ dump' w',
          dumpUnlinked env.atomic ts fuel i found dump w = some (.ok dump', w') ∧
            Prints out dump dump' := by
  have hnext {i : Nat} {x : ObjId} {todo : List ObjId}
      (hdrop : (visibleOids db ts).drop i = x :: todo) : ∃ hlt : i < (visibleOids db ts).length,
        (visibleOids db ts)[i] = x ∧ (visibleOids db ts).drop (i + 1) = todo := by
    have hlt : i < (visibleOids db ts).length := by
      by_contra hge
      rw [List.drop_eq_nil_of_le (by omega)] at hdrop
      cases hdrop
    rw [List.drop_eq_getElem_cons hlt] at hdrop
    exact ⟨hlt, (List.cons.inj hdrop).1, (List.cons.inj hdrop).2⟩
  induction hsweep with
  | nil =>
      intro i hi hdrop
      refine ⟨1, fun fuel hfuel found dump w _ hlinked => ?_⟩
      obtain ⟨fuel, rfl⟩ : ∃ m, fuel = m + 1 := ⟨fuel - 1, by omega⟩
      obtain rfl : i = (visibleOids db ts).length :=
        Nat.le_antisymm hi (List.drop_eq_nil_iff.mp hdrop)
      rw [dumpUnlinked, if_pos hlinked.ended]
      exact ⟨dump, w, rfl, .refl⟩
  | @skip done todo out x hx _ ih =>
      intro i hi hdrop
      obtain ⟨hlt, hget, hrest⟩ := hnext hdrop
      obtain ⟨n, hn⟩ := ih (i + 1) hlt hrest
      refine ⟨n + 1, fun fuel hfuel found dump w hdb hlinked => ?_⟩
      obtain ⟨fuel, rfl⟩ : ∃ m, fuel = m + 1 := ⟨fuel - 1, by omega⟩
      have hentry := hlinked.entry i hlt
      rw [hget, if_pos hx] at hentry
      rw [dumpUnlinked, if_neg (hlinked.ne_zero hpos hlt), if_pos hentry]
      exact hn fuel (by omega) found dump w hdb hlinked
  | @start done todo sub out x hx hwalk _ ih =>
      intro i hi hdrop
      obtain ⟨hlt, hget, hrest⟩ := hnext hdrop
      have hvisible : x ∈ visibleOids db ts := hget ▸ List.getElem_mem hlt
      have hv := hpos x hvisible
      obtain ⟨n, hn⟩ := ih (i + 1) hlt hrest
      obtain ⟨m, hm⟩ := tree_of_walk hpos hshown hvisible 0 hwalk
      refine ⟨n + m + 1, fun fuel hfuel found dump w hdb hlinked => ?_⟩
      obtain ⟨fuel, rfl⟩ : ∃ m, fuel = m + 1 := ⟨fuel - 1, by omega⟩
      have hentry := hlinked.entry i hlt
      rw [hget, if_neg hx] at hentry
      obtain ⟨dump₁, w₁, htree, hdb₁, hprints₁⟩ := hm fuel (by omega)
        { dump with lines := if found then dump.lines else dump.lines ++ [.unlinkedObjects] } w hdb
      have hprints₁ := hprints₁.unlinked
      have hsub := visible_of_walk hwalk fun u hu => List.mem_singleton.mp hu ▸ hvisible
      obtain ⟨dump', w', hrun, hprints⟩ := hn fuel (by omega) true dump₁ w₁ hdb₁
        (hlinked.print hnodup hpos hlen hprints₁ hsub)
      refine ⟨dump', w', ?_, hprints₁.trans hprints⟩
      rw [dumpUnlinked, if_neg (hlinked.ne_zero hpos hlt), hentry,
        if_neg (by rintro rfl; exact absurd hv (by decide))]
      exact bind_some.mpr ⟨_, _, htree, hrun⟩

/-! ## Distinct oids -/

theorem Counted.foldl {all done : List ObjId} (hpos : ∀ x ∈ all, 0 < x)
    (hlen : all.length < idlistMax) (h : Counted all done olist) (out : List ObjId) :
    Counted all (done ++ out) (out.foldl IdList.mark olist) ∧
      ∀ k, olist k = -1 → out.foldl IdList.mark olist k = -1 := by
  induction out generalizing done olist with
  | nil =>
      rw [List.append_nil]
      exact ⟨h, fun _ hk => hk⟩
  | cons x out ih =>
      obtain ⟨hmark, hkeep⟩ := h.mark hpos hlen x
      obtain ⟨hrest, hkeep'⟩ := ih hmark
      rw [List.append_assoc] at hrest
      exact ⟨hrest, fun k hk => hkeep' k (hkeep k hk)⟩

/-- The entry that a tree is printed for is the first with its oid, and so the one marked. -/
theorem Counted.marks {all done : List ObjId} (hpos : ∀ x ∈ all, 0 < x)
    (hlen : all.length < idlistMax) (h : Counted all done olist) {i : Nat} (hi : i < all.length)
    (hbefore : ∀ j < i, olist j = -1) (hne : olist i ≠ -1) : olist.mark (olist i) i = -1 := by
  rcases IdList.mark_cases (Nat.le_of_lt hlen) h.ended (fun _ hk => h.ne_zero hpos hk) (olist i)
    with ⟨-, hno⟩ | ⟨k, hk, hkoid, hmin, heq⟩
  · exact absurd rfl (hno i hi)
  · rcases Nat.lt_trichotomy k i with hlt | rfl | hgt
    · exact absurd ((hbefore k hlt).symm.trans hkoid).symm hne
    · rw [heq, Function.update_self]
    · exact absurd rfl (hmin i hgt)

/-- A dump of the unlinked objects that ends has marked every entry. -/
theorem counted_of_run (hpos : ∀ oid ∈ visibleOids db ts, 0 < oid)
    (hlen : (visibleOids db ts).length < idlistMax)
    (fuel : Nat) :
    ∀ i found done dump dump' w w', w.db = db → i ≤ (visibleOids db ts).length →
      Counted (visibleOids db ts) done dump.olist → (∀ j < i, dump.olist j = -1) →
      dumpUnlinked env.atomic ts fuel i found dump w = some (.ok dump', w') →
        ∃ out, Prints out dump dump' ∧ Counted (visibleOids db ts) (done ++ out) dump'.olist ∧
          ∀ j < (visibleOids db ts).length, dump'.olist j = -1 := by
  induction fuel with
  | zero =>
      intro i found done dump dump' w w' _ _ _ _ hrun
      cases hrun
  | succ fuel ih =>
      intro i found done dump dump' w w' hdb hi hcounted hbefore hrun
      rw [dumpUnlinked] at hrun
      rcases Nat.eq_or_lt_of_le hi with rfl | hlt
      · rw [if_pos hcounted.ended] at hrun
        cases hrun
        refine ⟨[], .refl, ?_, hbefore⟩
        rwa [List.append_nil]
      rw [if_neg (hcounted.ne_zero hpos hlt)] at hrun
      by_cases hmarked : dump.olist i = -1
      · rw [if_pos hmarked] at hrun
        refine ih (i + 1) found done dump dump' w w' hdb hlt hcounted (fun j hj => ?_) hrun
        rcases Nat.lt_succ_iff_lt_or_eq.mp hj with hj | rfl
        · exact hbefore j hj
        · exact hmarked
      · rw [if_neg hmarked] at hrun
        have hvisible : dump.olist i ∈ visibleOids db ts := by
          rw [(hcounted.entry i hlt).resolve_right hmarked]
          exact List.getElem_mem hlt
        obtain ⟨r, w₁, htree, hrun⟩ := bind_some.mp hrun
        cases r with
        | error e => cases hrun
        | ok dump₁ =>
            obtain ⟨hdb₁, sub, hwalk, hprints₁, -⟩ :=
              (walk_of_run hpos fuel).1 _ 0 _ dump₁ w w₁ hvisible hdb htree
            have hprints₁ := hprints₁.unlinked
            obtain ⟨hcounted₁, hkeep⟩ := hcounted.foldl hpos hlen sub
            rw [← hprints₁.olist] at hcounted₁ hkeep
            have hbefore₁ : ∀ j < i + 1, dump₁.olist j = -1 := by
              intro j hj
              rcases Nat.lt_succ_iff_lt_or_eq.mp hj with hj | rfl
              · exact hkeep j (hbefore j hj)
              · -- the walk begins with the object itself
                cases hwalk with
                | cons hsub hrest =>
                    have hfirst := (hcounted.mark hpos hlen (dump.olist j)).1
                    have hmark := hcounted.marks hpos hlen hlt hbefore hmarked
                    rw [hprints₁.olist, List.foldl_cons]
                    exact (hfirst.foldl hpos hlen _).2 j hmark
            obtain ⟨out, hprints, hcounted', hall⟩ := ih (i + 1) true (done ++ sub) dump₁ dump'
              w₁ w' hdb₁ hlt hcounted₁ hbefore₁ hrun
            rw [List.append_assoc] at hcounted'
            exact ⟨sub ++ out, hprints₁.trans hprints, hcounted', hall⟩

/-! ## When the dump is complete -/

theorem head_visible (hroot : (allMatches db .any otypeRoot 0 0 ts).head? = some root) :
    root ∈ visibleOids db ts := by
  obtain ⟨i, hi, heq, hmatch⟩ := mem_allMatches.mp (List.mem_of_mem_head? hroot)
  obtain ⟨hne, hlisted⟩ := ObjInfo.matches_times hmatch
  exact mem_visibleOids.mpr ⟨i, hi, heq, heq ▸ hne, hlisted⟩

/-- The dump starts with the list of all objects and the root. -/
theorem dumpTree_some (env : Env)
    (hroot : (allMatches w.db .any otypeRoot 0 0 ts).head? = some root) :
    ∃ w₁, w₁.db = w.db ∧ ∀ fuel dump w', dumpTree env.atomic fuel ts w = some (.ok dump, w') ↔
      ∃ dump₁ w₂, dumpRecursive env.atomic fuel root ts 1
          ⟨[], env.uninit.fill (visibleOids w.db ts)⟩ w₁ = some (.ok dump₁, w₂) ∧
        dumpUnlinked env.atomic ts fuel 0 false dump₁ w₂ = some (.ok dump, w') := by
  have hdb : (w.lock env.atomic).unlock.db = w.db := atomic_lock_db w
  have hdb₁ : ((w.lock env.atomic).unlock.lock env.atomic).unlock.db = w.db :=
    (atomic_lock_db _).trans hdb
  have hall : searchinfo env.atomic none 0 0 0 ts (some env.uninit) 0 w =
      some ((.ok (visibleOids w.db ts).length, some (env.uninit.fill (visibleOids w.db ts))),
        (w.lock env.atomic).unlock) := by
    have hne : allMatches w.db .any 0 0 0 ts ≠ [] := List.ne_nil_of_mem (head_visible hroot)
    have hname : searchName env.atomic none 0 = .scan .any 0 := rfl
    rw [searchinfo_eq hname, atomic_lock_db]
    unfold searchAnswer upTo
    rw [if_neg (Int.lt_irrefl 0), if_neg hne]
    rfl
  have hfirst : searchinfo env.atomic none otypeRoot 0 0 ts none 1 (w.lock env.atomic).unlock =
      some ((.ok root, none), ((w.lock env.atomic).unlock.lock env.atomic).unlock) := by
    have hname : searchName env.atomic none otypeRoot = .scan .any otypeRoot := rfl
    obtain ⟨ret, hret, hok, -⟩ := searchAnswer_nth w.db 0 ts
      (allMatches w.db .any otypeRoot 0 0 ts) (Nat.le_refl 1)
    rw [searchinfo_eq hname, atomic_lock_db, hdb]
    have hret : searchAnswer w.db (upTo 1 (allMatches w.db .any otypeRoot 0 0 ts)) 0 ts none 1 =
      (ret, none) := hret
    rw [hret, hok root (by rwa [← List.head?_eq_getElem?])]
  refine ⟨_, hdb₁, fun fuel dump w' => ?_⟩
  unfold dumpTree
  constructor
  · intro hrun
    obtain ⟨r, w₁, hsearch, hrun⟩ := bind_some.mp hrun
    have hsearch := hsearch.symm.trans hall
    cases hsearch
    obtain ⟨r, w₁, hsearch, hrun⟩ := bind_some.mp hrun
    rw [hfirst] at hsearch
    cases hsearch
    obtain ⟨r, w₂, htree, hrun⟩ := bind_some.mp hrun
    cases r with
    | error e => cases hrun
    | ok dump₁ => exact ⟨dump₁, w₂, htree, hrun⟩
  · rintro ⟨dump₁, w₂, htree, hrun⟩
    exact bind_some.mpr ⟨_, _, hall, bind_some.mpr ⟨_, _, hfirst,
      bind_some.mpr ⟨_, _, htree, hrun⟩⟩⟩

theorem visibleOids_pos (ts : Timestamp) (hids : OidsPositive db.objmeta) :
    ∀ oid ∈ visibleOids db ts, 0 < oid := by
  intro oid hoid
  obtain ⟨i, -, rfl, hne, -⟩ := mem_visibleOids.mp hoid
  exact hids i hne

theorem count_iff : (∀ i < objMax, (db.objmeta i).oid ≠ 0 → (db.objmeta i).Listed ts →
      dump.oids.count (db.objmeta i).oid = 1) ↔
    ∀ oid ∈ visibleOids db ts, dump.oids.count oid = 1 := by
  constructor
  · intro h oid hoid
    obtain ⟨i, hi, rfl, hne, hlisted⟩ := mem_visibleOids.mp hoid
    exact h i hi hne hlisted
  · exact fun h i hi hne hlisted => h _ (mem_visibleOids.mpr ⟨i, hi, rfl, hne, hlisted⟩)

theorem dumpable_of_dumpsOnce (hids : OidsPositive w.db.objmeta)
    (hlen : (visibleOids w.db ts).length < idlistMax)
    (hroot : (allMatches w.db .any otypeRoot 0 0 ts).head? = some root)
    (h : DumpsOnce env.atomic w ts) : Dumpable env w.db ts root := by
  obtain ⟨fuel, dump, w', hrun, hcount⟩ := h
  have hcount := count_iff.mp hcount
  have hpos := visibleOids_pos ts hids
  have hvisible := head_visible hroot
  obtain ⟨w₁, hdb₁, hsplit⟩ := dumpTree_some env hroot
  obtain ⟨dump₁, w₂, htree, hrun⟩ := (hsplit fuel dump w').mp hrun
  obtain ⟨hdb₂, out₀, hwalk, hprints₀, hall₀⟩ :=
    (walk_of_run hpos fuel).1 root 1 _ dump₁ w₁ w₂ hvisible hdb₁ htree
  have hnodup : (visibleOids w.db ts).Nodup := by
    have hcounted := ((Counted.fill hlen env.uninit).foldl hpos hlen out₀).1
    rw [← hprints₀.olist] at hcounted
    obtain ⟨out, hprints, hcounted, hmarked⟩ := counted_of_run hpos hlen fuel 0 false _ dump₁ dump
      w₂ w' hdb₂ (Nat.zero_le _) hcounted (fun j hj => absurd hj (Nat.not_lt_zero j)) hrun
    refine List.nodup_iff_count_le_one.mpr fun x => ?_
    by_cases hx : x ∈ visibleOids w.db ts
    · have hle := hcounted.count x hx
      have hnone : ((List.range (visibleOids w.db ts).length).map dump.olist).count x = 0 := by
        refine List.count_eq_zero.mpr fun hmem => ?_
        obtain ⟨k, hk, rfl⟩ := List.mem_map.mp hmem
        have hpos := hpos _ hx
        rw [hmarked k (List.mem_range.mp hk)] at hpos
        exact absurd hpos (by decide)
      have honce := hcount x hx
      rw [hprints.oids, hprints₀.oids] at honce
      rw [hnone] at hle
      have hnil : Dump.oids ⟨[], env.uninit.fill (visibleOids w.db ts)⟩ = [] := rfl
      rw [hnil, List.nil_append] at honce
      rw [List.nil_append] at hle
      omega
    · rw [List.count_eq_zero_of_not_mem hx]
      exact Nat.zero_le 1
  have hlinked₀ : Linked (visibleOids w.db ts) []
    (Dump.mk [] (env.uninit.fill (visibleOids w.db ts))).olist := Linked.fill hlen env.uninit
  have hlinked := hlinked₀.print hnodup hpos hlen hprints₀
    (visible_of_walk hwalk fun v hv => List.mem_singleton.mp hv ▸ hvisible)
  obtain ⟨out₁, hsweep, hprints₁, hall₁⟩ := sweep_of_run hpos hnodup hlen fuel 0 false _ dump₁ dump
    w₂ w' hdb₂ (Nat.zero_le _) hlinked hrun
  have hoids : dump.oids = out₀ ++ out₁ := by
    rw [hprints₁.oids, hprints₀.oids]
    rfl
  rw [hoids] at hcount
  have hmem : ∀ x ∈ out₀ ++ out₁, x ∈ visibleOids w.db ts := by
    intro x hx
    rcases List.mem_append.mp hx with hx | hx
    · exact visible_of_walk hwalk (fun v hv => List.mem_singleton.mp hv ▸ hvisible) x hx
    · obtain ⟨s, hs, hsx, -⟩ := hsweep.exists_start hx
      exact mem_of_closed (fun a _ b hab => (childOids_mem a b hab).2) hs hsx
  refine ⟨hnodup, fun x hx => ?_, (walksOnce_iff (forest_childOids hnodup) childOids_mem hnodup
    hvisible).mp ⟨out₀, out₁, hwalk, hsweep, ?_⟩⟩
  · have hprinted : x ∈ out₀ ++ out₁ := List.count_pos_iff.mp (by rw [hcount x hx]; decide)
    rcases List.mem_append.mp hprinted with hx | hx
    · exact hall₀ x hx
    · exact hall₁ x hx
  · refine List.nodup_iff_count_le_one.mpr fun x => ?_
    by_cases hx : x ∈ out₀ ++ out₁
    · exact (hcount x (hmem x hx)).le
    · rw [List.count_eq_zero_of_not_mem hx]
      exact Nat.zero_le 1

theorem dumpsOnce_of_dumpable (hids : OidsPositive w.db.objmeta)
    (hlen : (visibleOids w.db ts).length < idlistMax)
    (hroot : (allMatches w.db .any otypeRoot 0 0 ts).head? = some root)
    (h : Dumpable env w.db ts root) : DumpsOnce env.atomic w ts := by
  have hpos := visibleOids_pos ts hids
  have hvisible := head_visible hroot
  obtain ⟨out₀, out₁, hwalk, hsweep, hnodup⟩ :=
    (walksOnce_iff (forest_childOids h.nodup) childOids_mem h.nodup hvisible).mpr h.tops
  obtain ⟨w₁, hdb₁, hsplit⟩ := dumpTree_some env hroot
  obtain ⟨n, hn⟩ := tree_of_walk hpos h.shown hvisible 1 hwalk
  obtain ⟨m, hm⟩ := run_of_sweep hpos h.shown h.nodup hlen hsweep 0
    (Nat.zero_le _) rfl
  obtain ⟨dump₁, w₂, htree, hdb₂, hprints₀⟩ := hn (n + m) (by omega)
    ⟨[], env.uninit.fill (visibleOids w.db ts)⟩ w₁ hdb₁
  have hlinked₀ : Linked (visibleOids w.db ts) []
    (Dump.mk [] (env.uninit.fill (visibleOids w.db ts))).olist := Linked.fill hlen env.uninit
  have hlinked := hlinked₀.print h.nodup hpos hlen hprints₀
    (visible_of_walk hwalk fun v hv => List.mem_singleton.mp hv ▸ hvisible)
  obtain ⟨dump, w', hrun, hprints₁⟩ := hm (n + m) (by omega) false dump₁ w₂ hdb₂ hlinked
  refine ⟨n + m, dump, w', (hsplit _ _ _).mpr ⟨dump₁, w₂, htree, hrun⟩, count_iff.mpr ?_⟩
  intro x hx
  have hoids : dump.oids = out₀ ++ out₁ := by
    rw [hprints₁.oids, hprints₀.oids]
    rfl
  have hprinted : x ∈ out₀ ++ out₁ := List.mem_append.mpr (hsweep.cover hx)
  rw [hoids]
  exact (List.count_eq_one_of_mem hnodup hprinted)

/-- With nobody else at work, a root, and fewer objects than the list holds, the dump ends and
prints every object once if and only if the table is `Dumpable`. -/
theorem dumpsOnce_iff [Rounding] {heapSize : Int} {s : RunState}
    (h : (apiLts env heapSize).Reachable s) (hlen : (visibleOids s.world.db ts).length < idlistMax)
    (hroot : (allMatches s.world.db .any otypeRoot 0 0 ts).head? = some root) :
    DumpsOnce env.atomic s.world ts ↔ Dumpable env s.world.db ts root :=
  ⟨dumpable_of_dumpsOnce (oidsPositive_of_reachable h) hlen hroot,
    dumpsOnce_of_dumpable (oidsPositive_of_reachable h) hlen hroot⟩

def aRoot : ObjInfo where
  name := ['r', 'o', 'o', 't']
  otype := otypeRoot
  historyInterval := 1
  minCycletime := 1
  maxCycletime := 1

/-- A process that may change the metadata of objects. -/
def anAdmin : Handle := { aProcess with admin := true }

theorem three_lt_idlistMax : 3 < idlistMax := by
  unfold idlistMax
  decide

/-- An object below the root. -/
theorem dumpsOnce_iff_child :
    ∃ s, (apiLts (exampleEnv 4096) 4096).Reachable s ∧ visibleOids s.world.db 0 = [1, 2] ∧
      DumpsOnce (exampleEnv 4096).atomic s.world 0 := by
  obtain ⟨s, hr, hp⟩ := (apiLts (exampleEnv 4096) 4096).exists_of_exec
    [.insert aProcess aRoot, .insert aProcess { anObject with parentOid := 1 }]
    (fun s => decide (visibleOids s.world.db 0 = [1, 2] ∧
      (allMatches s.world.db .any otypeRoot 0 0 0).head? = some 1 ∧
      childOids (exampleEnv 4096) s.world.db 0 1 = [2] ∧
      childOids (exampleEnv 4096) s.world.db 0 2 = [] ∧
      s.world.db.findmetaById 1 = some 0 ∧ (s.world.db.objmeta 0).hidden 0 = false ∧
      s.world.db.findmetaById 2 = some 1 ∧ (s.world.db.objmeta 1).hidden 0 = false))
    (s := ⟨World.initial (exampleEnv 4096).atomic 4096, []⟩) rfl (by decide +kernel)
  obtain ⟨hvis, hroot, hkids₁, hkids₂, hfind₁, hhidden₁, hfind₂, hhidden₂⟩ := of_decide_eq_true hp
  have hchild : ∀ a b, Child (childOids (exampleEnv 4096) s.world.db 0) a b → a = 1 ∧ b = 2 := by
    intro a b hab
    have ha := (childOids_mem a b hab).1
    rw [hvis] at ha
    unfold Child at hab
    rcases List.mem_pair.mp ha with rfl | rfl
    · rw [hkids₁] at hab
      exact ⟨rfl, List.mem_singleton.mp hab⟩
    · rw [hkids₂] at hab
      cases hab
  have hlen : (visibleOids s.world.db 0).length < idlistMax := by
    rw [hvis]
    exact Nat.lt_of_succ_lt three_lt_idlistMax
  refine ⟨s, hr, hvis, (dumpsOnce_iff hr hlen hroot).mpr
    ⟨by rw [hvis]; decide, fun oid hoid => ?_, fun x hcycle => ?_, fun p hp => ?_, ?_⟩⟩
  · rw [hvis] at hoid
    rcases List.mem_pair.mp hoid with rfl | rfl
    · exact ⟨0, hfind₁, hhidden₁⟩
    · exact ⟨1, hfind₂, hhidden₂⟩
  · obtain ⟨y, hxy, hyx⟩ := TransGen.head'_iff.mp hcycle
    obtain ⟨rfl, rfl⟩ := hchild x y hxy
    rcases ReflTransGen.cases_head hyx with h | ⟨z, hz, -⟩
    · cases h
    · exact absurd (hchild 2 z hz).1 (by decide)
  · exact absurd (hchild p 1 hp).2 (by decide)
  · intro x t htx _ hx hsub
    rcases ReflTransGen.cases_tail htx with rfl | ⟨y, -, hyx⟩
    · rw [hvis] at hsub
      have := List.nodup_iff_sublist.mp (show [(1 : ObjId), 2].Nodup by decide) x
      exact this hsub
    · obtain ⟨rfl, rfl⟩ := hchild y x hyx
      exact hx (.single hyx)

/-- The parent of an object is set to the object itself, or to an object that comes after it in
the table and whose own parent is not there. -/
theorem exists_not_dumpsOnce :
    (∃ s, (apiLts (exampleEnv 4096) 4096).Reachable s ∧ visibleOids s.world.db 0 = [1, 2] ∧
      (allMatches s.world.db .any otypeRoot 0 0 0).head? = some 1 ∧
      ¬ DumpsOnce (exampleEnv 4096).atomic s.world 0) ∧
    ∃ s, (apiLts (exampleEnv 4096) 4096).Reachable s ∧ visibleOids s.world.db 0 = [1, 2, 3] ∧
      (allMatches s.world.db .any otypeRoot 0 0 0).head? = some 1 ∧
      ¬ DumpsOnce (exampleEnv 4096).atomic s.world 0 := by
  constructor
  · obtain ⟨s, hr, hp⟩ := (apiLts (exampleEnv 4096) 4096).exists_of_exec
      [.insert aProcess aRoot, .insert aProcess anObject,
        .changeinfo anAdmin 2 { anObject with parentOid := 2 }]
      (fun s => decide (visibleOids s.world.db 0 = [1, 2] ∧
        (allMatches s.world.db .any otypeRoot 0 0 0).head? = some 1 ∧
        childOids (exampleEnv 4096) s.world.db 0 2 = [2]))
      (s := ⟨World.initial (exampleEnv 4096).atomic 4096, []⟩) rfl (by decide +kernel)
    obtain ⟨hvis, hroot, hkids⟩ := of_decide_eq_true hp
    have hlen : (visibleOids s.world.db 0).length < idlistMax := by
      rw [hvis]
      exact Nat.lt_of_succ_lt three_lt_idlistMax
    refine ⟨s, hr, hvis, hroot, fun h => ?_⟩
    have htops := (dumpable_of_dumpsOnce (oidsPositive_of_reachable hr) hlen hroot h).tops
    refine htops.acyclic 2 (.single ?_)
    unfold Child
    rw [hkids]
    exact List.mem_singleton_self 2
  · obtain ⟨s, hr, hp⟩ := (apiLts (exampleEnv 4096) 4096).exists_of_exec
      [.insert aProcess aRoot, .insert aProcess anObject,
        .insert aProcess { anObject with parentOid := 4 },
        .changeinfo anAdmin 2 { anObject with parentOid := 3 }]
      (fun s => decide (visibleOids s.world.db 0 = [1, 2, 3] ∧
        (allMatches s.world.db .any otypeRoot 0 0 0).head? = some 1 ∧
        childOids (exampleEnv 4096) s.world.db 0 1 = [] ∧
        childOids (exampleEnv 4096) s.world.db 0 2 = [] ∧
        childOids (exampleEnv 4096) s.world.db 0 3 = [2]))
      (s := ⟨World.initial (exampleEnv 4096).atomic 4096, []⟩) rfl (by decide +kernel)
    obtain ⟨hvis, hroot, hkids₁, hkids₂, hkids₃⟩ := of_decide_eq_true hp
    have hlen : (visibleOids s.world.db 0).length < idlistMax := by
      rw [hvis]
      exact three_lt_idlistMax
    refine ⟨s, hr, hvis, hroot, fun h => ?_⟩
    have htops := (dumpable_of_dumpsOnce (oidsPositive_of_reachable hr) hlen hroot h).tops
    refine htops.order 2 3 (.single ?_) (fun p hp => ?_) (fun hbelow => ?_) (by rw [hvis]; decide)
    · unfold Child
      rw [hkids₃]
      exact List.mem_singleton_self 2
    · have hp' := (childOids_mem p 3 hp).1
      rw [hvis] at hp'
      unfold Child at hp
      simp only [List.mem_cons, List.not_mem_nil, or_false] at hp'
      rcases hp' with rfl | rfl | rfl
      · rw [hkids₁] at hp
        cases hp
      · rw [hkids₂] at hp
        cases hp
      · rw [hkids₃] at hp
        exact absurd hp (by decide)
    · rcases ReflTransGen.cases_head hbelow with h | ⟨y, hy, -⟩
      · cases h
      · unfold Child at hy
        rw [hkids₁] at hy
        cases hy

end KogmoRtdb
