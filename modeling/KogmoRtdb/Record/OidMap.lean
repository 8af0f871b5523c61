import Mathlib.Data.List.Nodup
import Mathlib.Data.List.Perm.Subperm
import KogmoRtdb.Db

/-!
# The map of objects

`kogmo_rtdb_oid_map.h`: where the player has inserted the objects of a recording. An object with
`dest` 0 is known and not played. The places of the map are searched from the first on, and an
object that is gone leaves a free place.

What counts for playing is what the map says of an object, `find`; where it says it matters only
at the end, when the objects that are left are deleted in the order of their places.
-/

namespace KogmoRtdb

/-- `oid_map_t`, less the name and the type, which are there for messages. -/
structure OidMapEntry where
  src : ObjId := 0
  dest : ObjId := 0
  deriving DecidableEq, Repr

/-- `oid_map`. -/
abbrev OidMap := List OidMapEntry

namespace OidMap

/-- `KOGMO_RTDB_OIDMAPSLOTS`. -/
@[irreducible] def slots : Nat := 1000

/-- `map_init`. -/
def init : OidMap := List.replicate slots {}

/-- `map_del`. -/
def del (src : ObjId) : OidMap → OidMap
  | [] => []
  | e :: m => if e.src = src then {} :: m else e :: del src m

/-- The loop of `map_add`; without a free place the player dies. -/
def fill (src dest : ObjId) : OidMap → Option OidMap
  | [] => none
  | e :: m => if e.src = 0 then some (⟨src, dest⟩ :: m) else (fill src dest m).map (e :: ·)

/-- `map_add`. -/
def add (src dest : ObjId) (m : OidMap) : Option OidMap := fill src dest (del src m)

def find (m : OidMap) (src : ObjId) : Option ObjId := (m.find? (·.src = src)).map (·.dest)

/-- `map_querydest`. -/
def querydest (m : OidMap) (src : ObjId) : ObjId := (m.find src).getD 0

/-- `map_exists`. -/
def contains (m : OidMap) (src : ObjId) : Bool := (m.find src).isSome

def occupied (m : OidMap) : List ObjId := (m.map (·.src)).filter (· ≠ 0)

/-- No object is in the map twice, and a free place has no `dest`. -/
structure Valid (m : OidMap) : Prop where
  nodup : m.occupied.Nodup
  free : ∀ e ∈ m, e.src = 0 → e.dest = 0

variable {m m' : OidMap} {e : OidMapEntry} {src dest o : ObjId}

/-! ## One place -/

theorem find_cons : find (e :: m) o = if e.src = o then some e.dest else find m o := by
  unfold find
  by_cases heq : e.src = o <;> simp [heq]

theorem occupied_cons :
    occupied (e :: m) = if e.src = 0 then occupied m else e.src :: occupied m := by
  unfold occupied
  by_cases heq : e.src = 0 <;> simp [heq]

theorem mem_occupied : o ∈ m.occupied ↔ o ≠ 0 ∧ (m.find o).isSome := by
  induction m with
  | nil => simp [occupied, find]
  | cons e m ih =>
      rw [occupied_cons, find_cons]
      by_cases h0 : e.src = 0
      · rw [if_pos h0, ih]
        refine and_congr_right fun ho => ?_
        rw [if_neg fun heq => ho (heq.symm.trans h0)]
      · rw [if_neg h0, List.mem_cons, ih]
        by_cases heq : e.src = o
        · rw [if_pos heq]
          exact ⟨fun _ => ⟨heq ▸ h0, rfl⟩, fun _ => Or.inl heq.symm⟩
        · rw [if_neg heq]
          exact ⟨fun h => h.resolve_left fun h => heq h.symm, Or.inr⟩

theorem Valid.tail (hv : Valid (e :: m)) : Valid m where
  nodup := by
    have hnodup := hv.nodup
    rw [occupied_cons] at hnodup
    split at hnodup
    · exact hnodup
    · exact hnodup.of_cons
  free e' he' := hv.free e' (List.mem_cons_of_mem _ he')

/-- The object in the first place is not in another one. -/
theorem Valid.head (hv : Valid (e :: m)) (h0 : e.src ≠ 0) : m.find e.src = none := by
  have hnodup := hv.nodup
  rw [occupied_cons, if_neg h0, List.nodup_cons, mem_occupied] at hnodup
  exact Option.not_isSome_iff_eq_none.mp fun h => hnodup.1 ⟨h0, h⟩

theorem Valid.init : Valid init where
  nodup := by
    have hnil : occupied OidMap.init = [] := by
      unfold occupied OidMap.init
      rw [List.map_replicate]
      exact List.filter_eq_nil_iff.mpr fun a ha => by simp [List.eq_of_mem_replicate ha]
    rw [hnil]
    exact List.nodup_nil
  free e he _ := by rw [List.eq_of_mem_replicate he]

theorem find_init : find init o = if o = 0 ∧ 0 < slots then some 0 else none := by
  unfold init
  generalize slots = n
  induction n with
  | zero => simp [find]
  | succ n ih =>
      rw [List.replicate_succ, find_cons, ih]
      by_cases ho : o = 0
      · simp [ho]
      · simp [ho, Ne.symm ho]

/-! ## `map_del` -/

theorem length_del (src : ObjId) (m : OidMap) : (del src m).length = m.length := by
  induction m with
  | nil => rfl
  | cons e m ih =>
      unfold del
      split
      · rfl
      · rw [List.length_cons, List.length_cons, ih]

theorem Valid.find_del (hv : Valid m) (hsrc : src ≠ 0) (ho : o ≠ 0) :
    (del src m).find o = if o = src then none else m.find o := by
  induction m with
  | nil => simp [del, find]
  | cons e m ih =>
      unfold del
      by_cases he : e.src = src
      · rw [if_pos he, find_cons, if_neg (Ne.symm ho), find_cons]
        by_cases heq : o = src
        · rw [if_pos heq, heq, ← he]
          exact hv.head (he ▸ hsrc)
        · rw [if_neg heq, if_neg fun h => heq (h.symm.trans he)]
      · rw [if_neg he, find_cons, find_cons, ih hv.tail]
        by_cases heq : o = src
        · rw [if_pos heq, if_pos heq, if_neg fun h => he (h.trans heq)]
        · rw [if_neg heq, if_neg heq]

theorem occupied_del_subset : ∀ {m : OidMap}, (del src m).occupied.Sublist m.occupied
  | [] => List.Sublist.refl _
  | e :: m => by
      unfold del
      by_cases he : e.src = src
      · rw [if_pos he, occupied_cons, if_pos rfl, occupied_cons]
        split
        · exact List.Sublist.refl _
        · exact List.sublist_cons_self _ _
      · rw [if_neg he, occupied_cons, occupied_cons]
        split
        · exact occupied_del_subset
        · exact occupied_del_subset.cons_cons _

theorem mem_del : ∀ {m : OidMap}, e ∈ del src m → e = {} ∨ e ∈ m
  | [], h => nomatch h
  | e' :: m, h => by
      unfold del at h
      split at h
      · exact (List.mem_cons.mp h).imp_right (List.mem_cons_of_mem _)
      · rcases List.mem_cons.mp h with rfl | h
        · exact Or.inr List.mem_cons_self
        · exact (mem_del h).imp_right (List.mem_cons_of_mem _)

theorem Valid.del (hv : Valid m) (src : ObjId) : Valid (del src m) where
  nodup := hv.nodup.sublist occupied_del_subset
  free e he h0 := by
    rcases mem_del he with rfl | he
    · rfl
    · exact hv.free e he h0

/-! ## `map_add` -/

theorem length_fill : ∀ {m m' : OidMap}, fill src dest m = some m' → m'.length = m.length
  | [], _, h => nomatch h
  | e :: m, m', h => by
      unfold fill at h
      split at h
      · cases h
        rfl
      · obtain ⟨m₁, h₁, rfl⟩ := Option.map_eq_some_iff.mp h
        rw [List.length_cons, List.length_cons, length_fill h₁]

theorem find_fill (hsrc : src ≠ 0) (ho : o ≠ 0) : ∀ {m m' : OidMap}, m.find src = none →
    fill src dest m = some m' → m'.find o = if o = src then some dest else m.find o
  | [], _, _, h => nomatch h
  | e :: m, m', hnone, h => by
      rw [find_cons] at hnone
      have hne : e.src ≠ src := fun heq => by
        rw [if_pos heq] at hnone
        nomatch hnone
      rw [if_neg hne] at hnone
      unfold fill at h
      by_cases h0 : e.src = 0
      · rw [if_pos h0] at h
        cases h
        have hfree : e.src ≠ o := fun heq => ho (heq.symm.trans h0)
        rw [find_cons, find_cons, if_neg hfree]
        by_cases heq : o = src
        · rw [if_pos heq, if_pos heq.symm]
        · rw [if_neg heq, if_neg (Ne.symm heq)]
      · rw [if_neg h0] at h
        obtain ⟨m₁, h₁, rfl⟩ := Option.map_eq_some_iff.mp h
        rw [find_cons, find_cons, find_fill hsrc ho hnone h₁]
        by_cases heq : o = src
        · rw [if_pos heq, if_pos heq, if_neg fun h => hne (h.trans heq)]
        · rw [if_neg heq, if_neg heq]

theorem mem_fill : ∀ {m m' : OidMap}, fill src dest m = some m' → e ∈ m' →
    e = ⟨src, dest⟩ ∨ e ∈ m
  | [], _, h, _ => nomatch h
  | e' :: m, m', h, he => by
      unfold fill at h
      split at h
      · cases h
        exact (List.mem_cons.mp he).imp_right (List.mem_cons_of_mem _)
      · obtain ⟨m₁, h₁, rfl⟩ := Option.map_eq_some_iff.mp h
        rcases List.mem_cons.mp he with rfl | he
        · exact Or.inr List.mem_cons_self
        · exact (mem_fill h₁ he).imp_right (List.mem_cons_of_mem _)

theorem nodup_fill (hsrc : src ≠ 0) : ∀ {m m' : OidMap}, m.occupied.Nodup → m.find src = none →
    fill src dest m = some m' → m'.occupied.Nodup
  | [], _, _, _, h => nomatch h
  | e :: m, m', hnodup, hnone, h => by
      rw [find_cons] at hnone
      have hne : e.src ≠ src := fun heq => by
        rw [if_pos heq] at hnone
        nomatch hnone
      rw [if_neg hne] at hnone
      rw [occupied_cons] at hnodup
      unfold fill at h
      by_cases h0 : e.src = 0
      · rw [if_pos h0] at h hnodup
        cases h
        rw [occupied_cons, if_neg hsrc, List.nodup_cons, mem_occupied]
        refine ⟨fun hmem => ?_, hnodup⟩
        have hsome := hmem.2
        dsimp only at hsome
        rw [hnone] at hsome
        nomatch hsome
      · rw [if_neg h0] at h hnodup
        obtain ⟨m₁, h₁, rfl⟩ := Option.map_eq_some_iff.mp h
        rw [List.nodup_cons, mem_occupied] at hnodup
        rw [occupied_cons, if_neg h0, List.nodup_cons, mem_occupied, find_fill hsrc h0 hnone h₁,
          if_neg hne]
        exact ⟨hnodup.1, nodup_fill hsrc hnodup.2 hnone h₁⟩

theorem Valid.add (hv : Valid m) (hsrc : src ≠ 0) (h : add src dest m = some m') : Valid m' where
  nodup := by
    refine nodup_fill hsrc (hv.del src).nodup ?_ h
    rw [hv.find_del hsrc hsrc, if_pos rfl]
  free e he h0 := by
    rcases mem_fill h he with rfl | he
    · exact absurd h0 hsrc
    · exact (hv.del src).free e he h0

theorem Valid.find_add (hv : Valid m) (hsrc : src ≠ 0) (ho : o ≠ 0)
    (h : OidMap.add src dest m = some m') :
    m'.find o = if o = src then some dest else m.find o := by
  rw [find_fill hsrc ho (by rw [hv.find_del hsrc hsrc, if_pos rfl]) h]
  by_cases heq : o = src
  · rw [if_pos heq, if_pos heq]
  · rw [if_neg heq, if_neg heq, hv.find_del hsrc ho, if_neg heq]

theorem length_add (h : add src dest m = some m') : m'.length = m.length :=
  (length_fill h).trans (length_del src m)

theorem fill_isSome : (fill src dest m).isSome ↔ m.occupied.length < m.length := by
  induction m with
  | nil => simp [fill, occupied]
  | cons e m ih =>
      unfold fill
      rw [occupied_cons]
      by_cases h0 : e.src = 0
      · rw [if_pos h0, if_pos h0]
        have hle : (occupied m).length ≤ m.length :=
          (List.length_filter_le _ _).trans_eq (List.length_map ..)
        exact ⟨fun _ => by rw [List.length_cons]; omega, fun _ => rfl⟩
      · rw [if_neg h0, if_neg h0, Option.isSome_map, ih, List.length_cons, List.length_cons]
        omega

end OidMap

end KogmoRtdb
