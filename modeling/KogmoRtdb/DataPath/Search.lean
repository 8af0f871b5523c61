import KogmoRtdb.Types

/-!
# The time search of `kogmo_rtdb_obj_readdata__mode`

The `switch` of `kogmo_rtdb_obj_readdata__mode` holds six loops, one for
each time mode. Each loads a record's stamp (the data modes its `data_ts`
as well), and either takes a record, gives up, or steps one slot back. They
differ in the `while` condition and in whether the cursor runs one record
ahead of the candidate (`YOUNGER` and `DATAYOUNGER`); `Mode.verdict` is the
body they share, `Mode.atEnd` what they do when `histscan` answers `NULL`.
-/

namespace KogmoRtdb

/-- `RTDBSEL_*`. -/
inductive Mode where
  | last | older | younger | datatime | dataolder | datayounger
  deriving DecidableEq, Repr

/-- A record the scan has loaded: its slot, `scan_ts` and `scan_data_ts`
(the latter stays 0 in the modes that do not load it). -/
structure Probe where
  slot : Int
  ts : Timestamp
  dataTs : Timestamp
  deriving DecidableEq, Repr

namespace Mode

/-- The modes that search by `data_ts`. -/
def usesDataTs : Mode → Bool
  | datatime | dataolder | datayounger => true
  | last | older | younger => false

/-- The modes whose cursor runs one record ahead of the candidate. -/
def keepsNewer : Mode → Bool
  | younger | datayounger => true
  | last | older | datatime | dataolder => false

/-- The stamp a mode compares with the searched time. -/
def key (mode : Mode) (p : Probe) : Timestamp :=
  if mode.usesDataTs then p.dataTs else p.ts

/-- The `while` condition on the loaded stamp. `LAST` with `ts == invalid_ts`
breaks before its loop. -/
def goesBack (mode : Mode) (ts key : Timestamp) : Bool :=
  match mode with
  | last => ts ≠ invalidTs && ts.toInt < key.toInt
  | older | dataolder => ts.toInt ≤ key.toInt
  | younger | datatime | datayounger => ts.toInt < key.toInt

end Mode

/-- What a loop does with the record it has just loaded. -/
inductive Verdict where
  | take (p : Probe)
  | notFound
  | back (kept : Option Probe)
  deriving DecidableEq, Repr

namespace Mode

/-- `histscan` has answered `NULL`: the candidate kept so far, if any. -/
def atEnd (kept : Option Probe) : Verdict :=
  match kept with
  | some k => .take k
  | none => .notFound

/-- One pass of a mode's loop over the loaded record `p`. -/
def verdict (mode : Mode) (ts : Timestamp) (kept : Option Probe) (p : Probe) : Verdict :=
  if mode.goesBack ts (mode.key p) then
    .back (if mode.keepsNewer then some p else none)
  else if mode.keepsNewer then atEnd kept
  else .take p

/-- A loop takes the loaded record or the one it kept. -/
theorem verdict_take {mode : Mode} {ts : Timestamp} {kept : Option Probe} {p q : Probe}
    (h : mode.verdict ts kept p = .take q) : q = p ∨ kept = some q := by
  unfold verdict at h
  split at h
  · cases h
  · split at h
    · cases kept with
      | none => cases h
      | some k => cases h; exact Or.inr rfl
    · cases h; exact Or.inl rfl

/-- A loop that steps back keeps the loaded record or none. -/
theorem verdict_back {mode : Mode} {ts : Timestamp} {kept kept' : Option Probe} {p : Probe}
    (h : mode.verdict ts kept p = .back kept') : ∀ q, kept' = some q → q = p := by
  unfold verdict at h
  intro q hq
  split at h
  · cases h
    split at hq <;> cases hq
    rfl
  · split at h
    · cases kept <;> cases h
    · cases h

end Mode

/-! ## Searching a list

The same loops over the records of a history, newest first. What they select
depends on nothing but the list, and on a list with decreasing stamps it is the
newest record before a time, or the oldest one after it. -/

/-- `histscan` has answered `NULL`. -/
def atEndResult (kept : Option Probe) : Except Err Probe :=
  match kept with
  | some k => .ok k
  | none => .error .notFound

def searchList (mode : Mode) (ts : Timestamp) :
    Option Probe → List Probe → Except Err Probe
  | kept, [] => atEndResult kept
  | kept, p :: ps =>
      match mode.verdict ts kept p with
      | .take q => .ok q
      | .notFound => .error .notFound
      | .back kept' => searchList mode ts kept' ps

def Decreasing (mode : Mode) (l : List Probe) : Prop :=
  l.Pairwise fun p q => (mode.key q).toInt < (mode.key p).toInt

/-- The search fails on a record like the one the loops step over only if it fails
on every older one. -/
theorem goesBack_mono {mode : Mode} {ts k k' : Timestamp} (h : mode.goesBack ts k' = true)
    (hk : k'.toInt ≤ k.toInt) : mode.goesBack ts k = true := by
  cases mode <;>
    simp only [Mode.goesBack, Bool.and_eq_true, decide_eq_true_eq] at h ⊢ <;>
    first | omega | exact ⟨h.1, by omega⟩

/-- The modes without a running-ahead cursor select the newest record that ends
their loop. -/
theorem searchList_newest {mode : Mode} (ts : Timestamp) (hm : mode.keepsNewer = false) :
    ∀ {l : List Probe}, Decreasing mode l →
      match searchList mode ts none l with
      | .ok p => p ∈ l ∧ mode.goesBack ts (mode.key p) = false ∧
          ∀ q ∈ l, mode.goesBack ts (mode.key q) = false →
            (mode.key q).toInt ≤ (mode.key p).toInt
      | .error e => e = .notFound ∧ ∀ q ∈ l, mode.goesBack ts (mode.key q) = true
  | [], _ => ⟨rfl, fun _ hq => by cases hq⟩
  | p :: ps, hd => by
      obtain ⟨hp, hps⟩ := List.pairwise_cons.mp hd
      have ih := searchList_newest ts hm hps
      cases hg : mode.goesBack ts (mode.key p) with
      | false =>
          have hv : mode.verdict ts none p = .take p := by simp [Mode.verdict, hg, hm]
          simp only [searchList, hv]
          refine ⟨List.mem_cons_self, hg, fun q hq _ => ?_⟩
          rcases List.mem_cons.mp hq with rfl | hq
          · exact Int.le_refl _
          · exact Int.le_of_lt (hp q hq)
      | true =>
          have hv : mode.verdict ts none p = .back none := by simp [Mode.verdict, hg, hm]
          simp only [searchList, hv]
          split <;> rename_i heq <;> rw [heq] at ih
          · obtain ⟨hmem, hgr, hmax⟩ := ih
            refine ⟨List.mem_cons_of_mem _ hmem, hgr, fun q hq hgq => ?_⟩
            rcases List.mem_cons.mp hq with rfl | hq
            · rw [hg] at hgq
              cases hgq
            · exact hmax q hq hgq
          · refine ⟨ih.1, fun q hq => ?_⟩
            rcases List.mem_cons.mp hq with rfl | hq
            · exact hg
            · exact ih.2 q hq

/-- The modes whose cursor runs ahead select the oldest record they step over, or
the candidate they came with. -/
theorem searchList_oldest {mode : Mode} (ts : Timestamp) (hm : mode.keepsNewer = true) :
    ∀ {l : List Probe} (kept : Option Probe), Decreasing mode l →
      match searchList mode ts kept l with
      | .ok p => (p ∈ l ∧ mode.goesBack ts (mode.key p) = true ∧
            ∀ q ∈ l, mode.goesBack ts (mode.key q) = true →
              (mode.key p).toInt ≤ (mode.key q).toInt) ∨
          (kept = some p ∧ ∀ q ∈ l, mode.goesBack ts (mode.key q) = false)
      | .error e => e = .notFound ∧ kept = none ∧
          ∀ q ∈ l, mode.goesBack ts (mode.key q) = false
  | [], none, _ => ⟨rfl, rfl, fun _ hq => by cases hq⟩
  | [], some _, _ => Or.inr ⟨rfl, fun _ hq => by cases hq⟩
  | p :: ps, kept, hd => by
      obtain ⟨hp, hps⟩ := List.pairwise_cons.mp hd
      cases hg : mode.goesBack ts (mode.key p) with
      | false =>
          have hnone : ∀ q ∈ p :: ps, mode.goesBack ts (mode.key q) = false := by
            intro q hq
            rcases List.mem_cons.mp hq with rfl | hq
            · exact hg
            · cases hgq : mode.goesBack ts (mode.key q) with
              | false => rfl
              | true =>
                  rw [goesBack_mono hgq (Int.le_of_lt (hp q hq))] at hg
                  cases hg
          have hv : mode.verdict ts kept p = Mode.atEnd kept := by
            simp [Mode.verdict, hg, hm]
          cases kept with
          | none =>
              simp only [searchList, hv, Mode.atEnd]
              exact ⟨trivial, trivial, hnone⟩
          | some k =>
              simp only [searchList, hv, Mode.atEnd]
              exact Or.inr ⟨trivial, hnone⟩
      | true =>
          have ih := searchList_oldest ts hm (some p) hps
          have hv : mode.verdict ts kept p = .back (some p) := by simp [Mode.verdict, hg, hm]
          simp only [searchList, hv]
          split <;> rename_i heq <;> rw [heq] at ih
          · refine Or.inl ?_
            rcases ih with ⟨hmem, hgr, hmin⟩ | ⟨hr, hnone⟩
            · refine ⟨List.mem_cons_of_mem _ hmem, hgr, fun q hq hgq => ?_⟩
              rcases List.mem_cons.mp hq with rfl | hq
              · exact Int.le_of_lt (hp _ hmem)
              · exact hmin q hq hgq
            · cases hr
              refine ⟨List.mem_cons_self, hg, fun q hq hgq => ?_⟩
              rcases List.mem_cons.mp hq with rfl | hq
              · exact Int.le_refl _
              · rw [hnone q hq] at hgq
                cases hgq
          · cases ih.2.1

/-! ## Ring positions -/

def nextSlot (historySize historySlot : Int) : Int :=
  if historySlot < 0 then 0 else (historySlot + 1).tmod historySize

/-- `histscan`'s cursor arithmetic. The source's test for slot -1 compares the
cursor's address instead of the cursor, so it never fires and slot -1 becomes
the last slot of the ring. -/
def histPos (historySize slot : Int) : Int := (slot + historySize).tmod historySize

end KogmoRtdb
