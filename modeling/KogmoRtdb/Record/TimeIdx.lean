import KogmoRtdb.Record.Recorder

/-!
# The time index

The player notes, about once per interval, which position of the file belongs to which time, and
jumps to such a position on a goto. From there it skips chunk by chunk until the time is reached.

Two obligations: the table has, at each number of an interval, the first noted chunk that is not
before this interval (`Tabulates`), and a jump is right as long as the noted chunk it lands behind
is before the target.

Times, positions and numbers of entries are exact integers. The table grows as needed.
-/

namespace KogmoRtdb

/-! ## The index -/

/-- `timeidx_entry_t`. -/
structure TimeidxEntry where
  ts : Int
  off : Int
  deriving DecidableEq

/-- `timeidx_info_t`. -/
structure TimeIdx where
  interval : Int
  firstTs : Int
  lastTs : Int
  lastEntry : Int
  entry : Int → TimeidxEntry

/-- `timeidx_init` without an index file. -/
def timeidxInit (interval : Int) : TimeIdx where
  interval := interval
  firstTs := 0
  lastTs := 0
  lastEntry := -1
  entry := fun _ => ⟨0, 0⟩

def timeidxNextNeeded (s : TimeIdx) : Int := s.lastTs + s.interval

/-- `idx` of a time: the cast to `int` cuts towards zero. -/
def TimeIdx.idx (s : TimeIdx) (ts : Int) : Int := (ts - s.firstTs).tdiv s.interval

def timeidxAdd (s : TimeIdx) (ts off : Int) : TimeIdx :=
  if ts ≤ 0 ∨ off ≤ 0 then s
  -- too early for another entry
  else if ts - s.lastTs < s.interval ∧ s.firstTs ≠ 0 then s
  else if s.firstTs = 0 then
    { s with
      firstTs := ts
      lastTs := ts
      lastEntry := 0
      entry := Function.update s.entry 0 ⟨ts, off⟩ }
  else if s.idx ts < 0 then s
  else
    { s with
      lastTs := ts
      lastEntry := s.idx ts
      -- a gap gets the same position in all of its entries
      entry := fun i => if s.lastEntry < i ∧ i ≤ s.idx ts then ⟨ts, off⟩ else s.entry i }

def timeidxLookup (s : TimeIdx) (ts : Int) : Int :=
  if s.lastTs < ts then -1
  else if s.idx ts < 0 then -1
  else (s.entry (if s.lastEntry < s.idx ts then s.lastEntry else s.idx ts)).off

/-! ## The player's pass over the file -/

/-- What positions and times depend on in a chunk: the length it states and, of an RTDB chunk,
its stamp and type. -/
structure SeekChunk where
  cb : Nat
  rtdb : Option (Int × StreamType)
  deriving DecidableEq

namespace SeekChunk

def length (c : SeekChunk) : Int := 8 + c.cb + c.cb % 2

/-- The time of a chunk that counts for the index: `KOGMO_RTDB_STREAM_TYPE_ERROR` does not. -/
def indexTs (c : SeekChunk) : Option Int :=
  c.rtdb.bind fun (ts, type) => if type = .error then none else some ts

/-- The chunk ends a search forward for `t`. -/
def Reaches (t : Int) (c : SeekChunk) : Prop := ∃ ts type, c.rtdb = some (ts, type) ∧ t ≤ ts

instance decidableReaches (t : Int) (c : SeekChunk) : Decidable (c.Reaches t) :=
  match h : c.rtdb with
  | none => isFalse fun ⟨_, _, hc, _⟩ => by rw [h] at hc; cases hc
  | some (ts, type) =>
      if hle : t ≤ ts then isTrue ⟨ts, type, h, hle⟩
      else isFalse fun ⟨_, _, hc, hle'⟩ => by rw [h] at hc; cases hc; exact hle hle'

end SeekChunk

/-- `init_phase`: 1, 2 and 0. -/
inductive InitPhase where
  | first
  | same
  | over
  deriving DecidableEq

/-- What the pass keeps for the index. `pos` is `ftello(fp)`. -/
structure IndexPass where
  initPhase : InitPhase
  initialTs : Int
  pos : Int
  idx : TimeIdx

/-- The initial phase ends when the stamps begin to increase. -/
def IndexPass.endInit (s : IndexPass) (ts : Int) : IndexPass :=
  if s.initPhase = .over then s
  else
    let initialTs := if s.initPhase = .first then ts else s.initialTs
    if ts ≠ initialTs then
      { s with initPhase := .over, initialTs := initialTs, idx := timeidxAdd s.idx ts 0 }
    else { s with initPhase := .same, initialTs := initialTs }

def indexChunk (s : IndexPass) (c : SeekChunk) : IndexPass :=
  let s := { s with pos := s.pos + c.length }
  match c.indexTs with
  | none => s
  | some ts =>
      let s := s.endInit ts
      if s.initPhase = .over ∧ timeidxNextNeeded s.idx ≤ ts then
        { s with idx := timeidxAdd s.idx ts s.pos }
      else s

def indexFile (interval : Int) (file : List SeekChunk) : IndexPass :=
  file.foldl indexChunk ⟨.first, 0, 0, timeidxInit interval⟩

def SeekChunk.Initial (file : List SeekChunk) (c : SeekChunk) : Prop :=
  ∀ ts, c.indexTs = some ts → (file.filterMap indexTs).head? = some ts

instance decidableInitial (file : List SeekChunk) (c : SeekChunk) : Decidable (c.Initial file) :=
  match h : c.indexTs with
  | none => isTrue fun _ hc => by rw [h] at hc; cases hc
  | some ts =>
      if hts : (file.filterMap SeekChunk.indexTs).head? = some ts then
        isTrue fun _ hc => by rw [h] at hc; cases hc; exact hts
      else isFalse fun hi => hts (hi ts h)

def initialPart (file : List SeekChunk) : List SeekChunk :=
  file.takeWhile fun c => c.Initial file

def postInitial (file : List SeekChunk) : List SeekChunk :=
  file.dropWhile fun c => c.Initial file

def lengthOf : List SeekChunk → Int
  | [] => 0
  | c :: cs => c.length + lengthOf cs

/-! ## Searching forward -/

def located (pos : Int) : List SeekChunk → List (Int × SeekChunk)
  | [] => []
  | c :: cs => (pos, c) :: located (pos + c.length) cs

/-- The chunk at which a search for `t` ends when it begins at `pos`. -/
def scanFrom (file : List SeekChunk) (pos t : Int) : Option (Int × SeekChunk) :=
  ((located 0 file).dropWhile fun x => x.1 < pos).find? fun x => x.2.Reaches t

/-- What is noted of chunks from `pos` on when `last` has been noted before them: each at least an
interval later than the one before, with the position behind it. -/
def marks (interval last pos : Int) : List SeekChunk → List TimeidxEntry
  | [] => []
  | c :: cs =>
      match c.indexTs with
      | none => marks interval last (pos + c.length) cs
      | some ts =>
          if last + interval ≤ ts then
            ⟨ts, pos + c.length⟩ :: marks interval ts (pos + c.length) cs
          else marks interval last (pos + c.length) cs

def marksOf (interval : Int) (file : List SeekChunk) : List TimeidxEntry :=
  marks interval 0 (lengthOf (initialPart file)) (postInitial file)

/-! ## The table has what is noted -/

/-- The table holds the entries `ms`: number `i` has the first of them in interval `i` or later. -/
structure Tabulates (s : TimeIdx) (ms : List TimeidxEntry) : Prop where
  interval_pos : 0 < s.interval
  firstTs_pos : 0 < s.firstTs
  head : ms.head?.map TimeidxEntry.ts = some s.firstTs
  first_le : s.firstTs ≤ s.lastTs
  le_last : ∀ m ∈ ms, m.ts ≤ s.lastTs
  lastEntry : s.lastEntry = (s.lastTs - s.firstTs) / s.interval
  entry : ∀ i, 0 ≤ i → i ≤ s.lastEntry →
    ms.find? (fun m => i ≤ (m.ts - s.firstTs) / s.interval) = some (s.entry i)

variable {s : TimeIdx} {ms : List TimeidxEntry} {m first : TimeidxEntry} {interval last pos t : Int}

theorem TimeIdx.idx_eq (hle : s.firstTs ≤ t) : s.idx t = (t - s.firstTs) / s.interval :=
  Int.tdiv_eq_ediv_of_nonneg (by omega)

theorem timeidxAdd_init (hts : 0 < m.ts) (hoff : 0 < m.off) :
    timeidxAdd (timeidxInit interval) m.ts m.off =
      ⟨interval, m.ts, m.ts, 0, Function.update (fun _ => ⟨0, 0⟩) 0 m⟩ := by
  have hzero : (timeidxInit interval).firstTs = 0 := rfl
  unfold timeidxAdd
  rw [if_neg (by omega), if_neg (fun h => h.2 hzero), if_pos hzero]
  rfl

theorem tabulates_first (hI : 0 < interval) (hts : 0 < m.ts) (hoff : 0 < m.off) :
    Tabulates (timeidxAdd (timeidxInit interval) m.ts m.off) [m] := by
  rw [timeidxAdd_init hts hoff]
  refine ⟨hI, hts, rfl, Int.le_refl _, ?_, ?_, ?_⟩
  · intro m' hm'
    exact Int.le_of_eq (congrArg TimeidxEntry.ts (List.mem_singleton.mp hm'))
  · simp
  · intro i h0 hle
    have hi : i = 0 := Int.le_antisymm hle h0
    subst hi
    simp

theorem Tabulates.idx_nonneg (ht : Tabulates s ms) (hle : s.firstTs ≤ t) : 0 ≤ s.idx t := by
  have hI := ht.interval_pos
  rw [TimeIdx.idx_eq hle]
  exact Int.ediv_nonneg (by omega) (by omega)

theorem Tabulates.timeidxAdd_eq (ht : Tabulates s ms) (hlater : s.lastTs + s.interval ≤ m.ts)
    (hoff : 0 < m.off) :
    timeidxAdd s m.ts m.off =
      { s with
        lastTs := m.ts
        lastEntry := s.idx m.ts
        entry := fun i => if s.lastEntry < i ∧ i ≤ s.idx m.ts then m else s.entry i } := by
  have hI := ht.interval_pos
  have hfirst := ht.firstTs_pos
  have hfl := ht.first_le
  have hidx := ht.idx_nonneg (t := m.ts) (by omega)
  unfold timeidxAdd
  rw [if_neg (by omega), if_neg (by omega), if_neg (by omega), if_neg (by omega)]

/-- A later entry fills its own number and those of the gap before it. -/
theorem Tabulates.add (ht : Tabulates s ms) (hlater : s.lastTs + s.interval ≤ m.ts)
    (hoff : 0 < m.off) : Tabulates (timeidxAdd s m.ts m.off) (ms ++ [m]) := by
  rw [ht.timeidxAdd_eq hlater hoff]
  obtain ⟨hI, hfirst, hhead, hfl, hlast, hentry, hfind⟩ := ht
  have hidx : s.idx m.ts = (m.ts - s.firstTs) / s.interval := TimeIdx.idx_eq (by omega)
  refine ⟨hI, hfirst, ?_, by dsimp only; omega, ?_, hidx, ?_⟩
  · rw [List.head?_append]
    cases hms : ms.head? with
    | none => rw [hms] at hhead; cases hhead
    | some a => rwa [hms] at hhead
  · intro m' hm'
    rcases List.mem_append.mp hm' with hold | hnew
    · have := hlast m' hold
      dsimp only
      omega
    · exact Int.le_of_eq (congrArg TimeidxEntry.ts (List.mem_singleton.mp hnew))
  · intro i h0 hle
    dsimp only at hle ⊢
    rw [List.find?_append]
    by_cases hold : i ≤ s.lastEntry
    · rw [hfind i h0 hold, if_neg (by omega), Option.some_or]
    · -- all the older entries are in earlier intervals
      have hnone : ms.find? (fun m => i ≤ (m.ts - s.firstTs) / s.interval) = none := by
        refine List.find?_eq_none.mpr fun m' hm' hge => ?_
        have hmono : (m'.ts - s.firstTs) / s.interval ≤ (s.lastTs - s.firstTs) / s.interval :=
          Int.ediv_le_ediv hI (by have := hlast m' hm'; omega)
        have := of_decide_eq_true hge
        omega
      rw [hnone, Option.none_or, if_pos (by omega)]
      exact List.find?_cons_of_pos (by rw [← hidx]; exact decide_eq_true hle)

/-! ## The noted chunks -/

theorem SeekChunk.length_pos (c : SeekChunk) : 0 < c.length := by
  unfold length
  omega

/-- A chunk is needed for the index, or its time is before `next`, if it has one. -/
theorem SeekChunk.needed_or_skipped (c : SeekChunk) (next : Int) :
    (∃ ts, c.indexTs = some ts ∧ next ≤ ts) ∨ ∀ ts, c.indexTs = some ts → ts < next := by
  by_cases hneeded : ∃ ts, c.indexTs = some ts ∧ next ≤ ts
  · exact Or.inl hneeded
  · exact Or.inr fun ts hts => Int.not_le.mp fun hle => hneeded ⟨ts, hts, hle⟩

theorem marks_noted {c : SeekChunk} {cs : List SeekChunk} {ts : Int} (hts : c.indexTs = some ts)
    (hneeded : last + interval ≤ ts) :
    marks interval last pos (c :: cs) =
      ⟨ts, pos + c.length⟩ :: marks interval ts (pos + c.length) cs := by
  simp [marks, hts, hneeded]

theorem marks_skipped {c : SeekChunk} {cs : List SeekChunk}
    (hskip : ∀ ts, c.indexTs = some ts → ts < last + interval) :
    marks interval last pos (c :: cs) = marks interval last (pos + c.length) cs := by
  rw [marks]
  cases hts : c.indexTs with
  | none => rfl
  | some ts => exact if_neg (Int.not_le.mpr (hskip ts hts))

/-- What is noted is at least an interval after what has been noted before. -/
theorem le_of_mem_marks {cs : List SeekChunk} (hI : 0 ≤ interval)
    (hm : m ∈ marks interval last pos cs) : last + interval ≤ m.ts := by
  induction cs generalizing last pos with
  | nil => cases hm
  | cons c cs ih =>
      rcases c.needed_or_skipped (last + interval) with ⟨ts, hts, hneeded⟩ | hskip
      · rw [marks_noted hts hneeded] at hm
        rcases List.mem_cons.mp hm with rfl | hm
        · exact hneeded
        · have := ih hm
          omega
      · rw [marks_skipped hskip] at hm
        exact ih hm

theorem pairwise_marks (cs : List SeekChunk) (hI : 0 ≤ interval) :
    (marks interval last pos cs).Pairwise fun a b => a.ts ≤ b.ts := by
  induction cs generalizing last pos with
  | nil => exact List.Pairwise.nil
  | cons c cs ih =>
      rcases c.needed_or_skipped (last + interval) with ⟨ts, hts, hneeded⟩ | hskip
      · rw [marks_noted hts hneeded]
        refine List.Pairwise.cons (fun b hb => ?_) ih
        have := le_of_mem_marks hI hb
        dsimp only
        omega
      · rw [marks_skipped hskip]
        exact ih

theorem lengthOf_append (as bs : List SeekChunk) :
    lengthOf (as ++ bs) = lengthOf as + lengthOf bs := by
  induction as with
  | nil => simp [lengthOf]
  | cons a as ih => simp [lengthOf, ih, Int.add_assoc]

theorem lengthOf_nonneg (cs : List SeekChunk) : 0 ≤ lengthOf cs := by
  induction cs with
  | nil => exact Int.le_refl 0
  | cons c cs ih =>
      have := c.length_pos
      rw [lengthOf]
      omega

/-- A noted position is the one behind a chunk with the noted stamp. -/
theorem exists_of_mem_marks {cs : List SeekChunk} (hm : m ∈ marks interval last pos cs) :
    ∃ before c after, cs = before ++ c :: after ∧ c.indexTs = some m.ts ∧
      m.off = pos + lengthOf (before ++ [c]) := by
  induction cs generalizing last pos with
  | nil => cases hm
  | cons c cs ih =>
      have hlater (l : Int) (h : m ∈ marks interval l (pos + c.length) cs) :
          ∃ before d after, c :: cs = before ++ d :: after ∧ d.indexTs = some m.ts ∧
            m.off = pos + lengthOf (before ++ [d]) := by
        obtain ⟨before, d, after, rfl, hd, hoff⟩ := ih h
        exact ⟨c :: before, d, after, rfl, hd, by rw [List.cons_append, lengthOf]; omega⟩
      rcases c.needed_or_skipped (last + interval) with ⟨ts, hts, hneeded⟩ | hskip
      · rw [marks_noted hts hneeded] at hm
        rcases List.mem_cons.mp hm with rfl | hm
        · exact ⟨[], c, cs, rfl, hts, by simp [lengthOf]⟩
        · exact hlater ts hm
      · rw [marks_skipped hskip] at hm
        exact hlater last hm

/-! ## A pass of the player -/

variable {p : IndexPass} {c : SeekChunk} {cs : List SeekChunk}

/-- `timeidx_add` at the end of the initial phase has no position and adds nothing. -/
theorem timeidxAdd_zero (s : TimeIdx) (ts : Int) : timeidxAdd s ts 0 = s :=
  if_pos (Or.inr (Int.le_refl 0))

@[simp]
theorem timeidxAdd_interval (s : TimeIdx) (ts off : Int) :
    (timeidxAdd s ts off).interval = s.interval := by
  unfold timeidxAdd
  repeat' split
  all_goals rfl

@[simp]
theorem endInit_interval (p : IndexPass) (ts : Int) :
    (p.endInit ts).idx.interval = p.idx.interval := by
  unfold IndexPass.endInit
  simp only [timeidxAdd_zero]
  repeat' split
  all_goals rfl

theorem foldl_interval (p : IndexPass) (cs : List SeekChunk) :
    (cs.foldl indexChunk p).idx.interval = p.idx.interval := by
  induction cs generalizing p with
  | nil => rfl
  | cons c cs ih =>
      rw [List.foldl_cons, ih]
      unfold indexChunk
      cases c.indexTs with
      | none => rfl
      | some ts =>
          dsimp only
          split <;> simp

/-- A chunk after the initial phase whose time is needed. -/
theorem indexChunk_noted {ts : Int} (hover : p.initPhase = .over) (hts : c.indexTs = some ts)
    (hneeded : p.idx.lastTs + p.idx.interval ≤ ts) :
    indexChunk p c =
      { p with pos := p.pos + c.length, idx := timeidxAdd p.idx ts (p.pos + c.length) } := by
  unfold indexChunk
  rw [hts]
  dsimp only
  rw [IndexPass.endInit, if_pos hover]
  exact if_pos ⟨hover, hneeded⟩

theorem indexChunk_skipped (hover : p.initPhase = .over)
    (hskip : ∀ ts, c.indexTs = some ts → ts < p.idx.lastTs + p.idx.interval) :
    indexChunk p c = { p with pos := p.pos + c.length } := by
  unfold indexChunk
  cases hts : c.indexTs with
  | none => rfl
  | some ts =>
      dsimp only
      rw [IndexPass.endInit, if_pos hover]
      exact if_neg fun h => Int.not_le.mpr (hskip ts hts) h.2

/-- A chunk that ends the initial phase counts as one after it. -/
theorem indexChunk_ends {ts : Int} (hts : c.indexTs = some ts) (hsame : p.initPhase = .same)
    (hne : ts ≠ p.initialTs) : indexChunk p c = indexChunk { p with initPhase := .over } c := by
  have hend (pos : Int) : IndexPass.endInit { p with pos := pos } ts =
      { p with pos := pos, initPhase := .over } := by
    unfold IndexPass.endInit
    dsimp only
    rw [hsame, if_neg (by decide), if_neg (by decide : ¬ InitPhase.same = .first), if_pos hne,
      timeidxAdd_zero]
  unfold indexChunk
  rw [hts]
  dsimp only
  rw [hend]
  rfl

/-- After the initial phase the pass adds to the table what is to be noted. -/
theorem Tabulates.foldl (hover : p.initPhase = .over) (hpos : 0 ≤ p.pos)
    (ht : Tabulates p.idx ms) :
    Tabulates (cs.foldl indexChunk p).idx
      (ms ++ marks p.idx.interval p.idx.lastTs p.pos cs) := by
  induction cs generalizing p ms with
  | nil => simpa [marks] using ht
  | cons c cs ih =>
      have hlen := c.length_pos
      have hpos' : 0 ≤ p.pos + c.length := by omega
      rw [List.foldl_cons]
      rcases c.needed_or_skipped (p.idx.lastTs + p.idx.interval) with ⟨ts, hts, hneeded⟩ | hskip
      · have hoff : 0 < p.pos + c.length := by omega
        have hadd := ht.add (m := ⟨ts, p.pos + c.length⟩) hneeded hoff
        have heq := ht.timeidxAdd_eq (m := ⟨ts, p.pos + c.length⟩) hneeded hoff
        rw [indexChunk_noted hover hts hneeded, marks_noted hts hneeded, List.append_cons]
        have hrun := ih (p := { p with
          pos := p.pos + c.length, idx := timeidxAdd p.idx ts (p.pos + c.length) }) hover hpos' hadd
        dsimp only at heq hrun
        rw [heq] at hrun ⊢
        exact hrun
      · rw [indexChunk_skipped hover hskip, marks_skipped hskip]
        exact ih hover hpos' ht

theorem tabulates_run (hI : 0 < interval) (hover : p.initPhase = .over) (hpos : 0 ≤ p.pos)
    (hinit : p.idx = timeidxInit interval) (hne : marks interval 0 p.pos cs ≠ []) :
    Tabulates (cs.foldl indexChunk p).idx (marks interval 0 p.pos cs) := by
  induction cs generalizing p with
  | nil => exact absurd rfl hne
  | cons c cs ih =>
      have hlen := c.length_pos
      have hpos' : 0 ≤ p.pos + c.length := by omega
      have hnext : p.idx.lastTs + p.idx.interval = 0 + interval := by rw [hinit]; rfl
      rw [List.foldl_cons]
      rcases c.needed_or_skipped (0 + interval) with ⟨ts, hts, hneeded⟩ | hskip
      · have hoff : 0 < p.pos + c.length := by omega
        have hts0 : 0 < ts := by omega
        have hfirst := tabulates_first (m := ⟨ts, p.pos + c.length⟩) hI hts0 hoff
        have heq : timeidxAdd (timeidxInit interval) ts (p.pos + c.length) = _ :=
          timeidxAdd_init (m := ⟨ts, p.pos + c.length⟩) hts0 hoff
        rw [indexChunk_noted hover hts (hnext ▸ hneeded), marks_noted hts hneeded, hinit]
        dsimp only at heq hfirst
        rw [heq] at hfirst ⊢
        exact hfirst.foldl (p := { p with pos := p.pos + c.length, idx := _ }) hover hpos'
      · rw [marks_skipped hskip] at hne ⊢
        rw [indexChunk_skipped hover (hnext ▸ hskip)]
        exact ih hover hpos' hinit hne

/-! ## The initial phase -/

/-- The pass is in the initial phase, having read `seen`. -/
structure InitState (interval : Int) (initial : Option Int) (p : IndexPass)
    (seen : List SeekChunk) : Prop where
  idx : p.idx = timeidxInit interval
  pos : p.pos = lengthOf seen
  phase : (p.initPhase = .first ∧ seen.filterMap SeekChunk.indexTs = []) ∨
    (p.initPhase = .same ∧ initial = some p.initialTs)

theorem InitState.chunk {initial : Option Int} {seen : List SeekChunk}
    (hs : InitState interval initial p seen) (hc : ∀ ts, c.indexTs = some ts → initial = some ts) :
    InitState interval initial (indexChunk p c) (seen ++ [c]) := by
  have hpos : p.pos + c.length = lengthOf (seen ++ [c]) := by
    rw [hs.pos, lengthOf_append]
    simp [lengthOf]
  unfold indexChunk
  cases hts : c.indexTs with
  | none =>
      refine ⟨hs.idx, hpos, ?_⟩
      rcases hs.phase with ⟨hfirst, hseen⟩ | hsame
      · exact Or.inl ⟨hfirst, by simp [hseen, hts]⟩
      · exact Or.inr hsame
  | some ts =>
      have hinitial := hc ts hts
      have hend (pos : Int) : IndexPass.endInit { p with pos := pos } ts =
          { p with pos := pos, initPhase := .same, initialTs := ts } := by
        unfold IndexPass.endInit
        rcases hs.phase with ⟨hfirst, -⟩ | ⟨hsame, heq⟩
        · dsimp only
          rw [hfirst, if_neg (by decide), if_pos rfl, if_neg (fun h => h rfl)]
        · dsimp only
          have hts : p.initialTs = ts := Option.some.inj (heq.symm.trans hinitial)
          rw [hsame, if_neg (by decide), if_neg (by decide : ¬ InitPhase.same = .first), hts,
            if_neg (fun h => h rfl)]
      dsimp only
      rw [hend, if_neg (fun h => by cases h.1)]
      exact ⟨hs.idx, hpos, Or.inr ⟨rfl, hinitial⟩⟩

theorem InitState.foldl {initial : Option Int} {seen : List SeekChunk}
    (hs : InitState interval initial p seen)
    (hcs : ∀ c ∈ cs, ∀ ts, c.indexTs = some ts → initial = some ts) :
    InitState interval initial (cs.foldl indexChunk p) (seen ++ cs) := by
  induction cs generalizing p seen with
  | nil => simpa using hs
  | cons c cs ih =>
      rw [List.foldl_cons, List.append_cons]
      exact ih (hs.chunk (hcs c List.mem_cons_self)) fun d hd => hcs d (List.mem_cons_of_mem _ hd)

theorem tabulates_indexFile {file : List SeekChunk} (hI : 0 < interval)
    (hne : marksOf interval file ≠ []) :
    Tabulates (indexFile interval file).idx (marksOf interval file) := by
  have hsplit : initialPart file ++ postInitial file = file := List.takeWhile_append_dropWhile
  have hwithin : ∀ c ∈ initialPart file, c.Initial file := fun c hc =>
    of_decide_eq_true (List.mem_takeWhile_imp (p := fun c => SeekChunk.Initial file c) hc)
  have hinit : InitState interval (file.filterMap SeekChunk.indexTs).head?
      ((initialPart file).foldl indexChunk ⟨.first, 0, 0, timeidxInit interval⟩)
      ([] ++ initialPart file) :=
    InitState.foldl ⟨rfl, rfl, Or.inl ⟨rfl, rfl⟩⟩ hwithin
  rw [List.nil_append] at hinit
  have hrun : indexFile interval file = (postInitial file).foldl indexChunk
      ((initialPart file).foldl indexChunk ⟨.first, 0, 0, timeidxInit interval⟩) := by
    rw [← List.foldl_append, hsplit]
    rfl
  rw [hrun]
  generalize (initialPart file).foldl indexChunk ⟨.first, 0, 0, timeidxInit interval⟩ = p
    at hinit ⊢
  unfold marksOf at hne ⊢
  rw [← hinit.pos] at hne ⊢
  have hpos : 0 ≤ p.pos := hinit.pos ▸ lengthOf_nonneg _
  cases hpost : postInitial file with
  | nil => rw [hpost] at hne; exact absurd rfl hne
  | cons c cs =>
      rw [hpost] at hne
      -- the chunk that ends the initial phase
      obtain ⟨ts, hts, hother⟩ : ∃ ts, c.indexTs = some ts ∧
          (file.filterMap SeekChunk.indexTs).head? ≠ some ts := by
        have hhead := List.head?_dropWhile_not (fun c => decide (SeekChunk.Initial file c)) file
        rw [show file.dropWhile _ = c :: cs from hpost] at hhead
        have hc : ¬ c.Initial file := of_decide_eq_false hhead
        unfold SeekChunk.Initial at hc
        push Not at hc
        exact hc
      rcases hinit.phase with ⟨-, hseen⟩ | ⟨hsame, hinitial⟩
      · rw [← hsplit, hpost, List.filterMap_append, hseen, List.nil_append,
          List.filterMap_cons_some hts] at hother
        exact absurd rfl hother
      · have hne' : ts ≠ p.initialTs := fun h => hother (h ▸ hinitial)
        rw [List.foldl_cons, indexChunk_ends hts hsame hne', ← List.foldl_cons]
        exact tabulates_run (p := { p with initPhase := .over }) hI rfl hpos hinit.idx hne

/-! ## Jumping -/

theorem located_append (pos : Int) (as bs : List SeekChunk) :
    located pos (as ++ bs) = located pos as ++ located (pos + lengthOf as) bs := by
  induction as generalizing pos with
  | nil => simp [located, lengthOf]
  | cons a as ih => simp [located, ih, lengthOf, Int.add_assoc]

theorem le_of_mem_located {x : Int × SeekChunk} {cs : List SeekChunk} (hx : x ∈ located pos cs) :
    pos ≤ x.1 ∧ x.1 < pos + lengthOf cs := by
  induction cs generalizing pos with
  | nil => cases hx
  | cons c cs ih =>
      have hlen := c.length_pos
      have hnonneg := lengthOf_nonneg cs
      rw [lengthOf]
      rcases List.mem_cons.mp hx with rfl | hx
      · dsimp only
        omega
      · have := ih hx
        omega

theorem mem_of_mem_located {x : Int × SeekChunk} {cs : List SeekChunk} (hx : x ∈ located pos cs) :
    x.2 ∈ cs := by
  induction cs generalizing pos with
  | nil => cases hx
  | cons c cs ih =>
      rcases List.mem_cons.mp hx with rfl | hx
      · exact List.mem_cons_self
      · exact List.mem_cons_of_mem _ (ih hx)

/-- A search that begins behind a chunk sees the chunks after it. -/
theorem scanFrom_append {file as bs : List SeekChunk} (hsplit : as ++ bs = file) (t : Int) :
    scanFrom file (lengthOf as) t =
      (located (lengthOf as) bs).find? fun x => x.2.Reaches t := by
  subst hsplit
  have hbefore : ∀ x ∈ located 0 as, decide (x.1 < lengthOf as) = true := fun x hx =>
    decide_eq_true (by have := le_of_mem_located hx; omega)
  have hafter : (located (lengthOf as) bs).dropWhile (fun x => x.1 < lengthOf as) =
      located (lengthOf as) bs := by
    cases bs with
    | nil => rfl
    | cons b bs => exact List.dropWhile_cons_of_neg (by simp)
  rw [scanFrom, located_append, Int.zero_add, List.dropWhile_append_of_pos hbefore, hafter]

/-- Chunks that do not reach the target may be left out. -/
theorem find_append_skipped {as bs : List SeekChunk} (has : ∀ a ∈ as, ¬ a.Reaches t) :
    (located pos (as ++ bs)).find? (fun x => x.2.Reaches t) =
      (located (pos + lengthOf as) bs).find? fun x => x.2.Reaches t := by
  have hnone : (located pos as).find? (fun x => x.2.Reaches t) = none :=
    List.find?_eq_none.mpr fun x hx hreach =>
      has x.2 (mem_of_mem_located hx) (of_decide_eq_true hreach)
  rw [located_append, List.find?_append, hnone, Option.none_or]

theorem find_append_reached {as bs : List SeekChunk} {a : SeekChunk} (ha : a ∈ as)
    (hreach : a.Reaches t) :
    (located pos (as ++ bs)).find? (fun x => x.2.Reaches t) ≠
      (located (pos + lengthOf as) bs).find? fun x => x.2.Reaches t := by
  rw [located_append, List.find?_append]
  cases hfound : (located pos as).find? (fun x => x.2.Reaches t) with
  | none =>
      obtain ⟨x, hx, rfl⟩ : ∃ x ∈ located pos as, x.2 = a := by
        clear hfound
        induction as generalizing pos with
        | nil => cases ha
        | cons b bs ih =>
            rcases List.mem_cons.mp ha with rfl | ha
            · exact ⟨_, List.mem_cons_self, rfl⟩
            · obtain ⟨x, hx, heq⟩ := ih ha
              exact ⟨x, List.mem_cons_of_mem _ hx, heq⟩
      exact absurd (decide_eq_true hreach) (List.find?_eq_none.mp hfound x hx)
  | some x =>
      -- the one is found before the position, the other behind it
      intro heq
      have hbefore := (le_of_mem_located (List.mem_of_find?_eq_some hfound)).2
      have hafter := (le_of_mem_located (List.mem_of_find?_eq_some heq.symm)).1
      omega

/-- The lookup answers the position of the first noted chunk in the interval of the target or
later. -/
theorem Tabulates.lookup (ht : Tabulates s ms) (hfirst : s.firstTs ≤ t) (hlast : t ≤ s.lastTs) :
    ∃ m, ms.find? (fun m => (t - s.firstTs) / s.interval ≤ (m.ts - s.firstTs) / s.interval) =
      some m ∧ timeidxLookup s t = m.off := by
  have hidx : s.idx t = (t - s.firstTs) / s.interval := TimeIdx.idx_eq hfirst
  have hidx0 := ht.idx_nonneg hfirst
  have hle : s.idx t ≤ s.lastEntry := by
    rw [hidx, ht.lastEntry]
    exact Int.ediv_le_ediv ht.interval_pos (by omega)
  refine ⟨s.entry (s.idx t), ?_, ?_⟩
  · rw [← hidx]
    exact ht.entry _ hidx0 hle
  · unfold timeidxLookup
    rw [if_neg (by omega), if_neg (by omega), if_neg (by omega)]

/-- The stamps of the RTDB chunks after the initial phase do not decrease. -/
def StampsSorted (file : List SeekChunk) : Prop :=
  ((postInitial file).filterMap fun c => c.rtdb.map Prod.fst).Pairwise (· ≤ ·)

instance decidableStampsSorted (file : List SeekChunk) : Decidable (StampsSorted file) :=
  inferInstanceAs (Decidable (List.Pairwise ..))

/-- A search for `t` that begins where the index says ends at the same chunk as one through the
whole part after the initial phase. -/
def SeeksRight (interval : Int) (file : List SeekChunk) (t : Int) : Prop :=
  scanFrom file (timeidxLookup (indexFile interval file).idx t) t =
    scanFrom file (lengthOf (initialPart file)) t

theorem exists_rtdb_of_indexTs {ts : Int} (hts : c.indexTs = some ts) :
    ∃ type, c.rtdb = some (ts, type) := by
  unfold SeekChunk.indexTs at hts
  obtain ⟨⟨ts', type⟩, hrtdb, hsome⟩ := Option.bind_eq_some_iff.mp hts
  dsimp only at hsome
  split at hsome
  · cases hsome
  · cases hsome
    exact ⟨type, hrtdb⟩

/-- Behind a noted chunk before the target the search is right, behind any other it is not. -/
theorem scanFrom_mark {file : List SeekChunk} (hsorted : StampsSorted file)
    (hm : m ∈ marksOf interval file) :
    scanFrom file m.off t = scanFrom file (lengthOf (initialPart file)) t ↔ m.ts < t := by
  obtain ⟨before, c, after, hpost, hts, hoff⟩ := exists_of_mem_marks hm
  obtain ⟨type, hrtdb⟩ := exists_rtdb_of_indexTs hts
  have hsplit : initialPart file ++ ((before ++ [c]) ++ after) = file := by
    rw [List.append_assoc, List.singleton_append, ← hpost]
    exact List.takeWhile_append_dropWhile
  have hstart := scanFrom_append hsplit t
  have hjump := scanFrom_append ((List.append_assoc ..).trans hsplit) t
  rw [lengthOf_append, ← hoff] at hjump
  rw [hstart, hjump]
  constructor
  · intro heq
    refine Int.not_le.mp fun hle => ?_
    rw [hoff] at heq
    exact find_append_reached (by simp) ⟨m.ts, type, hrtdb, hle⟩ heq.symm
  · intro hlt
    rw [hoff]
    refine (find_append_skipped ?_).symm
    rintro d hd ⟨ts, type', hd', hle⟩
    have hord : ts ≤ m.ts := by
      rcases List.mem_append.mp hd with hd | hd
      · unfold StampsSorted at hsorted
        rw [hpost, List.filterMap_append,
          List.filterMap_cons_some (by rw [hrtdb, Option.map_some])] at hsorted
        refine (List.pairwise_append.mp hsorted).2.2 ts ?_ m.ts List.mem_cons_self
        exact List.mem_filterMap.mpr ⟨d, hd, by rw [hd']; rfl⟩
      · rw [List.mem_singleton.mp hd, hrtdb] at hd'
        cases hd'
        exact Int.le_refl _
    omega

/-- A jump is right exactly if a noted chunk of the target's interval is before the target. The
index has the positions behind the chunks, so that a jump to any other noted chunk lands behind
the chunk that is looked for. -/
theorem seeksRight_iff {file : List SeekChunk} {rest : List TimeidxEntry} (hI : 0 < interval)
    (hsorted : StampsSorted file) (hmarks : marksOf interval file = first :: rest)
    (hfirst : first.ts ≤ t) (hlast : ∃ m ∈ first :: rest, t ≤ m.ts) :
    SeeksRight interval file t ↔
      ∃ m ∈ first :: rest,
        (m.ts - first.ts) / interval = (t - first.ts) / interval ∧ m.ts < t := by
  have ht : Tabulates (indexFile interval file).idx (first :: rest) := by
    rw [← hmarks]
    exact tabulates_indexFile hI (by rw [hmarks]; simp)
  have hinterval : (indexFile interval file).idx.interval = interval := foldl_interval ..
  have hts : (indexFile interval file).idx.firstTs = first.ts := (Option.some.inj ht.head).symm
  obtain ⟨last, hlast, hle⟩ := hlast
  obtain ⟨m, hfind, hlookup⟩ := ht.lookup (hts ▸ hfirst) (Int.le_trans hle (ht.le_last last hlast))
  rw [hinterval, hts] at hfind
  have hmem : m ∈ first :: rest := List.mem_of_find?_eq_some hfind
  have hge : (t - first.ts) / interval ≤ (m.ts - first.ts) / interval :=
    of_decide_eq_true (List.find?_eq_some_iff_append.mp hfind).1
  rw [SeeksRight, hlookup, scanFrom_mark hsorted (hmarks ▸ hmem)]
  constructor
  · intro hlt
    have hmono : (m.ts - first.ts) / interval ≤ (t - first.ts) / interval :=
      Int.ediv_le_ediv hI (by omega)
    exact ⟨m, hmem, Int.le_antisymm hmono hge, hlt⟩
  · rintro ⟨m', hm', heq, hlt⟩
    -- the lookup finds this one or one before it
    obtain ⟨-, as, bs, hsplit, has⟩ := List.find?_eq_some_iff_append.mp hfind
    have hord : (first :: rest).Pairwise fun a b => a.ts ≤ b.ts := by
      rw [← hmarks]
      exact pairwise_marks _ (Int.le_of_lt hI)
    rw [hsplit] at hm' hord
    rcases List.mem_append.mp hm' with hbefore | hafter
    · have hearlier := has m' hbefore
      simp only [heq, Int.le_refl, decide_true, Bool.not_true, Bool.false_eq_true] at hearlier
    · rcases List.mem_cons.mp hafter with rfl | hafter
      · exact hlt
      · have := (List.pairwise_cons.mp (List.pairwise_append.mp hord).2.1).1 m' hafter
        omega

/-- A recording with an object from the initial phase and three updates. -/
def threeUpdates : List SeekChunk :=
  [⟨128, some (1000, .rfrobj)⟩, ⟨40, some (2000, .updobj)⟩, ⟨41, some (2004, .updobj)⟩,
    ⟨40, some (2025, .updobj)⟩]

/-- The second update is found behind the first, which is noted and in the same interval. -/
theorem seeksRight_iff_second :
    SeeksRight 10 threeUpdates 2004 ↔
      ∃ m ∈ [TimeidxEntry.mk 2000 184, ⟨2025, 282⟩],
        (m.ts - 2000) / 10 = ((2004 : Int) - 2000) / 10 ∧ m.ts < 2004 :=
  seeksRight_iff (by decide) (by decide) (by decide) (by decide) (by decide)

/-- A goto to a noted time, here that of the first update, finds the chunk after it. -/
theorem not_seeksRight :
    StampsSorted threeUpdates ∧ marksOf 10 threeUpdates = [⟨2000, 184⟩, ⟨2025, 282⟩] ∧
      ¬ SeeksRight 10 threeUpdates 2000 := by
  unfold SeeksRight
  decide

end KogmoRtdb
