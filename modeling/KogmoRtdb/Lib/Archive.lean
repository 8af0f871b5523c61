import Mathlib.Data.List.TakeWhile

/-!
# Archives

An archive keeps entries under keys: what is known of an entry, and its records, newest first.
It is given by the list of its changes, newest first. What is searched of an entry are its last
`n` records, from the newest on: `newest` takes the first record that the search does not go back
over, `oldest` the last one that it does. The records before an older state's are those added
since, so that a search that goes back over these finds the same as before, unless its record is
no longer among the last `n`.
-/

namespace Archive

universe u v w

/-- What is known of an entry, and its records, newest first. -/
structure Entry (ι : Type u) (ρ : Type v) where
  info : ι
  records : List ρ

inductive Change (κ : Type u) (ι : Type v) (ρ : Type w) where
  | enter (k : κ) (info : ι)
  | add (k : κ) (r : ρ)
  | alter (k : κ) (f : ι → ι)
  | drop (k : κ)

variable {κ : Type u} {ι : Type v} {ρ : Type w}

def Change.key : Change κ ι ρ → κ
  | .enter k _ | .add k _ | .alter k _ | .drop k => k

section Lookup

variable [DecidableEq κ] {k : κ} {c : Change κ ι ρ} {cs : List (Change κ ι ρ)} {e e' : Entry ι ρ}

def Change.apply : Change κ ι ρ → Option (Entry ι ρ) → Option (Entry ι ρ)
  | .enter _ info, _ => some ⟨info, []⟩
  | .add _ r, e => e.map fun e => { e with records := r :: e.records }
  | .alter _ f, e => e.map fun e => { e with info := f e.info }
  | .drop _, _ => none

def lookup (k : κ) : List (Change κ ι ρ) → Option (Entry ι ρ)
  | [] => none
  | c :: cs => if c.key = k then c.apply (lookup k cs) else lookup k cs

@[simp] theorem lookup_nil : lookup k ([] : List (Change κ ι ρ)) = none := rfl

theorem lookup_cons_of_ne (h : c.key ≠ k) : lookup k (c :: cs) = lookup k cs := if_neg h

@[simp] theorem lookup_cons_self : lookup c.key (c :: cs) = c.apply (lookup c.key cs) := if_pos rfl

def added (k : κ) : List (Change κ ι ρ) → List ρ
  | [] => []
  | .add k' r :: cs => if k' = k then r :: added k cs else added k cs
  | _ :: cs => added k cs

def Keeps (k : κ) (cs : List (Change κ ι ρ)) : Prop :=
  ∀ c ∈ cs, c.key = k → (∃ r, c = .add k r) ∨ ∃ f, c = .alter k f

/-- An entry that stays has the records it had, behind those that were added. -/
theorem records_append {news : List (Change κ ι ρ)} (hkeeps : Keeps k news)
    (he : lookup k cs = some e) (he' : lookup k (news ++ cs) = some e') :
    e'.records = added k news ++ e.records := by
  induction news generalizing e' with
  | nil =>
      rw [List.nil_append, he] at he'
      cases he'
      rfl
  | cons c news ih =>
      have hkeeps' : Keeps k news := fun d hd => hkeeps d (List.mem_cons_of_mem _ hd)
      rw [List.cons_append] at he'
      by_cases hk : c.key = k
      · rcases hkeeps c List.mem_cons_self hk with ⟨r, rfl⟩ | ⟨f, rfl⟩
        · rw [lookup, if_pos hk] at he'
          obtain ⟨d, hd, rfl⟩ := Option.map_eq_some_iff.mp he'
          rw [added, if_pos rfl, List.cons_append, ← ih hkeeps' hd]
        · rw [lookup, if_pos hk] at he'
          obtain ⟨d, hd, rfl⟩ := Option.map_eq_some_iff.mp he'
          exact (ih hkeeps' hd :)
      · rw [lookup_cons_of_ne hk] at he'
        rw [ih hkeeps' he']
        cases c with
        | add k' r => rw [added, if_neg (show k' ≠ k from hk)]
        | enter _ _ | alter _ _ | drop _ => rfl

/-- What every alteration keeps is kept of an entry that stays. -/
theorem info_of_keeps {R : ι → ι → Prop} {news : List (Change κ ι ρ)} (hrefl : ∀ i, R i i)
    (htrans : ∀ i j l, R i j → R j l → R i l)
    (halter : ∀ k f, Change.alter k f ∈ news → ∀ i, R i (f i)) (hkeeps : Keeps k news)
    (he : lookup k cs = some e) (he' : lookup k (news ++ cs) = some e') : R e.info e'.info := by
  induction news generalizing e' with
  | nil =>
      rw [List.nil_append, he] at he'
      cases he'
      exact hrefl _
  | cons c news ih =>
      have hkeeps' : Keeps k news := fun d hd => hkeeps d (List.mem_cons_of_mem _ hd)
      have halter' : ∀ k f, Change.alter k f ∈ news → ∀ i, R i (f i) := fun k f hmem =>
        halter k f (List.mem_cons_of_mem _ hmem)
      rw [List.cons_append] at he'
      by_cases hk : c.key = k
      · rcases hkeeps c List.mem_cons_self hk with ⟨r, rfl⟩ | ⟨f, rfl⟩
        · rw [lookup, if_pos hk] at he'
          obtain ⟨d, hd, rfl⟩ := Option.map_eq_some_iff.mp he'
          exact (ih halter' hkeeps' hd :)
        · rw [lookup, if_pos hk] at he'
          obtain ⟨d, hd, rfl⟩ := Option.map_eq_some_iff.mp he'
          exact htrans _ _ _ (ih halter' hkeeps' hd) (halter k f List.mem_cons_self _)
      · rw [lookup_cons_of_ne hk] at he'
        exact ih halter' hkeeps' he'

/-- An entry that is there, and was not entered since, has been there all the time. -/
theorem keeps_of_lookup {news : List (Change κ ι ρ)}
    (henter : ∀ info, Change.enter k info ∉ news)
    (he' : lookup k (news ++ cs) = some e') : Keeps k news := by
  induction news generalizing e' with
  | nil => exact fun c hc => absurd hc List.not_mem_nil
  | cons c news ih =>
      have henter' : ∀ info, Change.enter k info ∉ news := fun info hmem =>
        henter info (List.mem_cons_of_mem _ hmem)
      rw [List.cons_append] at he'
      by_cases hk : c.key = k
      · rw [lookup, if_pos hk] at he'
        have hrest {f : Entry ι ρ → Entry ι ρ}
            (hmap : (lookup k (news ++ cs)).map f = some e') : Keeps k news := by
          obtain ⟨d, hd, -⟩ := Option.map_eq_some_iff.mp hmap
          exact ih henter' hd
        cases c with
        | enter k' info => exact absurd List.mem_cons_self (hk ▸ henter info)
        | drop k' => cases he'
        | add k' r =>
            intro d hd
            rcases List.mem_cons.mp hd with rfl | hd
            · exact fun _ => Or.inl ⟨r, by rw [← hk]; rfl⟩
            · exact hrest he' d hd
        | alter k' f =>
            intro d hd
            rcases List.mem_cons.mp hd with rfl | hd
            · exact fun _ => Or.inr ⟨f, by rw [← hk]; rfl⟩
            · exact hrest he' d hd
      · rw [lookup_cons_of_ne hk] at he'
        intro d hd
        rcases List.mem_cons.mp hd with rfl | hd
        · exact fun h => absurd h hk
        · exact ih henter' he' d hd

end Lookup

/-! ## Searches -/

section Search

variable {p : ρ → Bool} {n : Nat} {l news : List ρ} {r : ρ}

/-- Of the last `n` records the newest with a property. -/
def newest (p : ρ → Bool) (n : Nat) (l : List ρ) : Option ρ := (l.take n).find? p

/-- Of the last `n` records the oldest of those that have the property together with all newer
ones. -/
def oldest (p : ρ → Bool) (n : Nat) (l : List ρ) : Option ρ := ((l.take n).takeWhile p).getLast?

/-- A record before which there are fewer than `n` is among the last `n`. -/
theorem mem_take_of_countP {key : ρ → Int} (hsorted : l.Pairwise fun r r' => key r' < key r)
    (hr : r ∈ l) (hfew : (l.countP fun r' => decide (key r < key r')) < n) : r ∈ l.take n := by
  induction l generalizing n with
  | nil => cases hr
  | cons a l ih =>
      obtain ⟨ha, hl⟩ := List.pairwise_cons.mp hsorted
      obtain ⟨k, rfl⟩ : ∃ k, n = k + 1 := ⟨n - 1, by omega⟩
      rw [List.take_succ_cons]
      rcases List.mem_cons.mp hr with rfl | hr
      · exact List.mem_cons_self
      · rw [List.countP_cons_of_pos (by simpa using ha r hr)] at hfew
        exact List.mem_cons_of_mem _ (ih hl hr (by omega))

theorem newest_append (hnews : ∀ r ∈ news, p r = false) :
    newest p n (news ++ l) = newest p (n - news.length) l := by
  have hnone : (news.take n).find? p = none :=
    List.find?_eq_none.mpr fun r hr => by simp [hnews r (List.mem_of_mem_take hr)]
  rw [newest, List.take_append, List.find?_append, hnone, Option.none_or]
  rfl

/-- Of fewer records the search finds the same, or nothing. -/
theorem newest_le {m : Nat} (hm : m ≤ n) : newest p m l = newest p n l ∨ newest p m l = none := by
  unfold newest
  rw [← List.take_append_drop m (l.take n), List.take_take, Nat.min_eq_left hm, List.find?_append]
  cases (l.take m).find? p with
  | none => exact Or.inr rfl
  | some r => exact Or.inl rfl

theorem newest_of_mem {m : Nat} (hm : m ≤ n) (hr : newest p n l = some r) (hmem : r ∈ l.take m) :
    newest p m l = some r := by
  rcases newest_le (p := p) (l := l) hm with heq | hnone
  · exact heq.trans hr
  · have hp : p r = true := List.find?_some hr
    exact absurd hp (by simpa using List.find?_eq_none.mp hnone r hmem)

theorem oldest_append (hnews : ∀ r ∈ news, p r = true) (hlen : news.length ≤ n) :
    oldest p n (news ++ l) = (oldest p (n - news.length) l).or news.getLast? := by
  have htake : (news ++ l).take n = news ++ l.take (n - news.length) := by
    rw [List.take_append, List.take_of_length_le hlen]
  have hwhile : news.takeWhile p = news := List.takeWhile_eq_self_iff.mpr hnews
  rw [oldest, htake, List.takeWhile_append, hwhile, if_pos rfl, List.getLast?_append]
  rfl

/-- The record found is found among fewer, if it is among them. -/
theorem oldest_of_mem {m : Nat} (hm : m ≤ n) (hnodup : (l.take n).Nodup)
    (hr : oldest p n l = some r) (hmem : r ∈ l.take m) : oldest p m l = some r := by
  obtain ⟨as, has⟩ := List.getLast?_eq_some_iff.mp hr
  obtain ⟨bs, hbs⟩ : ∃ bs, l.take n = as ++ r :: bs := by
    have hsplit : (l.take n).takeWhile p ++ (l.take n).dropWhile p = l.take n :=
      List.takeWhile_append_dropWhile
    rw [has, List.append_assoc] at hsplit
    exact ⟨_, hsplit.symm⟩
  have hlt : as.length < m := by
    by_contra hle
    rw [← Nat.min_eq_left hm, ← List.take_take, hbs,
      List.take_append_of_le_length (by omega)] at hmem
    rw [hbs] at hnodup
    exact (List.nodup_append.mp hnodup).2.2 r (List.mem_of_mem_take hmem) r List.mem_cons_self rfl
  have hp : ∀ a ∈ as ++ [r], p a = true := fun a ha => by
    rw [← has] at ha
    exact List.mem_takeWhile_imp ha
  have hend : bs.takeWhile p = [] := by
    have hall := has
    rw [hbs, show as ++ r :: bs = (as ++ [r]) ++ bs by simp, List.takeWhile_append,
      List.takeWhile_eq_self_iff.mpr hp, if_pos rfl] at hall
    exact List.append_right_eq_self.mp hall
  have htake : l.take m = (as ++ [r]) ++ bs.take (m - (as.length + 1)) := by
    have hmin : l.take m = (l.take n).take m := by rw [List.take_take, Nat.min_eq_left hm]
    rw [hmin, hbs, show as ++ r :: bs = (as ++ [r]) ++ bs by simp, List.take_append,
      List.take_of_length_le (by simp; omega), List.length_append]
    rfl
  have hnil : (bs.take (m - (as.length + 1))).takeWhile p = [] := by
    cases bs with
    | nil => simp
    | cons b bs =>
        rw [List.takeWhile_cons] at hend
        split at hend
        · cases hend
        · rename_i hb
          cases m - (as.length + 1) with
          | zero => rfl
          | succ k => rw [List.take_succ_cons, List.takeWhile_cons_of_neg hb]
  rw [oldest, htake, List.takeWhile_append, List.takeWhile_eq_self_iff.mpr hp, if_pos rfl, hnil,
    List.append_nil, List.getLast?_concat]

end Search

end Archive
