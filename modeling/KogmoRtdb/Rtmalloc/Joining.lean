import KogmoRtdb.Rtmalloc.FreeList

/-!
# `suba_free`

A cell that is given back becomes a gap, together with the gaps that it touches
(`FreeList.free`). There are four ways to do this (`Gaps.Joined`), and in each of them the list
stays circular.
-/

namespace KogmoRtdb

variable {s s' : Allocator} {cs cs' pre post : List Cell} {c g new : Cell}
  {n p lo hi size rounds c1 : Nat}

/-! ## A cell that goes back -/

section Splice

variable {c2 : Nat}

/-- Where a cell goes back, all that changes is there and in the link before. -/
theorem subaSplice_edit (hlo : lo ≤ c2) (hhi : c2 + poff < hi)
    (hc1 : s.isAdj c1 c2 = true → lo ≤ c1 ∧ c1 < hi) :
    Edit s (subaSplice s c1 c2) c1 lo hi := by
  have hrefl := Edit.refl s c1 lo hi
  have hc2 : ∀ {s'}, Edit s s' c1 lo hi → ∀ v, Edit s (s'.setSize c2 v) c1 lo hi :=
    fun he v => he.store (Or.inr (by omega))
  have hn2 : ∀ {s'}, Edit s s' c1 lo hi → ∀ v, Edit s (s'.setNext c2 v) c1 lo hi :=
    fun he v => he.store (Or.inr (by omega))
  have hn1 : ∀ {s'}, Edit s s' c1 lo hi → ∀ v, Edit s (s'.setNext c1 v) c1 lo hi :=
    fun he v => he.store (Or.inl rfl)
  unfold subaSplice
  dsimp only
  split
  · rename_i hadj
    have hs1 : ∀ {s'}, Edit s s' c1 lo hi → ∀ v, Edit s (s'.setSize c1 v) c1 lo hi :=
      fun he v => he.store (Or.inr (hc1 hadj))
    split
    · split
      · exact hs1 (hs1 (hn1 hrefl.retail _) _) _
      · exact hs1 (hs1 (hn1 hrefl _) _) _
    · exact hs1 hrefl _
  · split
    · split
      · exact hn1 (hc2 (hn2 hrefl.retail _) _) _
      · exact hn1 (hc2 (hn2 hrefl _) _) _
    · exact hn1 (hn2 hrefl _) _

theorem subaSplice_before (h1 : s.isAdj c1 c2 = true) (h2 : s.isAdj c2 (s.next c1) = false) :
    subaSplice s c1 c2 = s.setSize c1 (s.cellSize c1 + (poff + s.cellSize c2)) := by
  unfold subaSplice
  dsimp only
  rw [h1, h2]
  rfl

theorem subaSplice_between (h1 : s.isAdj c1 c2 = false) (h2 : s.isAdj c2 (s.next c1) = false) :
    subaSplice s c1 c2 = (s.setNext c2 (s.next c1)).setNext c1 c2 := by
  unfold subaSplice
  dsimp only
  rw [h1, h2]
  rfl

/-- Joined with both: the cell before takes all three. -/
theorem subaSplice_both (h1 : s.isAdj c1 c2 = true) (h2 : s.isAdj c2 (s.next c1) = true)
    (hne : c2 ≠ c1) (hne2 : c2 ≠ c1 + poff) (hne3 : s.next c1 ≠ c1 + poff) :
    (subaSplice s c1 c2).cellSize c1 =
        s.cellSize c1 + (poff + s.cellSize (s.next c1)) + (poff + s.cellSize c2) ∧
      (subaSplice s c1 c2).next c1 = s.next (s.next c1) ∧
        (subaSplice s c1 c2).tail = if s.next c1 = s.tail then c1 else s.tail := by
  have hpoff : poff ≠ 0 := by decide
  unfold subaSplice
  dsimp only
  rw [h1, h2]
  by_cases ht : s.next c1 = s.tail
  · simp [ht, hpoff, hne, hne2, ht ▸ hne3]
  · simp [ht, hpoff, hne, hne2, hne3]

/-- Joined with the cell behind, whose place it takes. -/
theorem subaSplice_behind (h1 : s.isAdj c1 c2 = false) (h2 : s.isAdj c2 (s.next c1) = true)
    (hne : c2 ≠ c1) (hne2 : c2 ≠ c1 + poff) (hne3 : s.next c1 ≠ c2 + poff) :
    (subaSplice s c1 c2).cellSize c2 = s.cellSize c2 + (poff + s.cellSize (s.next c1)) ∧
      (subaSplice s c1 c2).next c2 =
        (if s.next (s.next c1) = s.next c1 then c2 else s.next (s.next c1)) ∧
      (subaSplice s c1 c2).next c1 = c2 ∧
        (subaSplice s c1 c2).tail = if s.next c1 = s.tail then c2 else s.tail := by
  have hpoff : poff ≠ 0 := by decide
  unfold subaSplice
  dsimp only
  rw [h1, h2]
  by_cases ht : s.next c1 = s.tail
  · simp [ht, hpoff, hne, hne2, ht ▸ hne3]
  · simp [ht, hpoff, hne, hne2, hne3]

end Splice

namespace FreeList

/-- What a block that goes back makes of the allocator. -/
structure Returned (s s' : Allocator) (cs' : List Cell) : Prop where
  list : FreeList s' cs'
  keeps : ∀ c ∈ cs', ∀ a, c.ref ≤ a → a < Gaps.stop poff c → s'.word a = s.word a
  size : s'.size = s.size
  mincell : s'.mincell = s.mincell
  allocTotal : s'.allocTotal = s.allocTotal
  freeTotal : s'.freeTotal = s.freeTotal

theorem isAdj_iff (h : FreeList s cs) (hc : c ∈ cs ++ s.gaps cs) {r : Nat} :
    s.isAdj c.ref r = true ↔ Gaps.stop poff c = r := by
  unfold Allocator.isAdj Gaps.stop
  rw [h.header c hc, beq_iff_eq]

theorem isAdj_eq_false (h : FreeList s cs) (hc : c ∈ cs ++ s.gaps cs) {r : Nat}
    (hne : Gaps.stop poff c ≠ r) : s.isAdj c.ref r = false :=
  Bool.eq_false_iff.mpr fun hadj => hne ((h.isAdj_iff hc).mp hadj)

/-- Of the other gaps only the one before leads elsewhere. -/
theorem merge_next {m : Cell} (h : FreeList s cs) (hlaid : Gaps.Laid poff hdrsiz cs' s.size)
    (hgaps : s.gaps cs' = pre ++ m :: post) (hkept : ∀ d ∈ post ++ pre, d ∈ s.gaps cs)
    (he : Edit s s' p m.ref (Gaps.stop poff m)) (hp : ∃ g ∈ s.gaps cs, g.ref = p) {x : Nat}
    (hx : x ∈ (post ++ pre).map Cell.ref) (hne : x ≠ p) : s'.next x = s.next x := by
  obtain ⟨d, hd, rfl⟩ := List.mem_map.mp hx
  exact h.edit_next he hp (hkept d hd) (hlaid.apart_gap hgaps (Or.inr hd)) hne

theorem of_merge {m : Cell} (h : FreeList s cs) (hlaid : Gaps.Laid poff hdrsiz cs' s.size)
    (hsub : ∀ d ∈ cs', d ∈ cs) (hgaps : s.gaps cs' = pre ++ m :: post)
    (hkept : ∀ d ∈ post ++ pre, d ∈ s.gaps cs) (he : Edit s s' p m.ref (Gaps.stop poff m))
    (hp : ∃ g ∈ s.gaps cs, g.ref = p) (hsize : s'.cellSize m.ref = m.size)
    (hlarge : s.mincell ≤ m.size) (hlinks : Circular s'.next (m.ref :: (post ++ pre).map Cell.ref))
    (htail : (m.ref :: post.map Cell.ref).getLast? = some s'.tail) : Returned s s' cs' := by
  have hgaps' : s'.gaps cs' = pre ++ m :: post := by
    unfold Allocator.gaps
    rw [he.size]
    exact hgaps
  refine ⟨h.of_edit he hp hlaid (fun d hd => ?_) ?_ ?_, fun d hd a hlo hhi => ?_, he.size,
    he.mincell, he.allocTotal, he.freeTotal⟩
  · rw [hgaps'] at hd
    rcases List.mem_append.mp hd with hd | hd
    · exact Or.inl ⟨List.mem_append_left _ (hsub d hd), hlaid.apart_gap hgaps (Or.inl hd)⟩
    · rcases List.mem_cons.mp (List.perm_middle.mem_iff.mp hd) with rfl | hd
      · exact Or.inr ⟨hsize, hlarge⟩
      · have hd := List.perm_append_comm.mem_iff.mp hd
        exact Or.inl ⟨List.mem_append_right _ (hkept d hd), hlaid.apart_gap hgaps (Or.inr hd)⟩
  · rw [hgaps', List.map_append, List.map_cons]
    refine (Circular.rotate _ _).mp ?_
    rw [List.cons_append, ← List.map_append]
    exact hlinks
  · rw [hgaps', List.map_append, List.map_cons, List.getLast?_append_cons]
    exact htail
  · refine h.edit_word he hp (List.mem_append_left _ (hsub d hd))
      (hlaid.apart_gap hgaps (Or.inl hd)) hlo hhi fun heq => ?_
    obtain ⟨x, hx, href⟩ := hp
    have hapart := h.laid.gap_apart hx (hsub d hd)
    unfold Gaps.stop poff at hapart
    omega

theorem gap_ne (h : FreeList s cs) (hg : g ∈ s.gaps cs) (hc : c ∈ cs) :
    c.ref ≠ g.ref ∧ c.ref ≠ g.ref + poff ∧ g.ref ≠ c.ref + poff := by
  have hg' : g ∈ cs ++ s.gaps cs := List.mem_append_right _ hg
  have hc' : c ∈ cs ++ s.gaps cs := List.mem_append_left _ hc
  have hapart := h.laid.gap_apart hg hc
  have hlarge := h.large' hg'
  have hlarge' := h.large' hc'
  unfold Gaps.stop at hapart
  unfold poff at *
  omega

theorem joinBoth {g' : Cell} (h : FreeList s cs) (hc : c ∈ cs)
    (hlaid : Gaps.Laid poff hdrsiz cs' s.size) (hsub : ∀ d ∈ cs', d ∈ cs)
    (hg : s.gaps cs = pre ++ g :: g' :: post) (hstop : Gaps.stop poff g = c.ref)
    (hstop' : Gaps.stop poff c = g'.ref)
    (hgaps : s.gaps cs' =
      pre ++ ⟨g.ref, g.size + (poff + g'.size) + (poff + c.size)⟩ :: post) :
    Returned s (subaSplice s g.ref c.ref) cs' := by
  have hg' : s.gaps cs = (pre ++ [g]) ++ g' :: post := by
    rw [hg, List.append_assoc]
    rfl
  have hmem : g ∈ s.gaps cs := hg ▸ List.mem_append_right _ List.mem_cons_self
  have hmem' : g' ∈ s.gaps cs := hg' ▸ List.mem_append_right _ List.mem_cons_self
  have hlast : ((pre ++ [g]).map Cell.ref).getLastD s.tail = g.ref := by simp
  have hnext : s.next g.ref = g'.ref := hlast ▸ (h.leads hg').next_last
  have hadj : s.isAdj g.ref c.ref = true := (h.isAdj_iff (List.mem_append_right _ hmem)).mpr hstop
  have hadj' : s.isAdj c.ref (s.next g.ref) = true := by
    rw [hnext]
    exact (h.isAdj_iff (List.mem_append_left _ hc)).mpr hstop'
  have hne := h.gap_ne hmem hc
  have hne' : g'.ref ≠ g.ref + poff := by
    unfold Gaps.stop at hstop hstop'
    omega
  obtain ⟨hsize, hlink, htail⟩ :=
    subaSplice_both hadj hadj' hne.1 hne.2.1 (by rw [hnext]; exact hne')
  rw [hnext] at hsize hlink htail
  rw [h.header g (List.mem_append_right _ hmem), h.header g' (List.mem_append_right _ hmem'),
    h.header c (List.mem_append_left _ hc)] at hsize
  have he : Edit s (subaSplice s g.ref c.ref) g.ref g.ref
      (g.ref + poff + (g.size + (poff + g'.size) + (poff + c.size))) := by
    have hpoff : poff = 16 := rfl
    unfold Gaps.stop at hstop hstop'
    exact subaSplice_edit (by omega) (by omega) fun _ => ⟨Nat.le_refl _, by omega⟩
  have hkept : ∀ d ∈ post ++ pre, d ∈ s.gaps cs := fun d hd => by
    refine other_mem hg ?_
    rcases List.mem_append.mp hd with hd | hd
    · exact List.mem_append_left _ (List.mem_cons_of_mem _ hd)
    · exact List.mem_append_right _ hd
  refine h.of_merge hlaid hsub hgaps hkept he ⟨g, hmem, rfl⟩ hsize ?_ ?_ ?_
  · have hlarge := h.large g (List.mem_append_right _ hmem)
    dsimp only
    omega
  · have hlist : (post ++ (pre ++ [g])).map Cell.ref = (post ++ pre).map Cell.ref ++ [g.ref] := by
      simp
    have hremoved :
        Circular (subaSplice s g.ref c.ref).next ((post ++ (pre ++ [g])).map Cell.ref) := by
      refine (h.circular_gap hg').remove ?_ (List.nodup_cons.mp (h.nodup_gap hg')).2 ?_ ?_
      · rw [hlist]
        exact List.append_ne_nil_of_right_ne_nil _ (List.cons_ne_nil _ _)
      · rw [← h.before_gap hg', hlast]
        intro x hx hne
        rw [hlist] at hx
        rcases List.mem_append.mp hx with hx | hx
        · exact h.merge_next hlaid hgaps hkept he ⟨g, hmem, rfl⟩ hx hne
        · exact absurd (List.mem_singleton.mp hx) hne
      · rw [← h.before_gap hg', hlast]
        exact hlink
    rw [hlist] at hremoved
    exact (Circular.rotate _ [g.ref]).mp hremoved
  · rw [htail]
    exact h.getLast_exchange hg' _

theorem joinBefore (h : FreeList s cs) (hc : c ∈ cs)
    (hlaid : Gaps.Laid poff hdrsiz cs' s.size) (hsub : ∀ d ∈ cs', d ∈ cs)
    (hg : s.gaps cs = pre ++ g :: post) (hstop : Gaps.stop poff g = c.ref)
    (hadj' : s.isAdj c.ref (s.next g.ref) = false)
    (hgaps : s.gaps cs' = pre ++ ⟨g.ref, g.size + (poff + c.size)⟩ :: post) :
    Returned s (subaSplice s g.ref c.ref) cs' := by
  have hmem : g ∈ s.gaps cs := hg ▸ List.mem_append_right _ List.mem_cons_self
  have hadj : s.isAdj g.ref c.ref = true := (h.isAdj_iff (List.mem_append_right _ hmem)).mpr hstop
  have hne := h.gap_ne hmem hc
  have hsplice := subaSplice_before hadj hadj'
  rw [h.header g (List.mem_append_right _ hmem), h.header c (List.mem_append_left _ hc)] at hsplice
  have he : Edit s (subaSplice s g.ref c.ref) g.ref g.ref
      (g.ref + poff + (g.size + (poff + c.size))) := by
    have hpoff : poff = 16 := rfl
    have hlarge := h.large' (List.mem_append_left _ hc)
    unfold Gaps.stop at hstop
    exact subaSplice_edit (by omega) (by omega) fun _ => ⟨Nat.le_refl _, by omega⟩
  have hkept : ∀ d ∈ post ++ pre, d ∈ s.gaps cs := fun d hd => other_mem hg hd
  refine h.of_merge hlaid hsub hgaps hkept he ⟨g, hmem, rfl⟩ ?_ ?_ ?_ ?_
  · rw [hsplice]
    exact setSize_cellSize s g.ref _
  · have hlarge := h.large g (List.mem_append_right _ hmem)
    dsimp only
    omega
  · refine (h.circular_gap hg).congr fun x hx => ?_
    by_cases hxg : x = g.ref
    · rw [hsplice, hxg]
      exact setSize_next_of_ne (by unfold poff; omega)
    · rcases List.mem_cons.mp hx with heq | hx
      · exact absurd heq hxg
      · exact h.merge_next hlaid hgaps hkept he ⟨g, hmem, rfl⟩ hx hxg
  · rw [hsplice]
    have hlast := h.getLast_gap hg
    exact hlast

theorem joinBehind (h : FreeList s cs) (hc : c ∈ cs)
    (hlaid : Gaps.Laid poff hdrsiz cs' s.size) (hsub : ∀ d ∈ cs', d ∈ cs)
    (hg : s.gaps cs = pre ++ g :: post) (hp : (pre.map Cell.ref).getLastD s.tail = p)
    (hstop : Gaps.stop poff c = g.ref) (hadj : s.isAdj p c.ref = false)
    (hgaps : s.gaps cs' = pre ++ ⟨c.ref, c.size + (poff + g.size)⟩ :: post) :
    Returned s (subaSplice s p c.ref) cs' := by
  have hmem : g ∈ s.gaps cs := hg ▸ List.mem_append_right _ List.mem_cons_self
  have hexists := h.exists_before hg
  have hbefore := h.before_gap hg
  have hnext := (h.leads hg).next_last
  rw [hp] at hexists hbefore hnext
  have hadj' : s.isAdj c.ref (s.next p) = true := by
    rw [hnext]
    exact (h.isAdj_iff (List.mem_append_left _ hc)).mpr hstop
  have hne : c.ref ≠ p ∧ c.ref ≠ p + poff := by
    obtain ⟨x, hx, rfl⟩ := hexists
    exact ⟨(h.gap_ne hx hc).1, (h.gap_ne hx hc).2.1⟩
  obtain ⟨hsize, hlink, hlink', htail⟩ :=
    subaSplice_behind hadj hadj' hne.1 hne.2 (by rw [hnext]; exact (h.gap_ne hmem hc).2.2)
  rw [hnext] at hsize hlink htail
  rw [h.header g (List.mem_append_right _ hmem), h.header c (List.mem_append_left _ hc)] at hsize
  have he : Edit s (subaSplice s p c.ref) p c.ref
      (c.ref + poff + (c.size + (poff + g.size))) := by
    have hpoff : poff = 16 := rfl
    exact subaSplice_edit (by omega) (by omega) fun hadj'' =>
      absurd (hadj.symm.trans hadj'') (by decide)
  have hkept : ∀ d ∈ post ++ pre, d ∈ s.gaps cs := fun d hd => other_mem hg hd
  refine h.of_merge hlaid hsub hgaps hkept he hexists hsize ?_ ?_ ?_
  · have hlarge := h.large c (List.mem_append_left _ hc)
    dsimp only
    omega
  · refine (h.circular_gap hg).exchange (List.nodup_cons.mp (h.nodup_gap hg)).2 ?_ ?_ ?_
    · rw [← hbefore]
      exact fun x hx hne => h.merge_next hlaid hgaps hkept he hexists hx hne
    · rw [← hbefore]
      exact fun _ => hlink'
    · dsimp only
      rw [hlink]
      simp only [(h.circular_gap hg).next_eq_iff (h.nodup_gap hg)]
  · rw [htail]
    exact h.getLast_exchange hg _

theorem joinNone (h : FreeList s cs) (hc : c ∈ cs)
    (hlaid : Gaps.Laid poff hdrsiz cs' s.size) (hsub : ∀ d ∈ cs', d ∈ cs)
    (hg : s.gaps cs = pre ++ g :: post) (hp : (pre.map Cell.ref).getLastD s.tail = p)
    (hadj : s.isAdj p c.ref = false) (hadj' : s.isAdj c.ref (s.next p) = false)
    (hgaps : s.gaps cs' = pre ++ c :: g :: post) : Returned s (subaSplice s p c.ref) cs' := by
  have hexists := h.exists_before hg
  have hbefore := h.before_gap hg
  rw [hp] at hexists hbefore
  have hne : c.ref ≠ p ∧ c.ref ≠ p + poff := by
    obtain ⟨x, hx, rfl⟩ := hexists
    exact ⟨(h.gap_ne hx hc).1, (h.gap_ne hx hc).2.1⟩
  have hsplice := subaSplice_between hadj hadj'
  have hlarge := h.large' (List.mem_append_left _ hc)
  have he : Edit s (subaSplice s p c.ref) p c.ref (Gaps.stop poff c) := by
    have hpoff : poff = 16 := rfl
    unfold Gaps.stop
    exact subaSplice_edit (by omega) (by omega) fun hadj'' =>
      absurd (hadj.symm.trans hadj'') (by decide)
  have hkept : ∀ d ∈ (g :: post) ++ pre, d ∈ s.gaps cs := fun d hd => by
    rw [hg]
    exact List.perm_append_comm.mem_iff.mp hd
  refine h.of_merge hlaid hsub hgaps hkept he hexists ?_ ?_ ?_ ?_
  · rw [hsplice, setNext_cellSize_of_ne hne.2, setNext_cellSize_of_ne (by unfold poff; omega)]
    exact h.header c (List.mem_append_left _ hc)
  · exact h.large c (List.mem_append_left _ hc)
  · refine (h.circular_gap hg).insert (h.nodup_gap hg) ?_ ?_ ?_
    · rw [← hbefore]
      exact fun x hx hne => h.merge_next hlaid hgaps hkept he hexists hx hne
    · rw [← hbefore, hsplice]
      exact setNext_next _ p c.ref
    · rw [← hbefore, hsplice, setNext_next_of_ne hne.1]
      exact setNext_next s c.ref _
  · rw [hsplice, List.map_cons, List.getLast?_cons_cons]
    exact h.getLast_gap hg

theorem subaWalk_of_leads (ref : Nat) {xs : List Nat} {b : Nat} (hleads : Leads s.next c1 xs b)
    (hxs : ∀ x ∈ xs, poff ≤ x ∧ x < ref) (hb : ref ≤ b) (hrounds : xs.length < rounds) :
    subaWalk s ref rounds c1 = some (some (xs.getLastD c1)) := by
  induction xs generalizing c1 rounds with
  | nil =>
      obtain ⟨rounds, rfl⟩ := Nat.exists_eq_succ_of_ne_zero (Nat.ne_zero_of_lt hrounds)
      have hnext : s.next c1 = b := Leads.nil_iff.mp hleads
      simp only [subaWalk, hnext]
      exact if_neg (Nat.not_lt.mpr hb)
  | cons x xs ih =>
      obtain ⟨rounds, rfl⟩ := Nat.exists_eq_succ_of_ne_zero (Nat.ne_zero_of_lt hrounds)
      obtain ⟨hnext, hrest⟩ := Leads.cons_iff.mp hleads
      obtain ⟨hge, hlt⟩ := hxs x List.mem_cons_self
      simp only [subaWalk, hnext]
      rw [if_pos hlt, if_neg (Nat.not_lt.mpr hge), List.getLastD_cons]
      refine ih hrest (fun y hy => hxs y (List.mem_cons_of_mem x hy)) ?_
      rw [List.length_cons] at hrounds
      omega

/-- What is put back is joined with the gaps that it touches. -/
theorem splice {before after : List Cell} {c1 : Nat} (h : FreeList s (before ++ c :: after))
    (hc1 : ((Gaps.gaps poff hdrsiz before c.ref).map Cell.ref).getLastD s.tail = c1)
    {g : Cell} {behind : List Cell}
    (hbehind : Gaps.gaps poff (Gaps.stop poff c) after s.size = g :: behind) :
    Returned s (subaSplice s c1 c.ref) (before ++ after) := by
  have hc : c ∈ before ++ c :: after := List.mem_append_right _ List.mem_cons_self
  have hsub : ∀ d ∈ before ++ after, d ∈ before ++ c :: after := fun d hd =>
    List.perm_middle.mem_iff.mpr (List.mem_cons_of_mem c hd)
  have hlaid := h.laid.release
  have hgaps : s.gaps (before ++ c :: after) =
      Gaps.gaps poff hdrsiz before c.ref ++ g :: behind := by
    rw [← hbehind]
    exact Gaps.gaps_append ..
  have hnext : s.next c1 = g.ref := hc1 ▸ (h.leads hgaps).next_last
  obtain ⟨x, hx, href⟩ := h.exists_before hgaps
  rw [hc1] at href
  have hbelow : (∀ y ∈ Gaps.gaps poff hdrsiz before c.ref, Gaps.stop poff y < c.ref) →
      s.isAdj c1 c.ref = false := fun hnot => by
    rw [← href]
    refine h.isAdj_eq_false (List.mem_append_right _ hx) fun hstop => ?_
    rw [hgaps] at hx
    rcases List.mem_append.mp hx with hx | hx
    · exact absurd hstop (Nat.ne_of_lt (hnot x hx))
    · have hle := (h.laid.append.1.gap_bounds (hbehind ▸ hx)).1
      unfold Gaps.stop poff at hle hstop
      omega
  have habove : (∀ y ∈ g :: behind, Gaps.stop poff c < y.ref) →
      s.isAdj c.ref (s.next c1) = false := fun hnot => by
    rw [hnext]
    exact h.isAdj_eq_false (List.mem_append_left _ hc) (Nat.ne_of_lt (hnot g List.mem_cons_self))
  have hjoined := h.laid.joined (by decide)
  rw [hbehind] at hjoined
  cases hjoined with
  | both xs ys g' g'' hb heq hstop hstop' hg =>
      obtain ⟨rfl, rfl⟩ := List.cons.inj heq
      rw [hb, List.append_assoc] at hgaps
      rw [hb] at hc1
      simp only [List.map_append, List.map_cons, List.map_nil, List.getLastD_concat] at hc1
      exact hc1 ▸ h.joinBoth hc hlaid hsub hgaps hstop hstop' hg
  | before xs g' hb hstop hnot hg =>
      rw [hb, List.append_assoc] at hgaps
      rw [hb] at hc1
      simp only [List.map_append, List.map_cons, List.map_nil, List.getLastD_concat] at hc1
      subst hc1
      exact h.joinBefore hc hlaid hsub hgaps hstop (habove hnot) hg
  | behind ys g' heq hstop hnot hg =>
      obtain ⟨rfl, rfl⟩ := List.cons.inj heq
      exact h.joinBehind hc hlaid hsub hgaps hc1 hstop (hbelow hnot) hg
  | apart hnot hnot' hg =>
      exact h.joinNone hc hlaid hsub hgaps hc1 (hbelow hnot) (habove hnot') hg

/-- `suba_free` takes the cell away. -/
theorem free (h : FreeList s cs) (hc : c ∈ cs) :
    ∃ before after s', cs = before ++ c :: after ∧
      subaFree s (c.ref + poff : Nat) = some (0, s') ∧
        Returned { s with freeTotal := s.freeTotal + (poff + c.size) } s' (before ++ after) := by
  obtain ⟨before, after, rfl⟩ := List.append_of_mem hc
  obtain ⟨hlo, hhi⟩ := h.laid.bounds hc
  have hsize := h.header c (List.mem_append_left _ hc)
  have hlarge := h.large' (List.mem_append_left _ hc)
  have hmax := h.maxFree
  have hpoff : poff = 16 := rfl
  have hhdr : hdrsiz = 120 := rfl
  unfold Gaps.stop at hhi
  have hptr : subaRef s (c.ref + poff : Nat) ≠ 0 := by
    unfold subaRef
    rw [if_pos (by omega)]
    omega
  have hcell : ((c.ref + poff : Nat) : Int) - poff = c.ref := by omega
  have href : subaRef s c.ref = c.ref := by
    unfold subaRef
    rw [if_pos (by omega)]
    rfl
  obtain ⟨g, behind, hbehind⟩ :=
    List.exists_cons_of_ne_nil (h.laid.append.1.gaps_ne_nil (by decide))
  have hgaps : s.gaps (before ++ c :: after) =
      Gaps.gaps poff hdrsiz before c.ref ++ g :: behind := by
    rw [← hbehind]
    exact Gaps.gaps_append ..
  have hstop : ∀ y ∈ g :: behind, c.ref < y.ref := fun y hy => by
    have hle := (h.laid.append.1.gap_bounds (hbehind ▸ hy)).1
    unfold Gaps.stop at hle
    omega
  have htail : ¬ s.tail < c.ref := by
    have hlast := List.mem_of_getLast? (h.getLast_gap hgaps)
    rw [← List.map_cons] at hlast
    obtain ⟨y, hy, heq⟩ := List.mem_map.mp hlast
    have hlt := hstop y hy
    omega
  have hcounted := h.totals s.allocTotal (s.freeTotal + (poff + c.size)) s.sizeTotal
  have hwalk : subaWalk { s with freeTotal := s.freeTotal + (poff + c.size) } c.ref (s.size + 1)
      s.tail = some (some
        (((Gaps.gaps poff hdrsiz before c.ref).map Cell.ref).getLastD s.tail)) := by
    refine subaWalk_of_leads c.ref (hcounted.leads hgaps) (fun x hx => ?_)
      (Nat.le_of_lt (hstop g List.mem_cons_self)) ?_
    · obtain ⟨y, hy, rfl⟩ := List.mem_map.mp hx
      have hle := h.laid.gap_before hy
      have hge := (h.laid.gap_bounds (hgaps ▸ List.mem_append_left _ hy)).1
      unfold Gaps.stop at hle
      omega
    · have hlen := h.laid.length_gaps (by decide)
      have heq := congrArg List.length hgaps
      rw [List.length_append] at heq
      unfold Allocator.gaps at heq
      rw [List.length_map]
      omega
  refine ⟨before, after, _, rfl, ?_, hcounted.splice rfl hbehind⟩
  unfold subaFree
  rw [if_neg hptr, hcell]
  dsimp only
  rw [href, Int.toNat_natCast, hsize, if_neg (by omega), if_neg htail, hwalk]
  rfl

end FreeList

end KogmoRtdb
