import KogmoRtdb.Rtmalloc.FreeList

/-!
# `suba_alloc`

On a free list `suba_alloc` is first fit: it comes to an end, and hands out what `Gaps.place` does
(`FreeList.alloc`). The new cell is the front of a gap or all of it; the stores keep the list
circular, and leave the outstanding cells alone.
-/

namespace KogmoRtdb

variable {s s' : Allocator} {cs cs' pre post : List Cell} {c g new : Cell}
  {n p lo hi size rounds c1 : Nat}

/-! ## The search -/

theorem subaFind_cons (rounds : Nat) (hnext : s.next c1 = c.ref) (haddr : subaAddr s c.ref = true)
    (hsmall : s.cellSize c.ref < n) (htail : c.ref ≠ s.tail) :
    subaFind s n (rounds + 1) c1 = subaFind s n rounds c.ref := by
  simp only [subaFind, hnext, haddr, Bool.not_true, Bool.false_eq_true, if_false]
  rw [if_neg (by omega), if_neg htail]

/-- The search ends at the first cell that is large enough. -/
theorem subaFind_cell (hleads : Leads s.next c1 (pre.map Cell.ref) c.ref)
    (hpre : ∀ x ∈ pre, subaAddr s x.ref = true ∧ s.cellSize x.ref < n ∧ x.ref ≠ s.tail)
    (haddr : subaAddr s c.ref = true) (hlarge : n ≤ s.cellSize c.ref)
    (hrounds : pre.length < rounds) :
    subaFind s n rounds c1 = some (.cell ((pre.map Cell.ref).getLastD c1) c.ref) := by
  induction pre generalizing c1 rounds with
  | nil =>
      obtain ⟨rounds, rfl⟩ := Nat.exists_eq_succ_of_ne_zero (Nat.pos_iff_ne_zero.mp hrounds)
      have hnext : s.next c1 = c.ref := Leads.nil_iff.mp hleads
      simp only [subaFind, hnext, haddr, Bool.not_true, Bool.false_eq_true, if_false,
        if_pos hlarge]
      rfl
  | cons x pre ih =>
      obtain ⟨rounds, rfl⟩ := Nat.exists_eq_succ_of_ne_zero (Nat.ne_zero_of_lt hrounds)
      obtain ⟨hnext, hrest⟩ := Leads.cons_iff.mp hleads
      obtain ⟨haddr', hsmall, htail⟩ := hpre x List.mem_cons_self
      rw [Nat.succ_eq_add_one, subaFind_cons rounds hnext haddr' hsmall htail, List.map_cons,
        List.getLastD_cons]
      refine ih hrest (fun y hy => hpre y (List.mem_cons_of_mem x hy)) ?_
      rw [List.length_cons] at hrounds
      omega

theorem subaFind_around (hleads : Leads s.next c1 (pre.map Cell.ref) c.ref)
    (hpre : ∀ x ∈ pre, subaAddr s x.ref = true ∧ s.cellSize x.ref < n ∧ x.ref ≠ s.tail)
    (haddr : subaAddr s c.ref = true) (hsmall : s.cellSize c.ref < n) (htail : c.ref = s.tail)
    (hrounds : pre.length < rounds) : subaFind s n rounds c1 = some .around := by
  induction pre generalizing c1 rounds with
  | nil =>
      obtain ⟨rounds, rfl⟩ := Nat.exists_eq_succ_of_ne_zero (Nat.ne_zero_of_lt hrounds)
      have hnext : s.next c1 = c.ref := Leads.nil_iff.mp hleads
      simp only [subaFind, hnext, haddr, Bool.not_true, Bool.false_eq_true, if_false]
      rw [if_neg (by omega), if_pos htail]
  | cons x pre ih =>
      obtain ⟨rounds, rfl⟩ := Nat.exists_eq_succ_of_ne_zero (Nat.ne_zero_of_lt hrounds)
      obtain ⟨hnext, hrest⟩ := Leads.cons_iff.mp hleads
      obtain ⟨haddr', hsmall', htail'⟩ := hpre x List.mem_cons_self
      rw [Nat.succ_eq_add_one, subaFind_cons rounds hnext haddr' hsmall' htail']
      refine ih hrest (fun y hy => hpre y (List.mem_cons_of_mem x hy)) ?_
      rw [List.length_cons] at hrounds
      omega

/-! ## A new cell -/

section Split

variable {c2 : Nat}

/-- Where a new cell splits off, all that changes is there and in the link before. -/
theorem subaSplit_edit (c1 : Nat) (hhi : c2 + poff + n + poff < hi) :
    Edit s (subaSplit s c1 c2 n) c1 c2 hi := by
  unfold subaSplit Allocator.setNext Allocator.setSize
  have hsize : Edit s (s.store (c2 + poff + n) (s.cellSize c2 - (n + poff))) c1 c2 hi :=
    (Edit.refl s c1 c2 hi).store (Or.inr (by omega))
  have hnext : ∀ v, Edit s ((s.store (c2 + poff + n) (s.cellSize c2 - (n + poff))).store
      (c2 + poff + n + poff) v) c1 c2 hi := fun v => hsize.store (Or.inr (by omega))
  dsimp only
  split <;> split
  · exact ((hnext _).store (Or.inr (by omega))).retail
  · exact (hnext _).store (Or.inr (by omega))
  · exact (((hnext _).store (Or.inl rfl)).store (Or.inr (by omega))).retail
  · exact ((hnext _).store (Or.inl rfl)).store (Or.inr (by omega))

theorem subaSplit_word (s : Allocator) (c1 c2 n : Nat) :
    (subaSplit s c1 c2 n).word =
      let w := Function.update s.word (c2 + poff + n) (s.cellSize c2 - (n + poff))
      Function.update
        (if c1 = c2 then Function.update w (c2 + poff + n + poff) (c2 + poff + n)
        else Function.update (Function.update w (c2 + poff + n + poff) (w (c2 + poff))) (c1 + poff)
          (c2 + poff + n)) c2 n := by
  unfold subaSplit
  dsimp only
  split <;> split <;> rfl

theorem subaSplit_tail (s : Allocator) (c1 c2 n : Nat) :
    (subaSplit s c1 c2 n).tail = if c2 = s.tail then c2 + poff + n else s.tail := by
  unfold subaSplit
  dsimp only
  split <;> split <;> rename_i ht
  · exact (if_pos ht).symm
  · exact (if_neg ht).symm
  · exact (if_pos ht).symm
  · exact (if_neg ht).symm

theorem subaSplit_used (s : Allocator) (c1 c2 n : Nat) :
    (subaSplit s c1 c2 n).cellSize c2 = n := by
  unfold Allocator.cellSize
  rw [subaSplit_word]
  exact Function.update_self _ _ _

theorem subaSplit_rest (hp : c1 ≠ c2 → c1 + poff ≠ c2 + poff + n) :
    (subaSplit s c1 c2 n).cellSize (c2 + poff + n) = s.cellSize c2 - (n + poff) := by
  unfold Allocator.cellSize
  rw [subaSplit_word]
  unfold poff Allocator.cellSize at *
  dsimp only
  rw [Function.update_of_ne (by omega)]
  split
  · rw [Function.update_of_ne (by omega), Function.update_self]
  · rename_i hne
    rw [Function.update_of_ne (hp hne).symm, Function.update_of_ne (by omega), Function.update_self]

/-- The new cell leads where the old one did, and to itself where that was the only one. -/
theorem subaSplit_next (hpos : 0 < n) (hp : c1 ≠ c2 → c1 ≠ c2 + poff + n) :
    (subaSplit s c1 c2 n).next (c2 + poff + n) = if c1 = c2 then c2 + poff + n else s.next c2 := by
  unfold Allocator.next
  rw [subaSplit_word]
  unfold poff at *
  dsimp only
  rw [Function.update_of_ne (by omega)]
  split
  · exact Function.update_self _ _ _
  · rename_i hne
    have hp := hp hne
    rw [Function.update_of_ne (by omega), Function.update_self, Function.update_of_ne (by omega)]

theorem subaSplit_before (hne : c1 ≠ c2) (hp : c1 + poff ≠ c2) :
    (subaSplit s c1 c2 n).next c1 = c2 + poff + n := by
  unfold Allocator.next
  rw [subaSplit_word]
  dsimp only
  rw [if_neg hne, Function.update_of_ne hp]
  exact Function.update_self _ _ _

end Split

namespace FreeList

/-! ## The gap that is taken -/

theorem split (h : FreeList s cs) (hg : s.gaps cs = pre ++ g :: post) (hn : s.mincell ≤ n)
    (hlt : poff + n + s.mincell < g.size) (hp : (pre.map Cell.ref).getLastD s.tail = p)
    (hlaid : Gaps.Laid poff hdrsiz cs' s.size) (hperm : cs'.Perm (⟨g.ref, n⟩ :: cs))
    (hgaps : s.gaps cs' = pre ++ ⟨g.ref + poff + n, g.size - (n + poff)⟩ :: post) :
    FreeList (subaSplit s p g.ref n) cs' := by
  have hmincell := h.mincell
  have hmem : g ∈ s.gaps cs := hg ▸ List.mem_append_right _ List.mem_cons_self
  have hsize : s.cellSize g.ref = g.size := h.header g (List.mem_append_right _ hmem)
  have he : Edit s (subaSplit s p g.ref n) p g.ref (Gaps.stop poff g) :=
    subaSplit_edit p (by unfold Gaps.stop poff at *; omega)
  have hexists := h.exists_before hg
  have hbefore := h.before_gap hg
  rw [hp] at hexists hbefore
  have hgaps' : (subaSplit s p g.ref n).gaps cs' =
      pre ++ ⟨g.ref + poff + n, g.size - (n + poff)⟩ :: post := by
    unfold Allocator.gaps
    rw [he.size]
    exact hgaps
  -- The cell before is the gap itself only if there is no other.
  have hself : p = g.ref ↔ (post ++ pre).map Cell.ref = [] := by
    rw [hbefore]
    exact getLastD_eq_iff (h.nodup_gap hg)
  have houtside : p ≠ g.ref → p + poff < g.ref ∨ g.ref + poff + g.size ≤ p :=
    h.before_apart hg hp
  have hrest : (subaSplit s p g.ref n).cellSize (g.ref + poff + n) = g.size - (n + poff) := by
    rw [subaSplit_rest fun hne => by have := houtside hne; omega, hsize]
  refine h.of_edit he hexists hlaid (fun c hc => ?_) ?_ ?_
  · rw [hgaps'] at hc
    rcases List.mem_append.mp hc with hc | hc
    · rcases List.mem_cons.mp (hperm.mem_iff.mp hc) with rfl | hc
      · exact Or.inr ⟨subaSplit_used s p g.ref n, hn⟩
      · exact Or.inl ⟨List.mem_append_left _ hc, h.laid.apart_gap hg (Or.inl hc)⟩
    · rcases List.mem_cons.mp (List.perm_middle.mem_iff.mp hc) with rfl | hc
      · exact Or.inr ⟨hrest, by dsimp only; omega⟩
      · have hc := List.perm_append_comm.mem_iff.mp hc
        exact Or.inl ⟨List.mem_append_right _ (other_mem hg hc), h.laid.apart_gap hg (Or.inr hc)⟩
  · rw [hgaps', List.map_append, List.map_cons]
    refine (Circular.rotate _ _).mp ?_
    rw [List.cons_append, ← List.map_append]
    refine (h.circular_gap hg).exchange (List.nodup_cons.mp (h.nodup_gap hg)).2 ?_ ?_ ?_
    · rw [← hbefore]
      exact fun x hx hne => h.other_next hg he hp hx hne
    · intro hne
      rw [← hbefore]
      have hne : p ≠ g.ref := fun heq => hne (hself.mp heq)
      exact subaSplit_before hne (by have := houtside hne; omega)
    · rw [subaSplit_next (by omega) fun hne => by have := houtside hne; omega]
      simp only [hself]
  · rw [hgaps', List.map_append, List.map_cons, List.getLast?_append_cons, subaSplit_tail]
    exact h.getLast_exchange hg _

theorem whole (h : FreeList s cs) (hg : s.gaps cs = pre ++ g :: post) (hpost : post ≠ [])
    (hp : (pre.map Cell.ref).getLastD s.tail = p) (hlaid : Gaps.Laid poff hdrsiz cs' s.size)
    (hperm : cs'.Perm (g :: cs)) (hgaps : s.gaps cs' = pre ++ post) :
    FreeList (s.setNext p (s.next g.ref)) cs' := by
  have hmem : g ∈ cs ++ s.gaps cs :=
    List.mem_append_right _ (hg ▸ List.mem_append_right _ List.mem_cons_self)
  have he : Edit s (s.setNext p (s.next g.ref)) p g.ref (Gaps.stop poff g) :=
    (Edit.refl s p _ _).store (Or.inl rfl)
  have hexists := h.exists_before hg
  have hbefore := h.before_gap hg
  rw [hp] at hexists hbefore
  have hothers : (post ++ pre).map Cell.ref ≠ [] := fun hnil =>
    hpost (List.append_eq_nil_iff.mp (List.map_eq_nil_iff.mp hnil)).1
  have hne : p ≠ g.ref := fun heq =>
    hothers ((getLastD_eq_iff (h.nodup_gap hg)).mp (hbefore.symm.trans heq))
  have hsize : (s.setNext p (s.next g.ref)).cellSize g.ref = g.size := by
    have houtside := h.before_apart hg hp hne
    refine Eq.trans ?_ (h.header g hmem)
    exact Function.update_of_ne (by omega) _ _
  have hgaps' : (s.setNext p (s.next g.ref)).gaps cs' = pre ++ post := hgaps
  refine h.of_edit he hexists hlaid (fun c hc => ?_) ?_ ?_
  · rw [hgaps'] at hc
    rcases List.mem_append.mp hc with hc | hc
    · rcases List.mem_cons.mp (hperm.mem_iff.mp hc) with rfl | hc
      · exact Or.inr ⟨hsize, h.large _ hmem⟩
      · exact Or.inl ⟨List.mem_append_left _ hc, h.laid.apart_gap hg (Or.inl hc)⟩
    · have hc := List.perm_append_comm.mem_iff.mp hc
      exact Or.inl ⟨List.mem_append_right _ (other_mem hg hc), h.laid.apart_gap hg (Or.inr hc)⟩
  · rw [hgaps', List.map_append]
    refine (Circular.rotate _ _).mp ?_
    rw [← List.map_append]
    refine (h.circular_gap hg).remove hothers (List.nodup_cons.mp (h.nodup_gap hg)).2 ?_ ?_
    · rw [← hbefore]
      exact fun x hx hne => h.other_next hg he hp hx hne
    · rw [← hbefore]
      exact store_word s (p + poff) _
  · have hlast := h.getLast_gap hg
    rw [hgaps', List.map_append]
    cases post with
    | nil => exact absurd rfl hpost
    | cons x post =>
        rw [List.map_cons, List.getLast?_append_cons]
        rw [List.map_cons, List.getLast?_cons_cons] at hlast
        exact hlast

/-- The search finds the first gap that is large enough. -/
theorem subaFind_gap (h : FreeList s cs) (hg : s.gaps cs = pre ++ g :: post)
    (hpre : ∀ x ∈ pre, x.size < n) (hn : n ≤ g.size) :
    subaFind s n (s.size + 1) s.tail =
      some (.cell ((pre.map Cell.ref).getLastD s.tail) g.ref) := by
  have hmem : g ∈ s.gaps cs := hg ▸ List.mem_append_right _ List.mem_cons_self
  have hlen := h.laid.length_gaps (by decide)
  refine subaFind_cell (h.leads hg) (h.before_small hg hpre) (h.addr hmem) ?_ ?_
  · rw [h.header g (List.mem_append_right _ hmem)]
    exact hn
  · have heq : (s.gaps cs).length = pre.length + (post.length + 1) := by
      rw [hg, List.length_append, List.length_cons]
    unfold Allocator.gaps at heq
    omega

theorem subaFind_no_gap (h : FreeList s cs) (hsmall : ∀ x ∈ s.gaps cs, x.size < n) :
    subaFind s n (s.size + 1) s.tail = some .around := by
  rcases List.eq_nil_or_concat (s.gaps cs) with hnil | ⟨pre, g, hg⟩
  · exact absurd hnil (h.laid.gaps_ne_nil (by decide))
  rw [List.concat_eq_append] at hg
  have hmem : g ∈ s.gaps cs := hg ▸ List.mem_append_right _ List.mem_cons_self
  have hlen := h.laid.length_gaps (by decide)
  refine subaFind_around (h.leads hg) (h.before_small hg fun x hx => ?_) (h.addr hmem) ?_
    ((h.tail_iff hg).mpr rfl) ?_
  · exact hsmall x (hg ▸ List.mem_append_left _ hx)
  · rw [h.header g (List.mem_append_right _ hmem)]
    exact hsmall g hmem
  · have heq : (s.gaps cs).length = pre.length + 1 := by
      rw [hg, List.length_append, List.length_singleton]
    unfold Allocator.gaps at heq
    omega

/-- What handing out `new` makes of the allocator. -/
structure Handed (s s' : Allocator) (cs : List Cell) (new : Cell) (cs' : List Cell) : Prop where
  list : FreeList s' cs'
  keeps : ∀ c ∈ cs, ∀ a, c.ref ≤ a → a < Gaps.stop poff c → s'.word a = s.word a
  size : s'.size = s.size
  mincell : s'.mincell = s.mincell
  allocTotal : s'.allocTotal = s.allocTotal + (poff + new.size)
  freeTotal : s'.freeTotal = s.freeTotal

theorem keeps_cell (h : FreeList s cs) (hg : s.gaps cs = pre ++ g :: post)
    (he : Edit s s' p g.ref (Gaps.stop poff g)) (hp : (pre.map Cell.ref).getLastD s.tail = p)
    (hc : c ∈ cs) {a : Nat} (hlo : c.ref ≤ a) (hhi : a < Gaps.stop poff c) :
    s'.word a = s.word a := by
  have hexists := h.exists_before hg
  rw [hp] at hexists
  refine h.edit_word he hexists (List.mem_append_left _ hc) (h.laid.apart_gap hg (Or.inl hc)) hlo
    hhi ?_
  intro heq
  obtain ⟨x, hx, href⟩ := hexists
  have hapart := h.laid.gap_apart hx hc
  unfold Gaps.stop poff at hapart
  omega

theorem handed {s₁ : Allocator} (h : FreeList s₁ cs') (hsize : s₁.cellSize new.ref = new.size)
    (he : Edit s s₁ p lo hi)
    (hkeeps : ∀ c ∈ cs, ∀ a, c.ref ≤ a → a < Gaps.stop poff c → s₁.word a = s.word a) :
    Handed s (s₁.used new.ref size) cs new cs' where
  list := h.totals _ _ _
  keeps := hkeeps
  size := he.size
  mincell := he.mincell
  allocTotal := by
    show s₁.allocTotal + (poff + s₁.cellSize new.ref) = _
    rw [he.allocTotal, hsize]
  freeTotal := he.freeTotal

/-- `suba_alloc` is first fit. -/
theorem alloc (h : FreeList s cs) (size : Nat) :
    Gaps.place poff s.mincell (s.rounded size) hdrsiz cs s.size = none ∧
        subaAlloc s size = some (none, s) ∨
      ∃ new cs' s', Gaps.place poff s.mincell (s.rounded size) hdrsiz cs s.size = some (new, cs') ∧
        subaAlloc s size = some (some (new.ref + poff), s') ∧ Handed s s' cs new cs' := by
  have hn : s.mincell ≤ s.rounded size := by
    unfold Allocator.rounded align
    split <;> omega
  cases hfind : (s.gaps cs).find? fun g => s.rounded size ≤ g.size with
  | none =>
      have hsmall : ∀ x ∈ s.gaps cs, x.size < s.rounded size := fun x hx => by
        simpa using List.find?_eq_none.mp hfind x hx
      refine Or.inl ⟨h.laid.place_eq_none (by decide) hsmall, ?_⟩
      unfold subaAlloc
      rw [h.subaFind_no_gap hsmall]
      rfl
  | some g =>
      obtain ⟨hle, pre, post, hg, hpre⟩ := List.find?_eq_some_iff_append.mp hfind
      have hle : s.rounded size ≤ g.size := by simpa using hle
      have hpre : ∀ x ∈ pre, x.size < s.rounded size := fun x hx => by simpa using hpre x hx
      have hmem : g ∈ cs ++ s.gaps cs :=
        List.mem_append_right _ (hg ▸ List.mem_append_right _ List.mem_cons_self)
      have hcell := h.subaFind_gap hg hpre hle
      have hnext := (h.leads hg).next_last
      generalize hp : (pre.map Cell.ref).getLastD s.tail = p at hcell hnext
      have halloc : subaAlloc s size = some (subaTake s p g.ref size) := by
        unfold subaAlloc
        rw [hcell]
        rfl
      have hsize := h.header g hmem
      rw [halloc]
      unfold subaTake
      dsimp only
      rw [hsize, hnext]
      cases h.laid.taken s.mincell (by decide) hg hpre hle with
      | front hlt cs' hplace hgaps =>
          obtain ⟨hlaid, hperm, -⟩ := h.laid.place hplace
          have he : Edit s (subaSplit s p g.ref (s.rounded size)) p g.ref (Gaps.stop poff g) :=
            subaSplit_edit p (by unfold Gaps.stop poff at *; omega)
          rw [if_pos hlt]
          refine Or.inr ⟨⟨g.ref, s.rounded size⟩, cs', _, hplace, rfl, ?_⟩
          have hused : (subaSplit s p g.ref (s.rounded size)).cellSize
              (Cell.mk g.ref (s.rounded size)).ref = s.rounded size := subaSplit_used s p g.ref _
          exact (h.split hg hn hlt hp hlaid hperm hgaps).handed hused he
            fun c hc a hlo hhi => h.keeps_cell hg he hp hc hlo hhi
      | whole hle hlast cs' hplace hgaps =>
          obtain ⟨hlaid, hperm, -⟩ := h.laid.place hplace
          have htail : g.ref ≠ s.tail := fun heq => hlast ((h.tail_iff hg).mp heq)
          have he : Edit s (s.setNext p (s.next g.ref)) p g.ref (Gaps.stop poff g) :=
            (Edit.refl s p _ _).store (Or.inl rfl)
          have hwhole := h.whole hg hlast hp hlaid hperm hgaps
          have hmem' : g ∈ cs' ++ (s.setNext p (s.next g.ref)).gaps cs' :=
            List.mem_append_left _ (hperm.mem_iff.mpr List.mem_cons_self)
          rw [if_neg (Nat.not_lt.mpr hle), if_neg htail]
          refine Or.inr ⟨g, cs', _, hplace, rfl, hwhole.handed (hwhole.header g hmem') he ?_⟩
          exact fun c hc a hlo hhi => h.keeps_cell hg he hp hc hlo hhi
      | last hle hlast hplace =>
          rw [if_neg (Nat.not_lt.mpr hle), if_pos ((h.tail_iff hg).mpr hlast)]
          exact Or.inl ⟨hplace, rfl⟩

end FreeList

end KogmoRtdb
