import Mathlib.Data.List.Nodup
import Mathlib.Logic.Relation
import Mathlib.Order.WellFoundedSet

/-!
# Walks in preorder

A walk goes from a list of nodes through all that is below them, in preorder and without any
marks: what hangs below two nodes is visited twice, and a walk into a cycle does not end.
`Walk kids vs out` says that the walk from `vs` ends and visits `out`.

`Sweep` walks from every node of a list that has not been visited by then. Where each node has at
most one parent, `walksOnce_iff` says when a walk from a root and a sweep over all nodes together
visit every node once.
-/

namespace TreeWalk

open Relation

variable {α : Type} {kids : α → List α} {vs vs' out out' : List α} {v x y : α}

/-- `b` is a child of `a`. -/
def Child (kids : α → List α) (a b : α) : Prop := b ∈ kids a

def Top (kids : α → List α) (t : α) : Prop := ∀ p, ¬ Child kids p t

/-- What is closed under children has with a node all that is below it. -/
theorem mem_of_closed {s : List α} (hs : ∀ a ∈ s, ∀ b, Child kids a b → b ∈ s) (hx : x ∈ s)
    (hxy : ReflTransGen (Child kids) x y) : y ∈ s := by
  induction hxy with
  | refl => exact hx
  | tail _ hab ih => exact hs _ ih _ hab

inductive Walk (kids : α → List α) : List α → List α → Prop where
  | nil : Walk kids [] []
  | cons {v : α} {vs sub rest : List α} :
      Walk kids (kids v) sub → Walk kids vs rest → Walk kids (v :: vs) (v :: (sub ++ rest))

namespace Walk

theorem unique (h : Walk kids vs out) (h' : Walk kids vs out') : out = out' := by
  induction h generalizing out' with
  | nil =>
      cases h'
      rfl
  | cons _ _ ihsub ihrest =>
      cases h' with
      | cons hsub hrest => rw [ihsub hsub, ihrest hrest]

theorem root_mem (h : Walk kids vs out) (hx : x ∈ vs) : x ∈ out := by
  induction h with
  | nil => cases hx
  | cons _ _ _ ih =>
      rcases List.mem_cons.mp hx with rfl | hx
      · exact List.mem_cons_self
      · exact List.mem_cons_of_mem _ (List.mem_append_right _ (ih hx))

theorem closed (h : Walk kids vs out) (hx : x ∈ out) (hxy : Child kids x y) : y ∈ out := by
  induction h with
  | nil => cases hx
  | cons hsub _ ihsub ihrest =>
      rcases List.mem_cons.mp hx with rfl | hx
      · exact List.mem_cons_of_mem _ (List.mem_append_left _ (hsub.root_mem hxy))
      · rcases List.mem_append.mp hx with hx | hx
        · exact List.mem_cons_of_mem _ (List.mem_append_left _ (ihsub hx))
        · exact List.mem_cons_of_mem _ (List.mem_append_right _ (ihrest hx))

/-- What is visited is what is below the nodes of the list. -/
theorem mem_iff (h : Walk kids vs out) :
    x ∈ out ↔ ∃ v ∈ vs, ReflTransGen (Child kids) v x := by
  constructor
  · intro hx
    induction h with
    | nil => cases hx
    | @cons v vs _ _ _ _ ihsub ihrest =>
        rcases List.mem_cons.mp hx with rfl | hx
        · exact ⟨x, List.mem_cons_self, .refl⟩
        · rcases List.mem_append.mp hx with hx | hx
          · obtain ⟨u, hu, hux⟩ := ihsub hx
            exact ⟨v, List.mem_cons_self, .head hu hux⟩
          · obtain ⟨u, hu, hux⟩ := ihrest hx
            exact ⟨u, List.mem_cons_of_mem _ hu, hux⟩
  · rintro ⟨v, hv, hvx⟩
    exact mem_of_closed (fun _ ha _ hab => h.closed ha hab) (h.root_mem hv) hvx

/-- A node that is visited has a walk of its own, which is shorter. -/
theorem of_mem (h : Walk kids vs out) (hx : x ∈ out) :
    ∃ sub, Walk kids (kids x) sub ∧ sub.length < out.length := by
  induction h with
  | nil => cases hx
  | @cons v vs sub rest hsub _ ihsub ihrest =>
      have hlen : (v :: (sub ++ rest)).length = sub.length + rest.length + 1 := by simp
      rcases List.mem_cons.mp hx with rfl | hx
      · exact ⟨sub, hsub, by omega⟩
      · rcases List.mem_append.mp hx with hx | hx
        · obtain ⟨sub', hsub', hlt⟩ := ihsub hx
          exact ⟨sub', hsub', by omega⟩
        · obtain ⟨sub', hsub', hlt⟩ := ihrest hx
          exact ⟨sub', hsub', by omega⟩

theorem acyclic (h : Walk kids vs out) (hx : x ∈ out) : ¬ TransGen (Child kids) x x := by
  intro hcycle
  obtain ⟨sub, hsub, -⟩ := h.of_mem hx
  obtain ⟨u, hu, hux⟩ := TransGen.head'_iff.mp hcycle
  obtain ⟨sub', hsub', hlt⟩ := hsub.of_mem (hsub.mem_iff.mpr ⟨u, hu, hux⟩)
  rw [hsub.unique hsub'] at hlt
  exact Nat.lt_irrefl _ hlt

theorem append (h : Walk kids vs out) (h' : Walk kids vs' out') :
    Walk kids (vs ++ vs') (out ++ out') := by
  induction h with
  | nil => exact h'
  | cons hsub _ _ ih =>
      rw [List.cons_append, List.cons_append, List.append_assoc]
      exact .cons hsub ih

end Walk

/-! ## Forests -/

/-- Each node has at most one parent, and this has it once. -/
structure Forest (kids : α → List α) : Prop where
  parent : ∀ a b x, Child kids a x → Child kids b x → a = b
  nodup : ∀ a, (kids a).Nodup

def Apart (kids : α → List α) (a b : α) : Prop :=
  ¬ ReflTransGen (Child kids) a b ∧ ¬ ReflTransGen (Child kids) b a

/-- Of two nodes above a third one is above the other. -/
theorem Forest.above (hf : Forest kids) {a b : α} (ha : ReflTransGen (Child kids) a x)
    (hb : ReflTransGen (Child kids) b x) :
    ReflTransGen (Child kids) a b ∨ ReflTransGen (Child kids) b a := by
  induction ha with
  | refl => exact Or.inr hb
  | tail hac hcx ih =>
      rcases ReflTransGen.cases_tail hb with rfl | ⟨d, hbd, hdx⟩
      · exact Or.inl (hac.tail hcx)
      · obtain rfl := hf.parent _ _ _ hcx hdx
        exact ih hbd

/-- Only the node itself is above one without a parent. -/
theorem Top.eq {t : α} (ht : Top kids t) (hxt : ReflTransGen (Child kids) x t) : x = t := by
  rcases ReflTransGen.cases_tail hxt with rfl | ⟨p, -, hp⟩
  · rfl
  · exact absurd hp (ht p)

/-- The children of a node that is on no cycle are apart. -/
theorem Forest.kids_apart (hf : Forest kids) (hv : ¬ TransGen (Child kids) v v) {a b : α}
    (ha : a ∈ kids v) (hb : b ∈ kids v) (hne : a ≠ b) : ¬ ReflTransGen (Child kids) a b := by
  intro hab
  rcases ReflTransGen.cases_tail hab with rfl | ⟨c, hac, hcb⟩
  · exact hne rfl
  · obtain rfl := hf.parent _ _ _ hb hcb
    exact hv (TransGen.head' ha hac)

/-- From nodes that are apart a walk visits no node twice. -/
theorem Walk.nodup (hf : Forest kids) (h : Walk kids vs out) (hvs : vs.Pairwise (Apart kids)) :
    out.Nodup := by
  induction h with
  | nil => exact List.nodup_nil
  | @cons v vs sub rest hsub hrest ihsub ihrest =>
      have hacyclic := (Walk.cons hsub .nil).acyclic (x := v) List.mem_cons_self
      obtain ⟨hv, hvs⟩ := List.pairwise_cons.mp hvs
      have hkids : (kids v).Pairwise (Apart kids) :=
        (hf.nodup v).imp_of_mem fun {a b} ha hb hne =>
          ⟨hf.kids_apart hacyclic ha hb hne, hf.kids_apart hacyclic hb ha hne.symm⟩
      -- what is below `v` is not below another of the nodes
      have hdisjoint : ∀ x, ReflTransGen (Child kids) v x → x ∉ rest := by
        intro x hvx hx
        obtain ⟨u, hu, hux⟩ := hrest.mem_iff.mp hx
        rcases hf.above hvx hux with hvu | huv
        · exact (hv u hu).1 hvu
        · exact (hv u hu).2 huv
      refine List.nodup_cons.mpr ⟨?_, ?_⟩
      · intro hmem
        rcases List.mem_append.mp hmem with hmem | hmem
        · obtain ⟨u, hu, huv⟩ := hsub.mem_iff.mp hmem
          exact hacyclic (TransGen.head' hu huv)
        · exact hdisjoint v .refl hmem
      · refine List.nodup_append.mpr ⟨ihsub hkids, ihrest hvs, fun a ha b hb heq => ?_⟩
        subst heq
        obtain ⟨u, hu, hua⟩ := hsub.mem_iff.mp ha
        exact hdisjoint a (.head hu hua) hb

/-! ## Without cycles -/

section Acyclic

variable {all : List α}

/-- The nodes of `all` are all that have parents or children, and none is on a cycle. -/
structure Acyclic (kids : α → List α) (all : List α) : Prop where
  mem : ∀ a b, Child kids a b → a ∈ all ∧ b ∈ all
  acyclic : ∀ x, ¬ TransGen (Child kids) x x

theorem Acyclic.strictOrder (h : Acyclic kids all) : IsStrictOrder α (TransGen (Child kids)) where
  irrefl := h.acyclic
  trans _ _ _ := TransGen.trans

theorem Acyclic.exists_top (h : Acyclic kids all) (hx : x ∈ all) :
    ∃ t ∈ all, ReflTransGen (Child kids) t x ∧ Top kids t := by
  have := h.strictOrder
  have hwf : {x | x ∈ all}.WellFoundedOn (TransGen (Child kids)) :=
    (List.finite_toSet all).wellFoundedOn
  refine hwf.induction
    (P := fun x => ∃ t ∈ all, ReflTransGen (Child kids) t x ∧ Top kids t)
    hx fun x hx ih => ?_
  by_cases hp : ∃ p, Child kids p x
  · obtain ⟨p, hp⟩ := hp
    obtain ⟨t, ht, htp, htop⟩ := ih p (h.mem p x hp).1 (.single hp)
    exact ⟨t, ht, htp.tail hp, htop⟩
  · exact ⟨x, hx, .refl, fun p hpx => hp ⟨p, hpx⟩⟩

theorem Acyclic.exists_walk (h : Acyclic kids all) (hvs : ∀ v ∈ vs, v ∈ all) :
    ∃ out, Walk kids vs out := by
  have hlist (vs : List α) (hvs : ∀ v ∈ vs, ∃ sub, Walk kids (kids v) sub) :
      ∃ out, Walk kids vs out := by
    induction vs with
    | nil => exact ⟨[], .nil⟩
    | cons v vs ih =>
        obtain ⟨sub, hsub⟩ := hvs v List.mem_cons_self
        obtain ⟨rest, hrest⟩ := ih fun u hu => hvs u (List.mem_cons_of_mem _ hu)
        exact ⟨_, .cons hsub hrest⟩
  have := h.strictOrder
  have hwf : {x | x ∈ all}.WellFoundedOn (Function.swap (TransGen (Child kids))) :=
    (List.finite_toSet all).wellFoundedOn
  refine hlist vs fun v hv => hwf.induction (P := fun x => ∃ sub, Walk kids (kids x) sub)
    (hvs v hv) fun x _ ih => ?_
  exact hlist (kids x) fun y hy => ih y (h.mem x y hy).2 (.single hy)

end Acyclic

/-! ## Sweeps -/

/-- From `done` on, a walk starts at each node of a list that has not been visited by then. -/
inductive Sweep (kids : α → List α) : List α → List α → List α → Prop where
  | nil {done : List α} : Sweep kids done [] []
  | skip {done todo out : List α} {x : α} :
      x ∈ done → Sweep kids done todo out → Sweep kids done (x :: todo) out
  | start {done todo sub out : List α} {x : α} :
      x ∉ done → Walk kids [x] sub → Sweep kids (done ++ sub) todo out →
        Sweep kids done (x :: todo) (sub ++ out)

namespace Sweep

variable {all done todo todo' : List α} {root : α}

theorem cover (h : Sweep kids done todo out) (hx : x ∈ todo) : x ∈ done ∨ x ∈ out := by
  induction h with
  | nil => cases hx
  | skip hdone _ ih =>
      rcases List.mem_cons.mp hx with rfl | hx
      · exact Or.inl hdone
      · exact ih hx
  | start _ hwalk _ ih =>
      rcases List.mem_cons.mp hx with rfl | hx
      · exact Or.inr (List.mem_append_left _ (hwalk.root_mem List.mem_cons_self))
      · rcases ih hx with hx | hx
        · exact (List.mem_append.mp hx).imp id (List.mem_append_left _)
        · exact Or.inr (List.mem_append_right _ hx)

theorem exists_start (h : Sweep kids done todo out) (hx : x ∈ out) :
    ∃ s ∈ todo, ReflTransGen (Child kids) s x ∧ ¬ TransGen (Child kids) x x := by
  induction h with
  | nil => cases hx
  | skip _ _ ih =>
      obtain ⟨s, hs, hsx⟩ := ih hx
      exact ⟨s, List.mem_cons_of_mem _ hs, hsx⟩
  | @start _ _ _ _ v _ hwalk _ ih =>
      rcases List.mem_append.mp hx with hx | hx
      · obtain ⟨u, hu, hux⟩ := hwalk.mem_iff.mp hx
        obtain rfl := List.mem_singleton.mp hu
        exact ⟨u, List.mem_cons_self, hux, hwalk.acyclic hx⟩
      · obtain ⟨s, hs, hsx⟩ := ih hx
        exact ⟨s, List.mem_cons_of_mem _ hs, hsx⟩

theorem closed (h : Sweep kids done todo out) (hx : x ∈ out) (hxy : Child kids x y) : y ∈ out := by
  induction h with
  | nil => cases hx
  | skip _ _ ih => exact ih hx
  | start _ hwalk _ ih =>
      rcases List.mem_append.mp hx with hx | hx
      · exact List.mem_append_left _ (hwalk.closed hx hxy)
      · exact List.mem_append_right _ (ih hx)

theorem split (h : Sweep kids done (todo ++ todo') out) :
    ∃ out₁ out₂, Sweep kids done todo out₁ ∧ Sweep kids (done ++ out₁) todo' out₂ ∧
      out = out₁ ++ out₂ := by
  induction todo generalizing done out with
  | nil => exact ⟨[], out, .nil, by rwa [List.append_nil], rfl⟩
  | cons v todo ih =>
      cases h with
      | skip hdone h =>
          obtain ⟨out₁, out₂, h₁, h₂, rfl⟩ := ih h
          exact ⟨out₁, out₂, .skip hdone h₁, h₂, rfl⟩
      | start hdone hwalk h =>
          obtain ⟨out₁, out₂, h₁, h₂, rfl⟩ := ih h
          exact ⟨_, out₂, .start hdone hwalk h₁, by rwa [← List.append_assoc],
            (List.append_assoc ..).symm⟩

theorem exists_of_acyclic (h : Acyclic kids all) (htodo : ∀ x ∈ todo, x ∈ all) (done : List α) :
    ∃ out, Sweep kids done todo out := by
  induction todo generalizing done with
  | nil => exact ⟨[], .nil⟩
  | cons x todo ih =>
      have htodo' : ∀ y ∈ todo, y ∈ all := fun y hy => htodo y (List.mem_cons_of_mem _ hy)
      by_cases hdone : x ∈ done
      · obtain ⟨out, hout⟩ := ih htodo' done
        exact ⟨out, .skip hdone hout⟩
      · obtain ⟨sub, hsub⟩ := h.exists_walk fun y (hy : y ∈ [x]) =>
          List.mem_singleton.mp hy ▸ htodo x List.mem_cons_self
        obtain ⟨out, hout⟩ := ih htodo' (done ++ sub)
        exact ⟨_, .start hdone hsub hout⟩

end Sweep

/-! ## When every node is visited once -/

structure Trees (kids : α → List α) (done : List α) : Prop where
  nodup : done.Nodup
  closed : ∀ x ∈ done, ∀ y, Child kids x y → y ∈ done
  top : ∀ x ∈ done, ∃ t ∈ done, ReflTransGen (Child kids) t x ∧ Top kids t

theorem Trees.nil : Trees kids [] where
  nodup := List.nodup_nil
  closed _ h := absurd h List.not_mem_nil
  top _ h := absurd h List.not_mem_nil

theorem Trees.walk (hf : Forest kids) {done sub : List α} (h : Trees kids done) (hx : x ∉ done)
    (htop : Top kids x) (hwalk : Walk kids [x] sub) : Trees kids (done ++ sub) := by
  have hbelow : ∀ y ∈ sub, ReflTransGen (Child kids) x y := by
    intro y hy
    obtain ⟨u, hu, huy⟩ := hwalk.mem_iff.mp hy
    rwa [List.mem_singleton.mp hu] at huy
  refine ⟨List.nodup_append.mpr ⟨h.nodup, hwalk.nodup hf (List.pairwise_singleton _ x), ?_⟩,
    fun y hy z hyz => ?_, fun y hy => ?_⟩
  · intro y hy z hz heq
    subst heq
    -- the tops of two trees with a common node are the same
    obtain ⟨t, ht, hty, htt⟩ := h.top y hy
    rcases hf.above hty (hbelow y hz) with htx | hxt
    · exact hx (htop.eq htx ▸ ht)
    · exact hx (htt.eq hxt ▸ ht)
  · rcases List.mem_append.mp hy with hy | hy
    · exact List.mem_append_left _ (h.closed y hy z hyz)
    · exact List.mem_append_right _ (hwalk.closed hy hyz)
  · rcases List.mem_append.mp hy with hy | hy
    · obtain ⟨t, ht, hty⟩ := h.top y hy
      exact ⟨t, List.mem_append_left _ ht, hty⟩
    · exact ⟨x, List.mem_append_right _ (hwalk.root_mem List.mem_cons_self), hbelow y hy, htop⟩

section WalksOnce

variable {root : α} {all : List α}

/-- A walk from `root` and a sweep over `all` end, and together visit no node twice. -/
def WalksOnce (kids : α → List α) (root : α) (all : List α) : Prop :=
  ∃ out₀ out₁, Walk kids [root] out₀ ∧ Sweep kids out₀ all out₁ ∧ (out₀ ++ out₁).Nodup

/-- There are no cycles, nothing is above `root`, and what is not below `root` stands in `all`
behind the top of its tree. -/
structure TopsFirst (kids : α → List α) (root : α) (all : List α) : Prop where
  acyclic : ∀ x, ¬ TransGen (Child kids) x x
  top : Top kids root
  order : ∀ x t, ReflTransGen (Child kids) t x → Top kids t →
    ¬ ReflTransGen (Child kids) root x → ¬ [x, t].Sublist all

theorem topsFirst_of_walksOnce (hmem : ∀ a b, Child kids a b → a ∈ all ∧ b ∈ all)
    (hall : all.Nodup) (h : WalksOnce kids root all) : TopsFirst kids root all := by
  obtain ⟨out₀, out₁, hwalk, hsweep, hnodup⟩ := h
  have hdisjoint : ∀ x ∈ out₀, x ∉ out₁ := fun x h₀ h₁ =>
    (List.nodup_append.mp hnodup).2.2 x h₀ x h₁ rfl
  have hroot : root ∈ out₀ := hwalk.root_mem List.mem_cons_self
  have hbelow : ∀ x, x ∈ out₀ ↔ ReflTransGen (Child kids) root x := by
    intro x
    rw [hwalk.mem_iff]
    simp
  refine ⟨fun x hcycle => ?_, fun p hp => ?_, fun x t htx htop hx hsub => ?_⟩
  · obtain ⟨y, hxy, -⟩ := TransGen.head'_iff.mp hcycle
    rcases hsweep.cover (hmem x y hxy).1 with hx | hx
    · exact hwalk.acyclic hx hcycle
    · obtain ⟨-, -, -, hacyclic⟩ := hsweep.exists_start hx
      exact hacyclic hcycle
  · rcases hsweep.cover (hmem p root hp).1 with h₀ | h₁
    · exact hwalk.acyclic hroot (TransGen.tail' ((hbelow p).mp h₀) hp)
    · exact hdisjoint root hroot (hsweep.closed h₁ hp)
  · obtain ⟨before, behind, rfl, hxb, ht⟩ := List.cons_sublist_iff.mp hsub
    have ht := List.singleton_sublist.mp ht
    obtain ⟨outb, outa, hb, ha, rfl⟩ := hsweep.split
    have hxout : x ∈ outb := (hb.cover hxb).resolve_left fun h₀ => hx ((hbelow x).mp h₀)
    rcases ha.cover ht with hdone | hout
    · rcases List.mem_append.mp hdone with h₀ | hb'
      · exact hx (((hbelow t).mp h₀).trans htx)
      · obtain ⟨s, hs, hst, -⟩ := hb.exists_start hb'
        rw [htop.eq hst] at hs
        exact (List.nodup_append.mp hall).2.2 t hs t ht rfl
    · -- at its turn `t` has not been visited, and its walk comes to `x` again
      have hagain : x ∈ outa := mem_of_closed (fun _ hy _ hyz => ha.closed hy hyz) hout htx
      have hnodup' := (List.nodup_append.mp hnodup).2.1
      exact (List.nodup_append.mp hnodup').2.2 x hxout x hagain rfl

theorem TopsFirst.trees (hf : Forest kids) (hmem : ∀ a b, Child kids a b → a ∈ all ∧ b ∈ all)
    (h : TopsFirst kids root all) {pre done todo out : List α}
    (hsplit : pre ++ todo = all) (hpre : ∀ x ∈ pre, x ∈ done) (hroot : root ∈ done)
    (hdone : Trees kids done) (hsweep : Sweep kids done todo out) : Trees kids (done ++ out) := by
  induction hsweep generalizing pre with
  | nil => rwa [List.append_nil]
  | @skip done todo out x hx _ ih =>
      have hsplit' : (pre ++ [x]) ++ todo = all := by simp [hsplit]
      refine ih hsplit' (fun y hy => ?_) hroot hdone
      rcases List.mem_append.mp hy with hy | hy
      · exact hpre y hy
      · rwa [List.mem_singleton.mp hy]
  | @start done todo sub out x hx hwalk _ ih =>
      have hacyclic : Acyclic kids all := ⟨hmem, h.acyclic⟩
      have hxall : x ∈ all := hsplit ▸ List.mem_append_right _ List.mem_cons_self
      obtain ⟨t, ht, htx, htop⟩ := hacyclic.exists_top hxall
      have heq : t = x := by
        rw [← hsplit] at ht
        rcases List.mem_append.mp ht with hb | ha
        · exact absurd (mem_of_closed hdone.closed (hpre t hb) htx) hx
        · rcases List.mem_cons.mp ha with rfl | ha
          · rfl
          · refine absurd ?_ (h.order x t htx htop fun hrx =>
              hx (mem_of_closed hdone.closed hroot hrx))
            rw [← hsplit]
            exact (List.cons_sublist_cons.mpr (List.singleton_sublist.mpr ha)).trans
              (List.sublist_append_right ..)
      subst heq
      rw [← List.append_assoc]
      have hsplit' : (pre ++ [t]) ++ todo = all := by simp [hsplit]
      refine ih hsplit' (fun y hy => ?_) (List.mem_append_left _ hroot)
        (hdone.walk hf hx htop hwalk)
      rcases List.mem_append.mp hy with hy | hy
      · exact List.mem_append_left _ (hpre y hy)
      · rw [List.mem_singleton.mp hy]
        exact List.mem_append_right _ (hwalk.root_mem List.mem_cons_self)

theorem walksOnce_iff (hf : Forest kids) (hmem : ∀ a b, Child kids a b → a ∈ all ∧ b ∈ all)
    (hall : all.Nodup) (hroot : root ∈ all) :
    WalksOnce kids root all ↔ TopsFirst kids root all := by
  refine ⟨topsFirst_of_walksOnce hmem hall, fun h => ?_⟩
  have hacyclic : Acyclic kids all := ⟨hmem, h.acyclic⟩
  obtain ⟨out₀, hwalk⟩ := hacyclic.exists_walk fun v (hv : v ∈ [root]) =>
    List.mem_singleton.mp hv ▸ hroot
  obtain ⟨out₁, hsweep⟩ := Sweep.exists_of_acyclic hacyclic (fun _ hx => hx) out₀
  have htrees : Trees kids out₀ := Trees.nil.walk hf List.not_mem_nil h.top hwalk
  exact ⟨out₀, out₁, hwalk, hsweep, (h.trees hf hmem (List.nil_append all)
    (fun _ hx => absurd hx List.not_mem_nil) (hwalk.root_mem List.mem_cons_self) htrees
    hsweep).nodup⟩

end WalksOnce

end TreeWalk
