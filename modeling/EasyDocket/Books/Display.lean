import EasyDocket.Books.Rows
import EasyDocket.Books.Tree

/-!
# The tree on display

`buildTree` shows a category at the top, or under a category that has no parent.  Whatever the parents are, every category
in scope is shown once (`buildTree_complete`).
-/

namespace EasyDocket

namespace Books

variable {T : Text} {categories other scope : List Category} {kind : Option CategoryKind} {a b c p : Category}

/-- The categories of a kind, or all. -/
def inScope (categories : List Category) (kind : Option CategoryKind) : List Category :=
  match kind with
  | some kind => categories.filter (fun c : Category => c.kind = kind)
  | none => categories

/-- The categories at the top. -/
def topLevel (scope : List Category) : List Category := scope.filter (fun c => (shownUnder scope c).isNone)

/-- The categories that are shown under an id. -/
def childrenOf (scope : List Category) (id : JsString) : List Category :=
  scope.filter (fun c => (shownUnder scope c).map Category.id = some id)

theorem buildTree_eq : buildTree T categories kind =
    (sortCategories T (topLevel (inScope categories kind))).map
      (fun c => ⟨c, sortCategories T (childrenOf (inScope categories kind) c.id)⟩) := rfl

theorem nodup_inScope (hids : (categories.map Category.id).Nodup) (kind : Option CategoryKind) :
    ((inScope categories kind).map Category.id).Nodup := by
  cases kind with
  | none => exact hids
  | some kind => exact hids.sublist ((List.filter_sublist).map Category.id)

theorem inScope_perm (h : other.Perm categories) (kind : Option CategoryKind) :
    (inScope other kind).Perm (inScope categories kind) := by
  cases kind with
  | none => exact h
  | some kind => exact h.filter _

/-! ## The loop -/

/-- What the loop has put at the top, and under the ids of parents. -/
structure Placing where
  roots : List Category
  children : OrderedMap JsString (List Category)

/-- The body of the loop of `buildTree`. -/
def Placing.next (scope : List Category) (s : Placing) (category : Category) : Placing :=
  match (truthy category.parentId).bind (byId scope).get? with
  | none => { s with roots := s.roots ++ [category] }
  | some parent =>
    -- A subcategory of a subcategory is not a thing this model has.
    if parent.parentId ≠ none then { s with roots := s.roots ++ [category] }
    else { s with children := s.children.set parent.id ((s.children.get? parent.id).getD [] ++ [category]) }

theorem Placing.next_of_none {s : Placing} (h : shownUnder scope c = none) :
    s.next scope c = { s with roots := s.roots ++ [c] } := by
  unfold shownUnder at h
  unfold Placing.next
  cases hparent : (truthy c.parentId).bind (byId scope).get? with
  | none => rfl
  | some parent =>
    rw [hparent] at h
    have hne : parent.parentId ≠ none := by
      intro hnone
      rw [Option.filter_some, if_pos (decide_eq_true hnone)] at h
      cases h
    exact if_pos hne

theorem Placing.next_of_some {s : Placing} (h : shownUnder scope c = some p) :
    s.next scope c = { s with children := s.children.set p.id ((s.children.get? p.id).getD [] ++ [c]) } := by
  unfold shownUnder at h
  obtain ⟨hparent, hnone⟩ := Option.filter_eq_some_iff.mp h
  unfold Placing.next
  rw [hparent]
  exact if_neg (not_not.mpr (of_decide_eq_true hnone))

/-- What the loop fills, by induction on the categories it has seen. -/
theorem placing_eq (scope : List Category) : ∀ (seen : List Category),
    (seen.foldl (Placing.next scope) ⟨[], .empty⟩).roots = seen.filter (fun c => (shownUnder scope c).isNone) ∧
      ∀ id, ((seen.foldl (Placing.next scope) ⟨[], .empty⟩).children.get? id).getD [] =
        seen.filter (fun c => (shownUnder scope c).map Category.id = some id) := by
  intro seen
  induction seen using List.reverseRecOn with
  | nil => exact ⟨rfl, fun id => rfl⟩
  | append_singleton seen c ih =>
    obtain ⟨hroots, hchildren⟩ := ih
    rw [List.foldl_append, List.foldl_cons, List.foldl_nil]
    cases hshown : shownUnder scope c with
    | none =>
      rw [Placing.next_of_none hshown]
      refine ⟨?_, fun id => ?_⟩
      · simp [hroots, hshown]
      · simp [hchildren id, hshown]
    | some p =>
      rw [Placing.next_of_some hshown]
      refine ⟨?_, fun id => ?_⟩
      · simp [hroots, hshown]
      · show ((OrderedMap.set _ _ _).get? id).getD [] = _
        rw [OrderedMap.get?_set, hchildren p.id]
        by_cases hid : id = p.id
        · simp [hid, hshown]
        · rw [if_neg hid, hchildren id]
          simp [hshown, Ne.symm hid]

/-- The tree that the loop leads to. -/
theorem buildTree_eq_loop : buildTree T categories kind =
    (sortCategories T ((inScope categories kind).foldl (Placing.next (inScope categories kind)) ⟨[], .empty⟩).roots).map
      (fun c => ⟨c, sortCategories T ((((inScope categories kind).foldl (Placing.next (inScope categories kind))
        ⟨[], .empty⟩).children.get? c.id).getD [])⟩) := by
  rw [buildTree_eq, (placing_eq _ _).1]
  refine List.map_congr_left (fun c _ => ?_)
  rw [(placing_eq _ _).2]
  rfl

/-! ## Where a category is shown -/

theorem shownUnder_eq_some (hids : (scope.map Category.id).Nodup) :
    shownUnder scope c = some p ↔ p ∈ scope ∧ truthy c.parentId = some p.id ∧ p.parentId = none := by
  unfold shownUnder
  rw [Option.filter_eq_some_iff, Option.bind_eq_some_iff, decide_eq_true_eq]
  constructor
  · rintro ⟨⟨id, hid, hget⟩, hnone⟩
    obtain ⟨hp, rfl⟩ := (get?_byId hids).mp hget
    exact ⟨hp, hid, hnone⟩
  · rintro ⟨hp, hid, hnone⟩
    exact ⟨⟨p.id, hid, (get?_byId hids).mpr ⟨hp, rfl⟩⟩, hnone⟩

/-- What has no parent is at the top. -/
theorem shownUnder_of_parentless (h : c.parentId = none) : shownUnder scope c = none := by
  unfold shownUnder
  rw [h]
  rfl

theorem mem_topLevel : c ∈ topLevel scope ↔ c ∈ scope ∧ shownUnder scope c = none := by
  unfold topLevel
  rw [List.mem_filter, Option.isNone_iff_eq_none]

theorem mem_childrenOf {id : JsString} :
    c ∈ childrenOf scope id ↔ c ∈ scope ∧ ∃ p, shownUnder scope c = some p ∧ p.id = id := by
  unfold childrenOf
  rw [List.mem_filter, decide_eq_true_eq, Option.map_eq_some_iff]

/-- Every category in scope is at the top, or under one that is. -/
theorem mem_topLevel_or (hids : (scope.map Category.id).Nodup) (hc : c ∈ scope) :
    c ∈ topLevel scope ∨ ∃ r ∈ topLevel scope, c ∈ childrenOf scope r.id := by
  cases hshown : shownUnder scope c with
  | none => exact Or.inl (mem_topLevel.mpr ⟨hc, hshown⟩)
  | some p =>
    obtain ⟨hp, -, hnone⟩ := (shownUnder_eq_some hids).mp hshown
    refine Or.inr ⟨p, mem_topLevel.mpr ⟨hp, shownUnder_of_parentless hnone⟩, ?_⟩
    exact mem_childrenOf.mpr ⟨hc, p, hshown, rfl⟩

/-- The tree without its structure. -/
theorem nodup_shown (hids : (scope.map Category.id).Nodup) :
    ((topLevel scope).flatMap (fun r => r :: childrenOf scope r.id)).Nodup := by
  have hscope : scope.Nodup := hids.of_map
  have htop : ((topLevel scope).map Category.id).Nodup := hids.sublist (List.filter_sublist.map _)
  refine List.nodup_flatMap.mpr ⟨fun r hr => ?_, ?_⟩
  · refine List.nodup_cons.mpr ⟨fun hin => ?_, hscope.filter _⟩
    obtain ⟨-, p, hshown, -⟩ := mem_childrenOf.mp hin
    rw [(mem_topLevel.mp hr).2] at hshown
    cases hshown
  · refine List.Pairwise.imp_of_mem (fun {r s} hr hs hne => ?_) (List.pairwise_map.mp htop)
    intro x hx hy
    rcases List.mem_cons.mp hx with rfl | hx <;> rcases List.mem_cons.mp hy with rfl | hy
    · exact hne rfl
    · obtain ⟨-, p, hshown, -⟩ := mem_childrenOf.mp hy
      rw [(mem_topLevel.mp hr).2] at hshown
      cases hshown
    · obtain ⟨-, p, hshown, -⟩ := mem_childrenOf.mp hx
      rw [(mem_topLevel.mp hs).2] at hshown
      cases hshown
    · obtain ⟨-, p, hshown, hp⟩ := mem_childrenOf.mp hx
      obtain ⟨-, q, hshown', hq⟩ := mem_childrenOf.mp hy
      rw [hshown] at hshown'
      cases hshown'
      exact hne (hp.symm.trans hq)

theorem shown_perm (hids : (scope.map Category.id).Nodup) :
    ((topLevel scope).flatMap (fun r => r :: childrenOf scope r.id)).Perm scope := by
  refine (List.perm_ext_iff_of_nodup (nodup_shown hids) hids.of_map).mpr (fun c => ?_)
  rw [List.mem_flatMap]
  constructor
  · rintro ⟨r, hr, hc⟩
    rcases List.mem_cons.mp hc with rfl | hc
    · exact (mem_topLevel.mp hr).1
    · exact (mem_childrenOf.mp hc).1
  · intro hc
    rcases mem_topLevel_or hids hc with hc | ⟨r, hr, hc⟩
    · exact ⟨c, hc, List.mem_cons_self⟩
    · exact ⟨r, hr, List.mem_cons_of_mem _ hc⟩

/-! ## The order of siblings -/

theorem sortCategories_perm (l : List Category) : (sortCategories T l).Perm l := List.perm_insertionSort _ _

/-- Texts are compared by a total order, in which no two are equal. -/
structure Text.Collates (T : Text) : Prop extends T.Orders where
  eq_zero : ∀ a b, T.localeCompare a b = 0 ↔ a = b

section Sorted

variable (hT : T.Collates)

include hT

theorem compareCategories_le_iff : compareCategories T a b ≤ 0 ↔
    a.name ≠ b.name ∧ T.localeCompare a.name b.name ≤ 0 ∨ a.name = b.name ∧ T.localeCompare a.id b.id ≤ 0 := by
  unfold compareCategories
  by_cases h : a.name = b.name
  · rw [if_neg (not_not.mpr ((hT.eq_zero _ _).mpr h))]
    exact ⟨fun hle => Or.inr ⟨h, hle⟩, fun hor => hor.elim (fun hl => absurd h hl.1) And.right⟩
  · rw [if_pos (fun hz => h ((hT.eq_zero _ _).mp hz))]
    exact ⟨fun hle => Or.inl ⟨h, hle⟩, fun hor => hor.elim And.right (fun hr => absurd hr.1 h)⟩

theorem compareCategories_total (a b : Category) : compareCategories T a b ≤ 0 ∨ compareCategories T b a ≤ 0 := by
  rw [compareCategories_le_iff hT, compareCategories_le_iff hT]
  by_cases h : a.name = b.name
  · exact (hT.total a.id b.id).imp (fun hle => Or.inr ⟨h, hle⟩) (fun hle => Or.inr ⟨h.symm, hle⟩)
  · exact (hT.total a.name b.name).imp (fun hle => Or.inl ⟨h, hle⟩) (fun hle => Or.inl ⟨Ne.symm h, hle⟩)

theorem compareCategories_trans (hab : compareCategories T a b ≤ 0) (hbc : compareCategories T b c ≤ 0) :
    compareCategories T a c ≤ 0 := by
  rw [compareCategories_le_iff hT] at hab hbc ⊢
  rcases hab with ⟨hne, hab⟩ | ⟨heq, hab⟩ <;> rcases hbc with ⟨hne', hbc⟩ | ⟨heq', hbc⟩
  · refine Or.inl ⟨fun hac => hne ?_, hT.trans _ _ _ hab hbc⟩
    exact hT.antisymm _ _ hab (hac ▸ hbc)
  · exact Or.inl ⟨heq' ▸ hne, heq' ▸ hab⟩
  · exact Or.inl ⟨heq ▸ hne', heq ▸ hbc⟩
  · exact Or.inr ⟨heq.trans heq', hT.trans _ _ _ hab hbc⟩

theorem compareCategories_antisymm (hab : compareCategories T a b ≤ 0) (hba : compareCategories T b a ≤ 0) : a.id = b.id := by
  rw [compareCategories_le_iff hT] at hab hba
  rcases hab with ⟨hne, hab⟩ | ⟨heq, hab⟩ <;> rcases hba with ⟨hne', hba⟩ | ⟨heq', hba⟩
  · exact absurd (hT.antisymm _ _ hab hba) hne
  · exact absurd heq'.symm hne
  · exact absurd heq.symm hne'
  · exact hT.antisymm _ _ hab hba

/-- Siblings are sorted alike, whatever their order was. -/
theorem sortCategories_eq {l l' : List Category} (h : l.Perm l') (hids : (l'.map Category.id).Nodup) :
    sortCategories T l = sortCategories T l' := by
  have : Std.Total (fun a b : Category => compareCategories T a b ≤ 0) := ⟨compareCategories_total hT⟩
  have : IsTrans Category (fun a b => compareCategories T a b ≤ 0) := ⟨fun _ _ _ => compareCategories_trans hT⟩
  have hperm : (sortCategories T l).Perm (sortCategories T l') :=
    (sortCategories_perm l).trans (h.trans (sortCategories_perm l').symm)
  refine List.Perm.eq_of_pairwise (fun a b ha hb hab hba => ?_) (List.pairwise_insertionSort _ l)
    (List.pairwise_insertionSort _ l') hperm
  have ha' : a ∈ l' := h.mem_iff.mp ((sortCategories_perm l).mem_iff.mp ha)
  have hb' : b ∈ l' := (sortCategories_perm l').mem_iff.mp hb
  exact List.inj_on_of_nodup_map hids ha' hb' (compareCategories_antisymm hT hab hba)

end Sorted

theorem shownUnder_perm (h : other.Perm scope) (hids : (scope.map Category.id).Nodup) (c : Category) :
    shownUnder other c = shownUnder scope c := by
  have hids' : (other.map Category.id).Nodup := (h.map _).nodup_iff.mpr hids
  refine Option.ext (fun p => ?_)
  rw [shownUnder_eq_some hids', shownUnder_eq_some hids, h.mem_iff]

theorem topLevel_perm (h : other.Perm scope) (hids : (scope.map Category.id).Nodup) :
    (topLevel other).Perm (topLevel scope) := by
  unfold topLevel
  simp only [shownUnder_perm h hids]
  exact h.filter _

theorem childrenOf_perm (h : other.Perm scope) (hids : (scope.map Category.id).Nodup) (id : JsString) :
    (childrenOf other id).Perm (childrenOf scope id) := by
  unfold childrenOf
  simp only [shownUnder_perm h hids]
  exact h.filter _

/-- Every category in scope is shown once, at the top or under its parent, and the order of the list makes no difference. -/
theorem buildTree_complete (T : Text) (categories : List Category) (kind : Option CategoryKind)
    (hids : (categories.map Category.id).Nodup) (hT : T.Collates) :
    ((buildTree T categories kind).flatMap (fun node => node.category :: node.children)).Perm (inScope categories kind) ∧
      (∀ node ∈ buildTree T categories kind, ∀ child ∈ node.children, child.parentId = some node.category.id) ∧
      ∀ other : List Category, other.Perm categories → buildTree T other kind = buildTree T categories kind := by
  have hscope := nodup_inScope hids kind
  refine ⟨?_, ?_, ?_⟩
  · rw [buildTree_eq, List.flatMap_map]
    refine List.Perm.trans ?_ (shown_perm hscope)
    refine ((sortCategories_perm _).flatMap_right _).trans ?_
    exact List.Perm.flatMap_left _ (fun c _ => (sortCategories_perm _).cons c)
  · intro node hnode child hchild
    rw [buildTree_eq] at hnode
    obtain ⟨c, -, rfl⟩ := List.mem_map.mp hnode
    obtain ⟨-, p, hshown, hp⟩ := mem_childrenOf.mp ((sortCategories_perm _).mem_iff.mp hchild)
    obtain ⟨-, htruthy, -⟩ := (shownUnder_eq_some hscope).mp hshown
    have hparent : child.parentId = some p.id := (Option.filter_eq_some_iff.mp htruthy).1
    rw [hparent, hp]
  · intro other hperm
    have hinScope := inScope_perm hperm kind
    rw [buildTree_eq, buildTree_eq,
      sortCategories_eq hT (topLevel_perm hinScope hscope) (hscope.sublist (List.filter_sublist.map _))]
    refine List.map_congr_left (fun c _ => ?_)
    rw [sortCategories_eq hT (childrenOf_perm hinScope hscope c.id) (hscope.sublist (List.filter_sublist.map _))]

/-- Texts compared by their codes. -/
theorem ascii_collates : ascii.Collates where
  total a b := by
    simp only [ascii]
    rcases lt_trichotomy a b with h | h | h
    · rw [if_pos h]
      exact Or.inl (by decide)
    · rw [if_neg (h ▸ lt_irrefl _), if_neg (h ▸ lt_irrefl _)]
      exact Or.inl le_rfl
    · rw [if_pos h, if_neg (lt_asymm h), if_pos h]
      exact Or.inr (by decide)
  trans a b c hab hbc := by
    have hle : ∀ x y : JsString, ascii.localeCompare x y ≤ 0 ↔ ¬ y < x := by
      intro x y
      simp only [ascii]
      split_ifs with h h'
      · exact iff_of_true (by decide) (lt_asymm h)
      · exact iff_of_false (by decide) (not_not.mpr h')
      · exact iff_of_true (by decide) h'
    rw [hle] at hab hbc ⊢
    exact not_lt.mpr ((not_lt.mp hab).trans (not_lt.mp hbc))
  antisymm a b hab hba := by
    simp only [ascii] at hab hba
    rcases lt_trichotomy a b with h | h | h
    · rw [if_neg (lt_asymm h), if_pos h] at hba
      exact absurd hba (by decide)
    · exact h
    · rw [if_neg (lt_asymm h), if_pos h] at hab
      exact absurd hab (by decide)
  eq_zero a b := by
    simp only [ascii]
    rcases lt_trichotomy a b with h | h | h
    · rw [if_pos h]
      exact iff_of_false (by decide) (ne_of_lt h)
    · rw [if_neg (h ▸ lt_irrefl _), if_neg (h ▸ lt_irrefl _)]
      exact iff_of_true rfl h
    · rw [if_neg (lt_asymm h), if_pos h]
      exact iff_of_false (by decide) (ne_of_gt h)

/-- A root, a child, a grandchild, an orphan, and a category that is its own parent. -/
def tangled : List Category :=
  [⟨js "g", js "Tuesday", .expense, some (js "l")⟩, ⟨js "l", js "Lunch", .expense, some (js "f")⟩,
    ⟨js "f", js "Food", .expense, none⟩, ⟨js "o", js "Orphan", .income, some (js "x")⟩,
    ⟨js "s", js "Self", .expense, some (js "s")⟩]

theorem buildTree_complete_tangled :
    ((buildTree ascii tangled none).flatMap (fun node => node.category :: node.children)).Perm tangled ∧
      (∀ node ∈ buildTree ascii tangled none, ∀ child ∈ node.children, child.parentId = some node.category.id) ∧
      ∀ other : List Category, other.Perm tangled → buildTree ascii other none = buildTree ascii tangled none :=
  buildTree_complete ascii tangled none (by decide) ascii_collates

end Books

end EasyDocket
