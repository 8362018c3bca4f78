import EasyDocket.Books.Domain
import EasyDocket.Lib.OrderedMap
import Mathlib.Data.Finset.Insert
import Mathlib.Data.Finset.Dedup

/-!
# Categories and their subcategories

A budget expands the categories it names (`withDescendants`), a report rolls every category up (`rootIds`).  `Flat` says
when the two agree on a category.
-/

namespace EasyDocket

namespace Books

section Tree

variable (T : Text)

/-- `compareCategories`: by name, then by id. -/
def compareCategories (a b : Category) : ℤ :=
  if T.localeCompare a.name b.name ≠ 0 then T.localeCompare a.name b.name else T.localeCompare a.id b.id

/-- A top-level category with its subcategories, in display order. -/
structure CategoryNode where
  category : Category
  children : List Category

/-- `sort`, which is stable. -/
def sortCategories (l : List Category) : List Category := l.insertionSort (fun a b => compareCategories T a b ≤ 0)

/-- `byId`: index a list by id. -/
def byId (categories : List Category) : OrderedMap JsString Category :=
  .ofList (categories.map (fun category => (category.id, category)))

/-- The parent under which `buildTree` shows a category, if it is not shown at the top. -/
def shownUnder (scope : List Category) (category : Category) : Option Category :=
  ((truthy category.parentId).bind (byId scope).get?).filter (fun parent => parent.parentId = none)

/-- `buildTree`. -/
def buildTree (categories : List Category) (kind : Option CategoryKind) : List CategoryNode :=
  let scope := match kind with
    | some kind => categories.filter (fun c : Category => c.kind = kind)
    | none => categories
  let roots := scope.filter (fun category => (shownUnder scope category).isNone)
  let children (id : JsString) := scope.filter (fun category => (shownUnder scope category).map Category.id = some id)
  (sortCategories T roots).map (fun category => ⟨category, sortCategories T (children category.id)⟩)

/-- `rootIdOf`. -/
def rootIdOf (categoryId : Option JsString) (categories : OrderedMap JsString Category) : Option JsString :=
  match categoryId with
  | none => none
  | some id =>
    match (categories.get? id).bind (fun category => truthy category.parentId) with
    | none => some id
    | some parentId => if (categories.get? parentId).isSome then some parentId else some id

/-- The body of the loop of `withDescendants`. -/
def addChild (wanted : Finset JsString) (category : Category) : Finset JsString :=
  match truthy category.parentId with
  | some parentId => if parentId ∈ wanted then insert category.id wanted else wanted
  | none => wanted

/-- `withDescendants`: expand a set of category ids to include every subcategory of each. -/
def withDescendants (ids : List JsString) (categories : List Category) : Finset JsString :=
  categories.foldl addChild ids.toFinset

/-- `rootIds`: a map from every category id to the top-level category it rolls up to. -/
def rootIds (categories : List Category) : OrderedMap JsString JsString :=
  .ofList (categories.map (fun category => (category.id, (rootIdOf (some category.id) (byId categories)).getD category.id)))

end Tree

section Descendants

variable {wanted : Finset JsString} {categories : List Category} {category c : Category} {p q id : JsString}

theorem addChild_eq : addChild wanted category =
    if ∃ q ∈ wanted, truthy category.parentId = some q then insert category.id wanted else wanted := by
  unfold addChild
  cases h : truthy category.parentId with
  | none => simp
  | some q => simp

theorem subset_addChild (wanted : Finset JsString) (category : Category) : wanted ⊆ addChild wanted category := by
  rw [addChild_eq]
  split_ifs
  · exact Finset.subset_insert _ _
  · exact Finset.Subset.refl _

theorem subset_foldl_addChild : ∀ (categories : List Category) (wanted : Finset JsString),
    wanted ⊆ categories.foldl addChild wanted
  | [], _ => Finset.Subset.refl _
  | c :: categories, wanted =>
    (subset_addChild wanted c).trans (subset_foldl_addChild categories (addChild wanted c))

/-- A child of what is wanted is wanted, wherever it is in the list. -/
theorem mem_foldl_addChild : ∀ (categories : List Category) (wanted : Finset JsString), c ∈ categories → q ∈ wanted →
    truthy c.parentId = some q → c.id ∈ categories.foldl addChild wanted
  | [], _, h, _, _ => absurd h List.not_mem_nil
  | x :: categories, wanted, h, hq, hparent => by
    rw [List.foldl_cons]
    rcases List.mem_cons.mp h with rfl | h
    · refine subset_foldl_addChild categories _ ?_
      rw [addChild_eq, if_pos ⟨q, hq, hparent⟩]
      exact Finset.mem_insert_self _ _
    · exact mem_foldl_addChild categories _ h (subset_addChild wanted x hq) hparent

/-- Between a child of `p` and whatever follows it nothing is a child of that child. -/
def NoGrandchild (p : JsString) (d e : Category) : Prop :=
  truthy d.parentId = some p → d.id ≠ p → truthy e.parentId ≠ some d.id

/-- What is wanted, when no child of `p` is followed by a child of its own; by induction on the rest of the list. -/
theorem mem_foldl_addChild_iff (p : JsString) : ∀ (done rest : List Category) (wanted : Finset JsString),
    (done ++ rest).Pairwise (NoGrandchild p) →
    (∀ id, id ∈ wanted ↔ id = p ∨ ∃ c ∈ done, c.id = id ∧ truthy c.parentId = some p) →
    ∀ id, id ∈ rest.foldl addChild wanted ↔ id = p ∨ ∃ c ∈ done ++ rest, c.id = id ∧ truthy c.parentId = some p
  | done, [], wanted, _, hw => by
    rw [List.append_nil]
    exact hw
  | done, x :: rest, wanted, hflat, hw => by
    have hassoc : done ++ x :: rest = (done ++ [x]) ++ rest := by simp
    have hnext : ∀ id, id ∈ addChild wanted x ↔ id = p ∨ ∃ c ∈ done ++ [x], c.id = id ∧ truthy c.parentId = some p := by
      intro id
      have hadds : (∃ q ∈ wanted, truthy x.parentId = some q) ↔ truthy x.parentId = some p := by
        constructor
        · rintro ⟨q, hq, hparent⟩
          rcases (hw q).mp hq with rfl | ⟨d, hd, rfl, hdp⟩
          · exact hparent
          · by_cases hself : d.id = p
            · exact hself ▸ hparent
            · exact absurd hparent ((List.pairwise_append.mp hflat).2.2 d hd x List.mem_cons_self hdp hself)
        · exact fun hparent => ⟨p, (hw p).mpr (Or.inl rfl), hparent⟩
      have hsplit : (∃ c ∈ done ++ [x], c.id = id ∧ truthy c.parentId = some p) ↔
          (∃ c ∈ done, c.id = id ∧ truthy c.parentId = some p) ∨ (x.id = id ∧ truthy x.parentId = some p) := by
        simp only [List.mem_append, List.mem_singleton, or_and_right, exists_or, exists_eq_left]
      rw [addChild_eq, hsplit]
      by_cases hparent : truthy x.parentId = some p
      · rw [if_pos (hadds.mpr hparent), Finset.mem_insert, hw, eq_comm (a := id) (b := x.id), and_iff_left hparent, or_comm,
          or_assoc]
      · have hnot : ¬ (x.id = id ∧ truthy x.parentId = some p) := fun h => hparent h.2
        rw [if_neg (fun h => hparent (hadds.mp h)), hw, or_iff_left hnot]
    have ih := mem_foldl_addChild_iff p (done ++ [x]) rest (addChild wanted x) (hassoc ▸ hflat) hnext
    rw [hassoc]
    exact ih

end Descendants

section Roots

variable {categories : List Category} {p id : JsString}

/-- Where a category rolls up to. -/
def Category.root (categories : List Category) (c : Category) : JsString :=
  match truthy c.parentId with
  | some parentId => if parentId ∈ categories.map Category.id then parentId else c.id
  | none => c.id

theorem get?_byId (hids : (categories.map Category.id).Nodup) {c : Category} :
    (byId categories).get? id = some c ↔ c ∈ categories ∧ c.id = id := by
  unfold byId
  rw [OrderedMap.get?_ofList (by rwa [List.map_map]), List.mem_map]
  constructor
  · rintro ⟨d, hd, he⟩
    obtain ⟨rfl, rfl⟩ := Prod.mk.inj he
    exact ⟨hd, rfl⟩
  · rintro ⟨hc, rfl⟩
    exact ⟨c, hc, rfl⟩

theorem isSome_byId (hids : (categories.map Category.id).Nodup) :
    ((byId categories).get? id).isSome = true ↔ id ∈ categories.map Category.id := by
  rw [Option.isSome_iff_exists, List.mem_map]
  exact exists_congr (fun c => get?_byId hids)

theorem rootIdOf_byId (hids : (categories.map Category.id).Nodup) {c : Category} (hc : c ∈ categories) :
    rootIdOf (some c.id) (byId categories) = some (c.root categories) := by
  unfold rootIdOf Category.root
  simp only [(get?_byId hids).mpr ⟨hc, rfl⟩, Option.bind_some]
  cases truthy c.parentId with
  | none => rfl
  | some q =>
    dsimp only
    by_cases hq : q ∈ categories.map Category.id
    · rw [if_pos ((isSome_byId hids).mpr hq), if_pos hq]
    · rw [if_neg (fun h => hq ((isSome_byId hids).mp h)), if_neg hq]

theorem get?_rootIds (hids : (categories.map Category.id).Nodup) :
    (rootIds categories).get? id = some p ↔ ∃ c ∈ categories, c.id = id ∧ c.root categories = p := by
  unfold rootIds
  rw [OrderedMap.get?_ofList (by rwa [List.map_map]), List.mem_map]
  refine exists_congr (fun c => and_congr_right (fun hc => ?_))
  rw [rootIdOf_byId hids hc, Option.getD_some, Prod.mk.injEq]

theorem root_of_parent {c : Category} {q : JsString} (hparent : truthy c.parentId = some q)
    (hq : q ∈ categories.map Category.id) : c.root categories = q := by
  unfold Category.root
  rw [hparent]
  exact if_pos hq

theorem root_cases (categories : List Category) (c : Category) : c.root categories = c.id ∨
    truthy c.parentId = some (c.root categories) ∧ c.root categories ∈ categories.map Category.id := by
  cases hparent : truthy c.parentId with
  | none =>
    refine Or.inl ?_
    unfold Category.root
    rw [hparent]
  | some q =>
    by_cases hq : q ∈ categories.map Category.id
    · rw [root_of_parent hparent hq]
      exact Or.inr ⟨rfl, hq⟩
    · refine Or.inl ?_
      unfold Category.root
      rw [hparent]
      exact if_neg hq

end Roots

/-- When expanding and rolling up agree on a category: it has no parent but itself, and none of its subcategories is
followed in the list by a category that names it as its parent. -/
structure Flat (categories : List Category) (p : JsString) : Prop where
  top : ∀ c ∈ categories, c.id = p → ∀ q, truthy c.parentId = some q → q ∈ categories.map Category.id → q = p
  flat : categories.Pairwise (NoGrandchild p)

/-- Expanding a category gives what rolls up to it. -/
def RollsUp (categories : List Category) (p : JsString) : Prop :=
  ∀ id, id ∈ withDescendants [p] categories ↔ (rootIds categories).get? id = some p

theorem rollsUp_iff {categories : List Category} {p : JsString} (hids : (categories.map Category.id).Nodup)
    (hp : p ∈ categories.map Category.id) : RollsUp categories p ↔ Flat categories p := by
  obtain ⟨c₀, hc₀, rfl⟩ := List.mem_map.mp hp
  have hself : c₀.id ∈ ([c₀.id] : List JsString).toFinset := by simp
  constructor
  · intro h
    constructor
    · intro c hc hcid q hparent hq
      have hin : c₀.id ∈ withDescendants [c₀.id] categories := subset_foldl_addChild _ _ hself
      obtain ⟨d, hd, hdid, hroot⟩ := (get?_rootIds hids).mp ((h c₀.id).mp hin)
      have hdc : d = c := List.inj_on_of_nodup_map hids hd hc (hdid.trans hcid.symm)
      rw [← hroot, hdc, root_of_parent hparent hq]
    · rw [List.pairwise_iff_forall_sublist]
      intro d e hsub hdp hne hparent
      obtain ⟨before, after, rfl, hbefore, hafter⟩ := List.cons_sublist_iff.mp hsub
      have he : e ∈ after := hafter.subset List.mem_cons_self
      have hd : d ∈ before := hbefore
      have hdin : d.id ∈ before.foldl addChild [c₀.id].toFinset := mem_foldl_addChild before _ hd hself hdp
      have hein : e.id ∈ withDescendants [c₀.id] (before ++ after) := by
        unfold withDescendants
        rw [List.foldl_append]
        exact mem_foldl_addChild after _ he hdin hparent
      obtain ⟨x, hx, hxid, hroot⟩ := (get?_rootIds hids).mp ((h e.id).mp hein)
      have hxe : x = e := List.inj_on_of_nodup_map hids hx (List.mem_append_right _ he) hxid
      have hdmem : d.id ∈ (before ++ after).map Category.id := List.mem_map_of_mem (List.mem_append_left _ hd)
      exact hne ((root_of_parent hparent hdmem).symm.trans (hxe ▸ hroot))
  · intro h id
    have hmem := mem_foldl_addChild_iff c₀.id [] categories [c₀.id].toFinset h.flat (by simp)
    show id ∈ categories.foldl addChild [c₀.id].toFinset ↔ _
    rw [hmem id, get?_rootIds hids, List.nil_append]
    constructor
    · rintro (rfl | ⟨c, hc, rfl, hparent⟩)
      · refine ⟨c₀, hc₀, rfl, ?_⟩
        rcases root_cases categories c₀ with hroot | ⟨hparent, hq⟩
        · exact hroot
        · exact h.top c₀ hc₀ rfl _ hparent hq
      · exact ⟨c, hc, rfl, root_of_parent hparent hp⟩
    · rintro ⟨c, hc, rfl, hroot⟩
      rcases root_cases categories c with hid | ⟨hparent, -⟩
      · exact Or.inl (hid.symm.trans hroot)
      · exact Or.inr ⟨c, hc, rfl, hroot ▸ hparent⟩

end Books

end EasyDocket
