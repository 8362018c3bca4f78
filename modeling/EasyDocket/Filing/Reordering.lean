import EasyDocket.Filing.References
import EasyDocket.Books.Display

/-!
# Reordering groups

A page hands over the ids of the active groups as they have been dragged.  Groups whose position has changed are written,
one after the other, while the live query that the loop reads lags behind.
-/

namespace EasyDocket

namespace Filing

open Prog (Leads Ends request)
open Books

variable {T : Text} {device : JsString} {s s' s₀ : Desk} {id : JsString} {ids : List JsString} {a b c : JsString × GroupBody}

/-! ## The display order -/

/-- `active`: the groups that are not archived, in display order. -/
def active (T : Text) (groups : List (JsString × GroupBody)) : List (JsString × GroupBody) :=
  (ordered T groups).filter (fun group => !group.2.archived)

/-- The groups that are stored. -/
def Desk.groups (s : Desk) : List (JsString × GroupBody) := rowsOf Entity.group? (s.stored .accountGroups)

/-- What groups of the same order are compared by. -/
def named (group : JsString × GroupBody) : Category := ⟨group.1, group.2.name, .expense, none⟩

theorem compareGroups_le_iff : compareGroups T a b ≤ 0 ↔
    a.2.order < b.2.order ∨ a.2.order = b.2.order ∧ compareCategories T (named a) (named b) ≤ 0 := by
  unfold compareGroups compareCategories named
  by_cases h : a.2.order = b.2.order
  · rw [if_neg (not_not.mpr (sub_eq_zero.mpr h))]
    exact ⟨fun hle => Or.inr ⟨h, hle⟩, fun hor => hor.elim (fun hlt => absurd h hlt.ne) And.right⟩
  · rw [if_pos (sub_ne_zero.mpr h)]
    constructor
    · intro hle
      exact Or.inl (lt_of_le_of_ne (sub_nonpos.mp hle) h)
    · intro hor
      exact hor.elim (fun hlt => sub_nonpos.mpr hlt.le) (fun heq => absurd heq.1 h)

theorem compareGroups_total (hT : T.Collates) (a b : JsString × GroupBody) : compareGroups T a b ≤ 0 ∨ compareGroups T b a ≤ 0 := by
  rw [compareGroups_le_iff, compareGroups_le_iff]
  rcases lt_trichotomy a.2.order b.2.order with h | h | h
  · exact Or.inl (Or.inl h)
  · exact (compareCategories_total hT (named a) (named b)).imp (fun hle => Or.inr ⟨h, hle⟩) (fun hle => Or.inr ⟨h.symm, hle⟩)
  · exact Or.inr (Or.inl h)

theorem compareGroups_trans (hT : T.Collates) (hab : compareGroups T a b ≤ 0) (hbc : compareGroups T b c ≤ 0) :
    compareGroups T a c ≤ 0 := by
  rw [compareGroups_le_iff] at hab hbc ⊢
  rcases hab with hab | ⟨heq, hab⟩ <;> rcases hbc with hbc | ⟨heq', hbc⟩
  · exact Or.inl (hab.trans hbc)
  · exact Or.inl (heq' ▸ hab)
  · exact Or.inl (heq ▸ hbc)
  · exact Or.inr ⟨heq.trans heq', compareCategories_trans hT hab hbc⟩

theorem ordered_perm (groups : List (JsString × GroupBody)) : (ordered T groups).Perm groups := List.perm_insertionSort _ _

theorem ordered_sorted (hT : T.Collates) (groups : List (JsString × GroupBody)) :
    (ordered T groups).Pairwise (fun a b => a.2.order ≤ b.2.order) := by
  have : Std.Total (fun a b : JsString × GroupBody => compareGroups T a b ≤ 0) := ⟨compareGroups_total hT⟩
  have : IsTrans (JsString × GroupBody) (fun a b => compareGroups T a b ≤ 0) := ⟨fun _ _ _ => compareGroups_trans hT⟩
  have hsorted : (ordered T groups).Pairwise (fun a b => compareGroups T a b ≤ 0) := List.pairwise_insertionSort _ groups
  refine hsorted.imp (fun hle => ?_)
  rcases compareGroups_le_iff.mp hle with hlt | ⟨heq, -⟩
  · exact hlt.le
  · exact heq.le

theorem mem_active {g : JsString × GroupBody} {groups : List (JsString × GroupBody)} :
    g ∈ active T groups ↔ g ∈ groups ∧ g.2.archived = false := by
  unfold active
  rw [List.mem_filter, (ordered_perm groups).mem_iff, Bool.not_eq_true']

/-! ## Looking groups up -/

theorem mem_groups {group : GroupBody} : (id, group) ∈ s.groups ↔ bodyAt s.ledger .accountGroups id = some (.accountGroup group) := by
  have hshown : (⟨s.ledger, s.stored⟩ : Desk).UpToDate := fun _ => rfl
  have hmem : (id, group) ∈ s.groups ↔
      ∃ body, bodyAt s.ledger .accountGroups id = some body ∧ body.group? = some group := mem_rowsOf hshown
  refine hmem.trans ⟨?_, fun h => ⟨_, h, rfl⟩⟩
  rintro ⟨body, hbody, hkind⟩
  rw [hbody, group?_eq_some.mp hkind]

theorem nodup_groups (s : Desk) : (s.groups.map Prod.fst).Nodup := by
  have hrows : ((s.stored .accountGroups).map Row.id).Nodup := by
    unfold Desk.stored
    rw [List.Nodup, List.pairwise_map]
    exact (s.ledger.tables .accountGroups).sorted.imp (fun h => h.ne)
  refine hrows.sublist ?_
  unfold Desk.groups rowsOf
  induction s.stored .accountGroups with
  | nil => exact List.Sublist.slnil
  | cons row rows ih =>
    rw [List.filterMap_cons, List.map_cons]
    cases row.body.group? with
    | none => exact ih.cons _
    | some group => exact ih.cons_cons _

/-- `byId` of what is shown, when it is what is stored. -/
theorem byId_groups (hne : id ≠ []) :
    AccountGroupsService.byId s.groups id = (bodyAt s.ledger .accountGroups id).bind Entity.group? := by
  have hbody : ∀ group, bodyAt s.ledger .accountGroups id = some (.accountGroup group) ↔
      (bodyAt s.ledger .accountGroups id).bind Entity.group? = some group := by
    intro group
    rw [Option.bind_eq_some_iff]
    constructor
    · exact fun h => ⟨_, h, rfl⟩
    · rintro ⟨body, hbody, hkind⟩
      rw [hbody, group?_eq_some.mp hkind]
  unfold AccountGroupsService.byId
  rw [if_neg hne]
  cases hfind : s.groups.find? (fun group => group.1 = id) with
  | none =>
    cases hstored : (bodyAt s.ledger .accountGroups id).bind Entity.group? with
    | none => rfl
    | some group =>
      have hmem : (id, group) ∈ s.groups := mem_groups.mpr ((hbody group).mpr hstored)
      exact absurd (decide_eq_true rfl) (List.find?_eq_none.mp hfind _ hmem)
  | some found =>
    obtain ⟨k, group⟩ := found
    have hk : decide (k = id) = true := List.find?_some (p := fun group : JsString × GroupBody => group.1 = id) hfind
    have hid : k = id := of_decide_eq_true hk
    subst hid
    exact ((hbody group).mp (mem_groups.mp (List.mem_of_find?_eq_some hfind))).symm

/-! ## The loop -/

/-- Where a group belongs, it is already. -/
def Fits (s : Desk) (place : JsString × ℕ) : Prop :=
  ∀ group, bodyAt s.ledger .accountGroups place.1 = some (.accountGroup group) → group.order = place.2

/-- After some groups have been placed: these have their positions, and all that need not move is as it was. -/
structure Placed (s₀ : Desk) (done : List (JsString × ℕ)) (s : Desk) : Prop where
  placed : ∀ place ∈ done, ∀ group, bodyAt s₀.ledger .accountGroups place.1 = some (.accountGroup group) →
    bodyAt s.ledger .accountGroups place.1 = some (.accountGroup { group with order := place.2 })
  kept : ∀ t, (∀ place ∈ done, t = (.accountGroups, place.1) → Fits s₀ place) → s.ledger.rowAt t = s₀.ledger.rowAt t
  shown : ∀ id, id ≠ [] → (∀ place ∈ done, place.1 ≠ id) →
    AccountGroupsService.byId (rowsOf Entity.group? (s.shown .accountGroups)) id = AccountGroupsService.byId s₀.groups id
  still : (∀ place ∈ done, Fits s₀ place) → s.ledger = s₀.ledger

variable {done : List (JsString × ℕ)}

theorem Placed.bodyAt_eq (h : Placed s₀ done s) (hid : ∀ place ∈ done, place.1 ≠ id) :
    bodyAt s.ledger .accountGroups id = bodyAt s₀.ledger .accountGroups id := by
  unfold bodyAt
  rw [h.kept]
  intro place hplace heq
  cases heq
  exact absurd rfl (hid place hplace)

/-- The invariant survives that live queries catch up. -/
theorem Placed.lags (h : Placed s₀ done s) (hs : s.Lags s') : Placed s₀ done s' where
  placed := by
    rw [hs.1]
    exact h.placed
  kept := by
    rw [hs.1]
    exact h.kept
  shown := by
    intro id hne hid
    rcases hs.2 .accountGroups with hshown | hshown
    · rw [hshown]
      exact h.shown id hne hid
    · have hstored : rowsOf Entity.group? (s'.shown .accountGroups) = s.groups := by rw [hshown, Desk.groups]
      rw [hstored, byId_groups hne, byId_groups hne, h.bodyAt_eq hid]
  still := by
    rw [hs.1]
    exact h.still

theorem placed_nil (h : s.UpToDate) : Placed s [] s where
  placed := nofun
  kept := fun _ _ => rfl
  shown := by
    intro id _ _
    rw [Desk.groups, h]
  still := fun _ => rfl

/-- A group that is there no more, or is where it belongs, is left alone. -/
theorem Placed.skip {index : ℕ} (h : Placed s₀ done s) (hid : ∀ place ∈ done, place.1 ≠ id) (hfits : Fits s₀ (id, index)) :
    Placed s₀ (done ++ [(id, index)]) s where
  placed := by
    intro place hplace group hgroup
    rcases List.mem_append.mp hplace with hplace | hplace
    · exact h.placed place hplace group hgroup
    · rw [List.mem_singleton.mp hplace] at hgroup ⊢
      rw [h.bodyAt_eq hid, hgroup, ← hfits group hgroup]
  kept := fun t ht => h.kept t (fun place hplace => ht place (List.mem_append_left _ hplace))
  shown := fun k hne hk => h.shown k hne (fun place hplace => hk place (List.mem_append_left _ hplace))
  still := fun hall => h.still (fun place hplace => hall place (List.mem_append_left _ hplace))

/-- A group that moves is written. -/
theorem Placed.write {index wall : ℕ} {group : GroupBody} {L : Ledger Entity} {op : Operation Entity} (h : Placed s₀ done s)
    (hid : ∀ place ∈ done, place.1 ≠ id) (hgroup : bodyAt s₀.ledger .accountGroups id = some (.accountGroup group))
    (horder : group.order ≠ index)
    (hput : s.ledger.put device wall .accountGroups id (.accountGroup { group with order := index }) = .ok (L, op)) :
    Placed s₀ (done ++ [(id, index)]) { s with ledger := L } where
  placed := by
    intro place hplace b hb
    rcases List.mem_append.mp hplace with hplace | hplace
    · rw [bodyAt_put hput, if_neg (fun heq => hid place hplace heq.2)]
      exact h.placed place hplace b hb
    · rw [List.mem_singleton.mp hplace] at hb ⊢
      rw [hgroup] at hb
      cases hb
      rw [bodyAt_put hput, if_pos ⟨rfl, rfl⟩]
  kept := by
    intro t ht
    have hne : t ≠ op.target := by
      rintro rfl
      rw [(row_of_put hput).1] at ht
      exact horder (ht (id, index) (List.mem_append_right _ List.mem_cons_self) rfl group hgroup)
    rw [(Ledger.put_edited hput).rows, if_neg hne]
    exact h.kept t (fun place hplace => ht place (List.mem_append_left _ hplace))
  shown := fun k hne hk => h.shown k hne (fun place hplace => hk place (List.mem_append_left _ hplace))
  still := by
    intro hall
    exact absurd (hall (id, index) (List.mem_append_right _ List.mem_cons_self) group hgroup) horder

/-- The body of the loop. -/
theorem keeps_placed {index : ℕ} (h : Placed s₀ done s) (hne : id ≠ []) (hid : ∀ place ∈ done, place.1 ≠ id) :
    Keeps ∅ device (fun _ => Placed s₀ (done ++ [(id, index)])) (AccountGroupsService.place id index) s := by
  have hI : ∀ done, (filing ∅ device).Stable (Placed s₀ done) := fun _ _ _ h hs => h.lags hs
  refine Keeps.ask (hI done) h (fun _ _ => trivial) (fun s groups s' h hs => ?_)
  have hread : s' = s ∧ groups = rowsOf Entity.group? (s.shown .accountGroups) := by
    cases hs with
    | groups => exact ⟨rfl, rfl⟩
  obtain ⟨rfl, rfl⟩ := hread
  have hbyId : AccountGroupsService.byId (rowsOf Entity.group? (s'.shown .accountGroups)) id =
      (bodyAt s₀.ledger .accountGroups id).bind Entity.group? := (h.shown id hne hid).trans (byId_groups hne)
  cases hfound : AccountGroupsService.byId (rowsOf Entity.group? (s'.shown .accountGroups)) id with
  | none =>
    have hfits : Fits s₀ (id, index) := by
      intro group hgroup
      rw [hfound, hgroup] at hbyId
      cases hbyId
    exact Protocol.wp_pure (hI _) (h.skip hid hfits) (fun _ h => h)
  | some group =>
    have hgroup : bodyAt s₀.ledger .accountGroups id = some (.accountGroup group) := by
      obtain ⟨body, hbody, hkind⟩ := Option.bind_eq_some_iff.mp (hbyId.symm.trans hfound)
      rw [hbody, group?_eq_some.mp hkind]
    dsimp only
    by_cases horder : group.order = index
    · rw [if_pos horder]
      have hfits : Fits s₀ (id, index) := by
        intro b hb
        rw [hgroup] at hb
        cases hb
        exact horder
      exact Protocol.wp_pure (hI _) (h.skip hid hfits) (fun _ h => h)
    · rw [if_neg horder]
      refine Keeps.last (hI done) h (fun s _ => may_putGroup _ _ s) (fun s _ s' s'' h hs hlags => ?_)
      cases hs with
      | put _ _ _ _ _ _ _ hput => exact (h.write hid hgroup horder hput).lags hlags

/-- The run lemma of the loop. -/
theorem keeps_reorder_placed (h : s.UpToDate) (hne : [] ∉ ids) (hnodup : ids.Nodup) :
    Keeps ∅ device (fun _ => Placed s ids.zipIdx) (AccountGroupsService.reorder ids) s := by
  have hI : (filing ∅ device).Stable (Placed s ids.zipIdx) := fun _ _ h hs => h.lags hs
  have hfst : (ids.zipIdx.map Prod.fst).Nodup := by
    rw [List.zipIdx_map_fst]
    exact hnodup
  refine Protocol.wp_foldlM (fun _ rest s' => ∃ done, ids.zipIdx = done ++ rest ∧ Placed s done s') ?_ ?_ ids.zipIdx () s
    ⟨[], rfl, placed_nil h⟩
  · rintro _ ⟨id, index⟩ rest s' ⟨done, hsplit, hplaced⟩
    have hmem : (id, index) ∈ ids.zipIdx := by
      rw [hsplit]
      exact List.mem_append_right _ List.mem_cons_self
    have hid : id ≠ [] := by
      rintro rfl
      exact hne (List.fst_mem_of_mem_zipIdx hmem)
    have hfresh : ∀ place ∈ done, place.1 ≠ id := by
      intro place hplace heq
      rw [hsplit, List.map_append, List.nodup_append] at hfst
      exact hfst.2.2 place.1 (List.mem_map_of_mem hplace) id (List.mem_map.mpr ⟨_, List.mem_cons_self, rfl⟩) heq
    refine Protocol.wp_mono (keeps_placed hplaced hid hfresh) (fun _ s' h => ?_) (fun _ _ h => h)
    exact ⟨done ++ [(id, index)], by rw [hsplit, List.append_assoc]; rfl, h⟩
  · rintro _ s' ⟨done, hsplit, hplaced⟩
    rw [List.append_nil] at hsplit
    exact Protocol.wp_pure hI (hsplit ▸ hplaced) (fun _ h => h)

theorem placed_of_ends (h : s.UpToDate) (hne : [] ∉ ids) (hnodup : ids.Nodup)
    (hends : Ends (Serves device) Desk.Lags (AccountGroupsService.reorder ids) s (.ok ()) s') : Placed s ids.zipIdx s' :=
  (Protocol.wp_ends (P := filing ∅ device) (fun _ _ h => h) hends (keeps_reorder_placed h hne hnodup)).1 () rfl

/-! ## The order that is shown -/

theorem idxOf_of_mem_zipIdx {place : JsString × ℕ} (hnodup : ids.Nodup) (h : place ∈ ids.zipIdx) :
    ids.idxOf place.1 = place.2 := by
  obtain ⟨hlt, hat⟩ := List.getElem?_eq_some_iff.mp (List.mem_zipIdx_iff_getElem?.mp h)
  rw [← hat]
  exact hnodup.idxOf_getElem place.2 hlt

/-- Lists without repetitions are in the order of their positions. -/
theorem pairwise_idxOf (hnodup : ids.Nodup) : ids.Pairwise (fun a b => ids.idxOf a ≤ ids.idxOf b) := by
  rw [List.pairwise_iff_getElem]
  intro i j hi hj hlt
  rw [hnodup.idxOf_getElem i hi, hnodup.idxOf_getElem j hj]
  exact hlt.le

theorem nodup_active (T : Text) (s : Desk) : ((active T s.groups).map Prod.fst).Nodup := by
  have hordered : ((ordered T s.groups).map Prod.fst).Nodup :=
    ((ordered_perm s.groups).map Prod.fst).nodup_iff.mpr (nodup_groups s)
  exact hordered.sublist (List.filter_sublist.map Prod.fst)

theorem Placed.bodyAt_of_notMem (h : Placed s ids.zipIdx s') (hid : id ∉ ids) :
    bodyAt s'.ledger .accountGroups id = bodyAt s.ledger .accountGroups id := by
  refine h.bodyAt_eq (fun place hplace heq => hid ?_)
  rw [← heq]
  exact List.fst_mem_of_mem_zipIdx hplace

theorem exists_place (hid : id ∈ ids) : ∃ index, (id, index) ∈ ids.zipIdx := by
  obtain ⟨index, hlt, hat⟩ := List.getElem_of_mem hid
  exact ⟨index, List.mk_mem_zipIdx_iff_getElem?.mpr (List.getElem?_eq_some_iff.mpr ⟨hlt, hat⟩)⟩

/-- The groups that are active afterwards are those that were active before, each at its position. -/
theorem Placed.mem_active (h : Placed s ids.zipIdx s') (hids : ids.Perm ((active T s.groups).map Prod.fst)) {group : GroupBody} :
    (id, group) ∈ active T s'.groups ↔
      ∃ b index, (id, b) ∈ active T s.groups ∧ (id, index) ∈ ids.zipIdx ∧ group = { b with order := (index : ℕ) } := by
  rw [Filing.mem_active, mem_groups]
  constructor
  · rintro ⟨hgroup, hactive⟩
    by_cases hid : id ∈ ids
    · obtain ⟨⟨_, b⟩, hb, rfl⟩ := List.mem_map.mp (hids.mem_iff.mp hid)
      obtain ⟨index, hlt, hat⟩ := List.getElem_of_mem hid
      have hplace : (_, index) ∈ ids.zipIdx := List.mk_mem_zipIdx_iff_getElem?.mpr (List.getElem?_eq_some_iff.mpr ⟨hlt, hat⟩)
      have hnow := h.placed _ hplace b (mem_groups.mp (Filing.mem_active.mp hb).1)
      rw [hgroup] at hnow
      cases hnow
      exact ⟨b, index, hb, hplace, rfl⟩
    · -- a group that has not been placed was not active
      rw [h.bodyAt_of_notMem hid] at hgroup
      have hbefore : (id, group) ∈ active T s.groups := Filing.mem_active.mpr ⟨mem_groups.mpr hgroup, hactive⟩
      exact absurd (hids.mem_iff.mpr (List.mem_map.mpr ⟨_, hbefore, rfl⟩)) hid
  · rintro ⟨b, index, hb, hplace, rfl⟩
    obtain ⟨hmem, hactive⟩ := Filing.mem_active.mp hb
    exact ⟨h.placed _ hplace b (mem_groups.mp hmem), hactive⟩

/-- Active groups are shown in the order that has been asked for. -/
theorem Placed.active_eq (hT : T.Collates) (h : Placed s ids.zipIdx s')
    (hids : ids.Perm ((active T s.groups).map Prod.fst)) : (active T s'.groups).map Prod.fst = ids := by
  have hnodup : ids.Nodup := hids.nodup_iff.mpr (nodup_active T s)
  have hperm : ((active T s'.groups).map Prod.fst).Perm ids := by
    refine (List.perm_ext_iff_of_nodup (nodup_active T s') hnodup).mpr (fun id => ?_)
    rw [List.mem_map]
    constructor
    · rintro ⟨⟨_, group⟩, hgroup, rfl⟩
      obtain ⟨b, index, -, hplace, -⟩ := (h.mem_active hids).mp hgroup
      exact List.fst_mem_of_mem_zipIdx hplace
    · intro hid
      obtain ⟨index, hplace⟩ := exists_place hid
      obtain ⟨⟨_, b⟩, hb, rfl⟩ := List.mem_map.mp (hids.mem_iff.mp hid)
      exact ⟨_, (h.mem_active hids).mpr ⟨b, index, hb, hplace, rfl⟩, rfl⟩
  have hsorted : ((active T s'.groups).map Prod.fst).Pairwise (fun a b => ids.idxOf a ≤ ids.idxOf b) := by
    rw [List.pairwise_map]
    have horders : (active T s'.groups).Pairwise (fun a b => a.2.order ≤ b.2.order) := (ordered_sorted hT s'.groups).filter _
    refine horders.imp_of_mem (fun {a b} ha hb hle => ?_)
    obtain ⟨_, i, -, hi, ha⟩ := (h.mem_active hids).mp ha
    obtain ⟨_, j, -, hj, hb⟩ := (h.mem_active hids).mp hb
    rw [ha, hb] at hle
    rw [idxOf_of_mem_zipIdx hnodup hi, idxOf_of_mem_zipIdx hnodup hj]
    exact Int.ofNat_le.mp hle
  refine List.Perm.eq_of_pairwise (fun a b ha _ hab hba => ?_) hsorted (pairwise_idxOf hnodup) hperm
  exact (List.idxOf_inj (hperm.mem_iff.mp ha)).mp (le_antisymm hab hba)

/-- Reordering shows active groups in the order asked for, writes only the groups that move, and changes nothing when it is
repeated. -/
theorem reorder_exact (hT : T.Collates) (h : s.UpToDate) (hne : [] ∉ ids) (hids : ids.Perm ((active T s.groups).map Prod.fst))
    (hends : Ends (Serves device) Desk.Lags (AccountGroupsService.reorder ids) s (.ok ()) s') :
    (active T s'.groups).map Prod.fst = ids ∧
    (∀ id group, (id, group) ∈ s.groups → ∃ order, (id, { group with order }) ∈ s'.groups) ∧
    (∀ t, (∀ place ∈ ids.zipIdx, t = (.accountGroups, place.1) → Fits s place) → s'.ledger.rowAt t = s.ledger.rowAt t) ∧
    ∀ device' s₁ s₂, s₁.UpToDate → s₁.ledger = s'.ledger →
      Ends (Serves device') Desk.Lags (AccountGroupsService.reorder ids) s₁ (.ok ()) s₂ → s₂.ledger = s₁.ledger := by
  have hnodup : ids.Nodup := hids.nodup_iff.mpr (nodup_active T s)
  have hplaced := placed_of_ends h hne hnodup hends
  refine ⟨hplaced.active_eq hT hids, fun id group hgroup => ?_, hplaced.kept, fun device' s₁ s₂ hs₁ hledger hagain => ?_⟩
  · by_cases hid : id ∈ ids
    · obtain ⟨index, hplace⟩ := exists_place hid
      exact ⟨index, mem_groups.mpr (hplaced.placed _ hplace group (mem_groups.mp hgroup))⟩
    · refine ⟨group.order, mem_groups.mpr ?_⟩
      rw [hplaced.bodyAt_of_notMem hid]
      exact mem_groups.mp hgroup
  · -- every group is where it belongs by now
    refine (placed_of_ends hs₁ hne hnodup hagain).still (fun place hplace group hgroup => ?_)
    obtain ⟨⟨k, b⟩, hb, hk⟩ := List.mem_map.mp (hids.mem_iff.mp (List.fst_mem_of_mem_zipIdx hplace))
    have hnow := hplaced.placed place hplace b (hk ▸ mem_groups.mp (Filing.mem_active.mp hb).1)
    rw [hledger, hnow] at hgroup
    cases hgroup
    rfl

/-- A device with three groups. -/
def threeGroups : Desk :=
  ((Desk.empty.play (js "a") 5 (.saveGroup ⟨js "g", js "Everyday", .default, none, none, none⟩) 3).play (js "a") 6
    (.saveGroup ⟨js "h", js "Savings", .default, none, none, none⟩) 3).play (js "a") 7
    (.saveGroup ⟨js "i", js "Loans", .loan, none, none, none⟩) 3

def swapped : Desk := ((AccountGroupsService.reorder [js "g", js "i", js "h"]).run (serveAt (js "a") 8) threeGroups).2

theorem reorder_exact_swapped : (active ascii threeGroups.groups).map Prod.fst = [js "g", js "h", js "i"] ∧
    (active ascii swapped.groups).map Prod.fst = [js "g", js "i", js "h"] ∧
    swapped.ledger.rowAt (.accountGroups, js "g") = threeGroups.ledger.rowAt (.accountGroups, js "g") := by
  have hends : Ends (Serves (js "a")) Desk.Lags (AccountGroupsService.reorder [js "g", js "i", js "h"]) threeGroups (.ok ()) swapped :=
    Prog.ends_run (H := serveAt (js "a") 8) serves_serveAt (AccountGroupsService.reorder [js "g", js "i", js "h"]) threeGroups rfl
  obtain ⟨hshown, -, hkept, -⟩ := reorder_exact ascii_collates (upToDate_play _ _ _) (by decide) (by decide +kernel) hends
  refine ⟨by decide +kernel, hshown, hkept _ (fun place hplace heq group hgroup => ?_)⟩
  have hplaces : [js "g", js "i", js "h"].zipIdx = [(js "g", 0), (js "i", 1), (js "h", 2)] := rfl
  rw [hplaces] at hplace
  simp only [List.mem_cons, List.not_mem_nil, or_false] at hplace
  rcases hplace with rfl | rfl | rfl
  · have hg : bodyAt threeGroups.ledger .accountGroups (js "g") =
        some (.accountGroup ⟨js "Everyday", .default, 0, false, 5⟩) := by decide +kernel
    cases hg.symm.trans hgroup
    rfl
  · exact absurd (Prod.mk.inj heq).2 (by decide)
  · exact absurd (Prod.mk.inj heq).2 (by decide)

end Filing

end EasyDocket
