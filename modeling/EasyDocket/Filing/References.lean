import EasyDocket.Filing.Screens

/-!
# References between accounts, groups and categories

An account may be filed in a group, and a category under another one.  Whatever pages do, and wherever what they do is cut
off, the group is there, and so is the other category, unless it had a parent of its own when the category was added: a
category is removed with what is filed under it, but not with what is filed under that.
-/

namespace EasyDocket

namespace Filing

open Prog (Leads Ends request)

/-! ## Bodies -/

/-- What a row is of, if it is there. -/
def bodyAt (L : Ledger Entity) (e : EntityName) (id : JsString) : Option Entity := (L.rowAt (e, id)).map Row.body

variable {device : JsString} {L L' : Ledger Entity} {e e' : EntityName} {id k g : JsString} {body : Entity} {wall : ℕ}
  {op : Operation Entity} {s s' : Desk} {deep : Set JsString}

theorem row_of_put (h : L.put device wall e id body = .ok (L', op)) :
    op.target = (e, id) ∧ ∃ stamp, op.row = some ⟨id, stamp, body⟩ := by
  unfold Ledger.put at h
  cases ht : L.clock.tick wall with
  | error x =>
    rw [ht] at h
    cases h
  | ok c =>
    rw [ht] at h
    cases h
    exact ⟨rfl, c.stamp device, rfl⟩

theorem row_of_remove (h : L.remove device wall e id = .ok (L', op)) : op.target = (e, id) ∧ op.row = none := by
  unfold Ledger.remove at h
  cases ht : L.clock.tick wall with
  | error x =>
    rw [ht] at h
    cases h
  | ok c =>
    rw [ht] at h
    cases h
    exact ⟨rfl, rfl⟩

theorem bodyAt_put (h : L.put device wall e id body = .ok (L', op)) :
    bodyAt L' e' k = if e' = e ∧ k = id then some body else bodyAt L e' k := by
  obtain ⟨htarget, stamp, hrow⟩ := row_of_put h
  unfold bodyAt
  rw [(Ledger.put_edited h).rows, htarget, hrow]
  by_cases hk : e' = e ∧ k = id
  · rw [if_pos (Prod.mk.injEq .. ▸ hk), if_pos hk]
    rfl
  · rw [if_neg (fun heq => hk (Prod.mk.inj heq)), if_neg hk]

theorem bodyAt_remove (h : L.remove device wall e id = .ok (L', op)) :
    bodyAt L' e' k = if e' = e ∧ k = id then none else bodyAt L e' k := by
  obtain ⟨htarget, hrow⟩ := row_of_remove h
  unfold bodyAt
  rw [(Ledger.remove_edited h).rows, htarget, hrow]
  by_cases hk : e' = e ∧ k = id
  · rw [if_pos (Prod.mk.injEq .. ▸ hk), if_pos hk]
    rfl
  · rw [if_neg (fun heq => hk (Prod.mk.inj heq)), if_neg hk]

theorem bodyAt_fresh (h : Fresh L id) (e : EntityName) : bodyAt L e id = none := by
  unfold bodyAt
  rw [h e]
  rfl

/-- What live queries show of a table, when they show what is stored. -/
theorem mem_rowsOf {α : Type} {kind : Entity → Option α} {a : α} (h : s.UpToDate) :
    (id, a) ∈ rowsOf kind (s.shown e) ↔ ∃ body, bodyAt s.ledger e id = some body ∧ kind body = some a := by
  unfold rowsOf
  rw [List.mem_filterMap, h e]
  constructor
  · rintro ⟨row, hrow, hkind⟩
    obtain ⟨b, hb, heq⟩ := Option.map_eq_some_iff.mp hkind
    cases heq
    have hget : s.ledger.rowAt (e, row.id) = some row := Table.get?_eq_some.mpr ⟨hrow, rfl⟩
    exact ⟨row.body, by rw [bodyAt, hget]; rfl, hb⟩
  · rintro ⟨body, hbody, hkind⟩
    obtain ⟨row, hrow, rfl⟩ := Option.map_eq_some_iff.mp hbody
    obtain ⟨hmem, rfl⟩ := Table.get?_eq_some.mp hrow
    exact ⟨row, hmem, by rw [hkind]; rfl⟩

theorem account?_eq_some {a : AccountBody} : body.account? = some a ↔ body = .account a := by
  cases body <;> simp [Entity.account?]

theorem group?_eq_some {b : GroupBody} : body.group? = some b ↔ body = .accountGroup b := by
  cases body <;> simp [Entity.group?]

theorem category?_eq_some {c : CategoryBody} : body.category? = some c ↔ body = .category c := by
  cases body <;> simp [Entity.category?]

/-! ## References -/

/-- A category that is there, at the top. -/
def IsTop (L : Ledger Entity) (id : JsString) : Prop :=
  ∃ c : CategoryBody, bodyAt L .categories id = some (.category c) ∧ c.parentId = none

/-- Accounts are filed in groups that are there, and categories under categories at the top, but for some of them. -/
structure Filed (deep : Set JsString) (L : Ledger Entity) : Prop where
  accounts : ∀ id body, bodyAt L .accounts id = some body →
    ∃ a : AccountBody, body = .account a ∧ ∀ g, a.groupId = some g → (bodyAt L .accountGroups g).isSome = true
  categories : ∀ id body, bodyAt L .categories id = some body →
    ∃ c : CategoryBody, body = .category c ∧ (id ∉ deep → ∀ p, c.parentId = some p → IsTop L p)

theorem Filed.mono {deep' : Set JsString} (h : Filed deep L) (hdeep : deep ⊆ deep') : Filed deep' L where
  accounts := h.accounts
  categories := by
    intro id body hbody
    obtain ⟨c, hc, hparent⟩ := h.categories id body hbody
    exact ⟨c, hc, fun hid => hparent (fun hmem => hid (hdeep hmem))⟩

theorem filed_empty : Filed ∅ Ledger.empty := by
  have hnone : ∀ e id, bodyAt Ledger.empty e id = none := fun _ _ => rfl
  constructor
  · intro id body h
    rw [hnone] at h
    cases h
  · intro id body h
    rw [hnone] at h
    cases h

/-- No category is filed under this one, but for some. -/
def Childless (deep : Set JsString) (id : JsString) (L : Ledger Entity) : Prop :=
  ∀ k (child : CategoryBody), k ∉ deep → bodyAt L .categories k = some (.category child) → child.parentId ≠ some id

/-- What may be asked without breaking a reference. -/
def May (deep : Set JsString) : Ask → Desk → Prop
  | .put .accounts _ body, s => ∃ a : AccountBody, body = .account a ∧
      ∀ g, a.groupId = some g → (bodyAt s.ledger .accountGroups g).isSome = true
  | .put .categories id body, s => ∃ c : CategoryBody, body = .category c ∧ ∀ p, c.parentId = some p →
      (id ∉ deep → p ≠ id ∧ IsTop s.ledger p) ∧ Childless deep id s.ledger
  | .remove .accountGroups g, s => ∀ k (a : AccountBody), bodyAt s.ledger .accounts k = some (.account a) → a.groupId ≠ some g
  | .remove .categories id, s => Childless deep id s.ledger
  | _, _ => True

/-- A category is left at the top by writes of other rows. -/
theorem IsTop.of_ne (h : IsTop L k) (hk : bodyAt L' .categories k = bodyAt L .categories k) : IsTop L' k := by
  obtain ⟨c, hc, hp⟩ := h
  exact ⟨c, hk.trans hc, hp⟩

theorem Filed.put (h : Filed deep s.ledger) (hmay : May deep (.put e id body) s)
    (hput : s.ledger.put device wall e id body = .ok (L', op)) : Filed deep L' := by
  have hbody : ∀ e' k, bodyAt L' e' k = if e' = e ∧ k = id then some body else bodyAt s.ledger e' k :=
    fun _ _ => bodyAt_put hput
  have hgroup : ∀ g, (bodyAt s.ledger .accountGroups g).isSome = true → (bodyAt L' .accountGroups g).isSome = true := by
    intro g hg
    rw [hbody]
    split_ifs
    · rfl
    · exact hg
  constructor
  · intro k body' hk
    rw [hbody] at hk
    by_cases hnew : EntityName.accounts = e ∧ k = id
    · rw [if_pos hnew] at hk
      obtain ⟨rfl, rfl⟩ := hnew
      cases hk
      obtain ⟨a, ha, hgroups⟩ := hmay
      exact ⟨a, ha, fun g hg => hgroup g (hgroups g hg)⟩
    · rw [if_neg hnew] at hk
      obtain ⟨a, ha, hgroups⟩ := h.accounts k body' hk
      exact ⟨a, ha, fun g hg => hgroup g (hgroups g hg)⟩
  · intro k body' hk
    rw [hbody] at hk
    by_cases hnew : EntityName.categories = e ∧ k = id
    · rw [if_pos hnew] at hk
      obtain ⟨rfl, rfl⟩ := hnew
      cases hk
      obtain ⟨c, hc, hparent⟩ := hmay
      refine ⟨c, hc, fun hshallow p hp => ?_⟩
      obtain ⟨hne, htop⟩ := (hparent p hp).1 hshallow
      exact htop.of_ne (by rw [hbody, if_neg (fun heq => hne heq.2)])
    · rw [if_neg hnew] at hk
      obtain ⟨c, rfl, hparent⟩ := h.categories k body' hk
      refine ⟨c, rfl, fun hshallow p hp => ?_⟩
      by_cases hwrite : EntityName.categories = e ∧ p = id
      · -- the parent is written: it stays at the top, for it has a child
        obtain ⟨rfl, rfl⟩ := hwrite
        obtain ⟨c', rfl, hparent'⟩ := hmay
        refine ⟨c', by rw [hbody, if_pos ⟨rfl, rfl⟩], ?_⟩
        cases hc' : c'.parentId with
        | none => rfl
        | some q => exact absurd hp ((hparent' q hc').2 k c hshallow hk)
      · exact (hparent hshallow p hp).of_ne (by rw [hbody, if_neg hwrite])

theorem Filed.remove (h : Filed deep s.ledger) (hmay : May deep (.remove e id) s)
    (hremove : s.ledger.remove device wall e id = .ok (L', op)) : Filed deep L' := by
  have hbody : ∀ e' k, bodyAt L' e' k = if e' = e ∧ k = id then none else bodyAt s.ledger e' k :=
    fun _ _ => bodyAt_remove hremove
  constructor
  · intro k body' hk
    rw [hbody] at hk
    split_ifs at hk
    obtain ⟨a, rfl, hgroups⟩ := h.accounts k body' hk
    refine ⟨a, rfl, fun g hg => ?_⟩
    rw [hbody]
    by_cases hgone : EntityName.accountGroups = e ∧ g = id
    · obtain ⟨rfl, rfl⟩ := hgone
      exact absurd hg (hmay k a hk)
    · rw [if_neg hgone]
      exact hgroups g hg
  · intro k body' hk
    rw [hbody] at hk
    split_ifs at hk
    obtain ⟨c, rfl, hparent⟩ := h.categories k body' hk
    refine ⟨c, rfl, fun hshallow p hp => ?_⟩
    by_cases hgone : EntityName.categories = e ∧ p = id
    · obtain ⟨rfl, rfl⟩ := hgone
      exact absurd hp (hmay k c hshallow hk)
    · exact (hparent hshallow p hp).of_ne (by rw [hbody, if_neg hgone])

/-- The step lemma. -/
theorem filed_serves {q : Ask} {r : Except ClockError (Reply q)} (h : Filed deep s.ledger) (hmay : May deep q s)
    (hs : Serves device q s r s') : Filed deep s'.ledger := by
  cases hs with
  | put _ e id body wall L op hput => exact h.put hmay hput
  | remove _ e id wall L op hremove => exact h.remove hmay hremove
  | _ => exact h

/-! ## What the services ask -/

/-- One page at a time writes; live queries may lag behind. -/
def filing (deep : Set JsString) (device : JsString) : Protocol Ask Reply ClockError Desk where
  step := Serves device
  rely := Desk.Lags
  rely_refl := Desk.Lags.refl
  rely_trans := Desk.Lags.trans
  pre := May deep

theorem stable_ledger (I : Ledger Entity → Prop) : (filing deep device).Stable (fun s => I s.ledger) := by
  intro s s' h hs
  show I s'.ledger
  rw [hs.1]
  exact h

theorem stable_upToDate : (filing deep device).Stable Desk.UpToDate := fun _ _ h hs => h.lags hs

/-- What a program asks keeps the references; and it ends in `post`, if the clock allows. -/
abbrev Keeps {α : Type} (deep : Set JsString) (device : JsString) (post : α → Desk → Prop) (p : FilingProg α) (s : Desk) : Prop :=
  (filing deep device).wp post (fun _ _ => True) p s

variable {α : Type} {post : α → Desk → Prop} {I : Desk → Prop}

theorem Keeps.ask {q : Ask} {f : Reply q → FilingProg α} (hI : (filing deep device).Stable I) (h : I s) (hmay : ∀ s, I s → May deep q s)
    (hok : ∀ s a s', I s → Serves device q s (.ok a) s' → Keeps deep device post (f a) s') : Keeps deep device post ((request q).bind f) s :=
  Protocol.wp_request hI h hmay (fun _ _ => trivial) hok

theorem Keeps.last {q : Ask} {post : Reply q → Desk → Prop} (hI : (filing deep device).Stable I) (h : I s)
    (hmay : ∀ s, I s → May deep q s) (hok : ∀ s a s' s'', I s → Serves device q s (.ok a) s' → s'.Lags s'' → post a s'') :
    Keeps deep device post (request q) s :=
  Protocol.wp_request_last hI h hmay (fun _ _ => trivial) hok

/-- A request whose outcome does not matter. -/
theorem Keeps.ends {q : Ask} (hI : (filing deep device).Stable I) (h : I s) (hmay : ∀ s, I s → May deep q s) :
    Keeps deep device (fun _ _ => True) (request q) s :=
  Keeps.last hI h hmay (fun _ _ _ _ _ _ _ => trivial)

theorem Keeps.done (a : α) : Keeps deep device (fun _ _ => True) (.pure a) s := fun _ _ => trivial

/-! ### Accounts -/

/-- The group of an account is there, if it has one. -/
def GroupThere (L : Ledger Entity) (groupId : Option JsString) : Prop :=
  ∀ g, groupId = some g → (bodyAt L .accountGroups g).isSome = true

theorem keeps_saveAccount (draft : AccountDraft) (h : GroupThere s.ledger draft.groupId) :
    Keeps deep device (fun _ _ => True) (AccountsService.save draft) s := by
  have hI : (filing deep device).Stable (fun s => GroupThere s.ledger draft.groupId) :=
    stable_ledger (fun L => GroupThere L draft.groupId)
  refine Keeps.ask hI h (fun _ _ => trivial) (fun s now s' h hs => ?_)
  cases hs
  exact Keeps.ends hI h (fun s h => ⟨_, rfl, h⟩)

/-- An account that is read is filed in a group that is there. -/
theorem groupThere_of_read (h : Filed deep s.ledger) {a : AccountBody}
    (hs : Serves device (.getAccount id) s (.ok (some a)) s') : s' = s ∧ GroupThere s.ledger a.groupId := by
  cases hread : (s.ledger.rowAt (.accounts, id)).bind (fun row => row.body.account?) with
  | none =>
    generalize hreply : (some a : Option AccountBody) = reply at hs
    cases hs
    rw [hread] at hreply
    cases hreply
  | some b =>
    generalize hreply : (some a : Option AccountBody) = reply at hs
    cases hs
    rw [hread] at hreply
    cases hreply
    obtain ⟨row, hrow, hbody⟩ := Option.bind_eq_some_iff.mp hread
    have hat : bodyAt s.ledger .accounts id = some row.body := by
      unfold bodyAt
      rw [hrow]
      rfl
    obtain ⟨c, hc, hgroups⟩ := h.accounts id row.body hat
    rw [account?_eq_some.mp hbody] at hc
    cases hc
    exact ⟨rfl, hgroups⟩

/-- Changes of an account that is there; `f` says where it is filed afterwards. -/
theorem keeps_changeAccount (f : AccountBody → AccountBody) (hf : ∀ a, (f a).groupId = a.groupId) (h : Filed deep s.ledger) :
    Keeps deep device (fun _ _ => True) (AccountsService.change id f) s := by
  refine Keeps.ask (stable_ledger (Filed deep)) h (fun _ _ => trivial) (fun s reply s' h hs => ?_)
  cases reply with
  | none => exact Keeps.done ()
  | some a =>
    obtain ⟨rfl, hthere⟩ := groupThere_of_read h hs
    refine Keeps.ends (stable_ledger (fun L => GroupThere L a.groupId)) hthere (fun s h => ⟨f a, rfl, ?_⟩)
    rw [hf a]
    exact h

theorem keeps_moveAccount {groupId : Option JsString} (h : GroupThere s.ledger groupId) :
    Keeps deep device (fun _ _ => True) (AccountGroupsService.moveAccount id groupId) s := by
  have hI : (filing deep device).Stable (fun s => GroupThere s.ledger groupId) := stable_ledger (fun L => GroupThere L groupId)
  refine Keeps.ask hI h (fun _ _ => trivial) (fun s reply s' h hs => ?_)
  cases reply with
  | none => exact Keeps.done ()
  | some a =>
    have hledger : s' = s := by
      generalize hreply : (some a : Option AccountBody) = reply at hs
      cases hs
      rfl
    subst hledger
    dsimp only
    split_ifs
    · exact Keeps.done ()
    · exact Keeps.ends hI h (fun s h => ⟨_, rfl, h⟩)

/-! ### Groups -/

/-- Groups may be written as they are. -/
theorem may_putGroup (id : JsString) (body : Entity) (s : Desk) : May deep (.put .accountGroups id body) s := trivial

theorem stable_true : (filing deep device).Stable (fun _ => True) := fun _ _ h _ => h

theorem keeps_saveGroup (draft : GroupDraft) :
    Keeps deep device (fun _ s => (bodyAt s.ledger .accountGroups draft.id).isSome = true) (AccountGroupsService.save draft) s := by
  refine Keeps.ask stable_true trivial (fun _ _ => trivial) (fun s groups s' _ hs => ?_)
  refine Keeps.ask stable_true trivial (fun _ _ => trivial) (fun s now s' _ hs => ?_)
  refine Keeps.last stable_true trivial (fun s _ => may_putGroup _ _ s) (fun s _ s' s'' _ hs hlags => ?_)
  cases hs with
  | put _ _ _ _ _ _ _ hput =>
    rw [hlags.1, bodyAt_put hput, if_pos ⟨rfl, rfl⟩]
    rfl

theorem keeps_archiveGroup (archived : Bool) :
    Keeps deep device (fun _ _ => True) (AccountGroupsService.setArchived id archived) s := by
  refine Keeps.ask stable_true trivial (fun _ _ => trivial) (fun s reply s' _ _ => ?_)
  cases reply with
  | none => exact Keeps.done ()
  | some group => exact Keeps.ends stable_true trivial (fun s _ => may_putGroup _ _ s)

theorem keeps_place (index : ℕ) : Keeps deep device (fun _ _ => True) (AccountGroupsService.place id index) s := by
  refine Keeps.ask stable_true trivial (fun _ _ => trivial) (fun s groups s' _ _ => ?_)
  cases AccountGroupsService.byId groups id with
  | none => exact Keeps.done ()
  | some group =>
    dsimp only
    split_ifs
    · exact Keeps.done ()
    · exact Keeps.ends stable_true trivial (fun s _ => may_putGroup _ _ s)

theorem keeps_reorder (ids : List JsString) : Keeps deep device (fun _ _ => True) (AccountGroupsService.reorder ids) s :=
  Protocol.wp_foldlM (fun _ _ _ => True) (fun _ c _ _ _ => keeps_place c.2) (fun _ _ _ _ _ => trivial) ids.zipIdx () s trivial

/-- The accounts that are still filed in a group are among those to come. -/
def FiledAmong (g : JsString) (rest : List (JsString × AccountBody)) (L : Ledger Entity) : Prop :=
  ∀ k (a : AccountBody), bodyAt L .accounts k = some (.account a) → a.groupId = some g → k ∈ rest.map Prod.fst

theorem filedAmong_put {rest : List (JsString × AccountBody)} {x : JsString × AccountBody} {a : AccountBody}
    (h : FiledAmong g (x :: rest) L) (ha : a.groupId = none) (hput : L.put device wall .accounts x.1 (.account a) = .ok (L', op)) :
    FiledAmong g rest L' := by
  intro k b hk hb
  rw [bodyAt_put hput] at hk
  split_ifs at hk with hsame
  · cases hk
    rw [ha] at hb
    cases hb
  · rcases List.mem_cons.mp (h k b hk hb) with rfl | hk
    · exact absurd ⟨rfl, rfl⟩ hsame
    · exact hk

theorem keeps_removeGroup (h : s.UpToDate) : Keeps deep device (fun _ _ => True) (AccountGroupsService.remove g) s := by
  refine Keeps.ask stable_upToDate h (fun _ _ => trivial) (fun s accounts s' h hs => ?_)
  have hledger : s' = s ∧ accounts.Perm (rowsOf Entity.account? (s.shown .accounts)) := by
    cases hs with
    | accounts _ _ hperm => exact ⟨rfl, hperm⟩
  obtain ⟨rfl, hperm⟩ := hledger
  have hamong : FiledAmong g (AccountGroupsService.accountsIn accounts g) s'.ledger := by
    intro k a hk ha
    have hmem : (k, a) ∈ accounts := hperm.mem_iff.mpr ((mem_rowsOf h).mpr ⟨_, hk, rfl⟩)
    exact List.mem_map.mpr ⟨(k, a), List.mem_filter.mpr ⟨hmem, decide_eq_true ha⟩, rfl⟩
  refine Protocol.wp_bind (Protocol.wp_foldlM (fun _ rest s => FiledAmong g rest s.ledger) ?_ ?_ _ () s' hamong)
  · intro _ x rest s h
    refine Keeps.last (stable_ledger _) h (fun s _ => ⟨_, rfl, fun _ hg => nomatch hg⟩) (fun s _ s' s'' h hs hlags => ?_)
    cases hs with
    | put _ _ _ _ _ _ _ hput =>
      rw [hlags.1]
      exact filedAmong_put h rfl hput
  · intro _ s h s' hlags
    refine Keeps.ends (stable_ledger (FiledAmong g [])) (hlags.1 ▸ h) (fun s h k a hk ha => ?_)
    cases h k a hk ha

theorem keeps_seedAccount {currency name : JsString} (h : (bodyAt s.ledger .accountGroups g).isSome = true) :
    Keeps deep device (fun _ s => (bodyAt s.ledger .accountGroups g).isSome = true) (AccountGroupsService.seedAccount currency g name) s := by
  have hI : (filing deep device).Stable (fun s => (bodyAt s.ledger .accountGroups g).isSome = true) :=
    stable_ledger (fun L => (bodyAt L .accountGroups g).isSome = true)
  refine Keeps.ask hI h (fun _ _ => trivial) (fun s id s' h hs => ?_)
  cases hs
  refine Keeps.ask hI h (fun _ _ => trivial) (fun s now s' h hs => ?_)
  cases hs
  refine Keeps.last hI h (fun s h => ⟨_, rfl, fun g' hg' => ?_⟩) (fun s _ s' s'' h hs hlags => ?_)
  · cases hg'
    exact h
  · cases hs with
    | put _ _ _ _ _ _ _ hput =>
      rw [hlags.1, bodyAt_put hput, if_neg (fun heq => EntityName.noConfusion heq.1)]
      exact h

theorem keeps_seedGroup (currency : JsString) (starter : StarterGroup) (order : ℕ) :
    Keeps deep device (fun _ _ => True) (AccountGroupsService.seedGroup currency starter order) s := by
  refine Keeps.ask stable_true trivial (fun _ _ => trivial) (fun s id s' _ _ => ?_)
  refine Protocol.wp_bind (Protocol.wp_mono (keeps_saveGroup _) (fun _ s h => ?_) (fun _ _ h => h))
  exact Protocol.wp_foldlM (fun _ _ s => (bodyAt s.ledger .accountGroups id).isSome = true)
    (fun _ _ _ _ h => keeps_seedAccount h) (fun _ _ _ => Keeps.done ()) _ () s h

theorem keeps_seedGroups : Keeps deep device (fun _ _ => True) AccountGroupsService.seedIfEmpty s := by
  refine Keeps.ask stable_true trivial (fun _ _ => trivial) (fun s groups s' _ _ => ?_)
  refine Keeps.ask stable_true trivial (fun _ _ => trivial) (fun s accounts s' _ _ => ?_)
  split_ifs
  · exact Keeps.done ()
  · refine Keeps.ask stable_true trivial (fun _ _ => trivial) (fun s currency s' _ _ => ?_)
    exact Protocol.wp_foldlM (fun _ _ _ => True) (fun _ _ _ _ _ => keeps_seedGroup _ _ _) (fun _ _ _ => Keeps.done ()) _ () s'
      trivial

/-! ### Categories -/

/-- The category of a draft may be written. -/
def MayFile (deep : Set JsString) (draft : CategoryDraft) (L : Ledger Entity) : Prop :=
  ∀ p, draft.parentId = some p → (draft.id ∉ deep → p ≠ draft.id ∧ IsTop L p) ∧ Childless deep draft.id L

theorem keeps_saveCategory (draft : CategoryDraft) (h : MayFile deep draft s.ledger) :
    Keeps deep device (fun _ _ => True) (CategoriesService.save draft) s := by
  refine Keeps.ask (stable_ledger (MayFile deep draft)) h (fun _ _ => trivial) (fun s now s' h hs => ?_)
  cases hs
  exact Keeps.ends (stable_ledger (MayFile deep draft)) h (fun s h => ⟨_, rfl, h⟩)

/-- The children of a category are among those to come, and have no children, but for some. -/
structure ChildrenAmong (deep : Set JsString) (id : JsString) (rest : List JsString) (L : Ledger Entity) : Prop where
  among : ∀ k (c : CategoryBody), bodyAt L .categories k = some (.category c) → c.parentId = some id → k ∈ rest
  leaves : ∀ child ∈ rest, Childless deep child L

theorem childrenAmong_remove {rest : List JsString} (h : ChildrenAmong deep id (k :: rest) L)
    (hremove : L.remove device wall .categories k = .ok (L', op)) : ChildrenAmong deep id rest L' where
  among := by
    intro j c hj hc
    rw [bodyAt_remove hremove] at hj
    split_ifs at hj with hsame
    rcases List.mem_cons.mp (h.among j c hj hc) with rfl | hj
    · exact absurd ⟨rfl, rfl⟩ hsame
    · exact hj
  leaves := by
    intro child hchild j c hshallow hj
    rw [bodyAt_remove hremove] at hj
    split_ifs at hj
    exact h.leaves child (List.mem_cons_of_mem _ hchild) j c hshallow hj

theorem keeps_removeCategory (hfiled : Filed deep s.ledger) (h : s.UpToDate) :
    Keeps deep device (fun _ _ => True) (CategoriesService.remove id) s := by
  have hI : (filing deep device).Stable (fun s => Filed deep s.ledger ∧ s.UpToDate) :=
    fun _ _ h hs => ⟨hs.1 ▸ h.1, h.2.lags hs⟩
  refine Keeps.ask hI ⟨hfiled, h⟩ (fun _ _ => trivial) (fun s categories s' h hs => ?_)
  have hledger : s' = s ∧ categories.Perm (rowsOf Entity.category? (s.shown .categories)) := by
    cases hs with
    | categories _ _ hperm => exact ⟨rfl, hperm⟩
  obtain ⟨rfl, hperm⟩ := hledger
  have hmem : ∀ k (c : CategoryBody), (k, c) ∈ categories ↔ bodyAt s'.ledger .categories k = some (.category c) := by
    intro k c
    rw [hperm.mem_iff, mem_rowsOf h.2]
    constructor
    · rintro ⟨body, hbody, hc⟩
      rw [hbody, category?_eq_some.mp hc]
    · exact fun hbody => ⟨_, hbody, rfl⟩
  have hamong : ChildrenAmong deep id (descendantIds id categories) s'.ledger := by
    constructor
    · intro k c hk hc
      exact List.mem_map.mpr ⟨(k, c), List.mem_filter.mpr ⟨(hmem k c).mpr hk, decide_eq_true hc⟩, rfl⟩
    · intro child hchild k c hshallow hk hc
      obtain ⟨⟨_, b⟩, hb, rfl⟩ := List.mem_map.mp hchild
      obtain ⟨hb, hparent⟩ := List.mem_filter.mp hb
      obtain ⟨c', hc', hfiled⟩ := h.1.categories k _ hk
      cases hc'
      obtain ⟨b', hb', htop⟩ := hfiled hshallow _ hc
      rw [(hmem _ b).mp hb] at hb'
      cases hb'
      rw [htop] at hparent
      cases of_decide_eq_true hparent
  refine Protocol.wp_bind (Protocol.wp_foldlM (fun _ rest s => ChildrenAmong deep id rest s.ledger) ?_ ?_ _ () s' hamong)
  · intro _ k rest s h
    refine Keeps.last (stable_ledger _) h (fun s h => h.leaves k List.mem_cons_self) (fun s _ s' s'' h hs hlags => ?_)
    cases hs with
    | remove _ _ _ _ _ _ hremove =>
      rw [hlags.1]
      exact childrenAmong_remove h hremove
  · intro _ s h s' hlags
    refine Keeps.ends (stable_ledger (ChildrenAmong deep id [])) (hlags.1 ▸ h) (fun s h k c _ hk hc => ?_)
    cases h.among k c hk hc

theorem keeps_seedCategories : Keeps deep device (fun _ _ => True) CategoriesService.seedIfEmpty s := by
  refine Keeps.ask stable_true trivial (fun _ _ => trivial) (fun s categories s' _ _ => ?_)
  split_ifs
  · exact Keeps.done ()
  · refine Protocol.wp_foldlM (fun _ _ _ => True) (fun _ starter _ s _ => ?_) (fun _ _ _ => Keeps.done ()) _ () s' trivial
    refine Keeps.ask stable_true trivial (fun _ _ => trivial) (fun s id s' _ _ => ?_)
    exact keeps_saveCategory _ (fun p hp => nomatch hp)

/-! ## Sessions -/

/-- What pages offer: groups that are shown, and to file a new category under any that is shown. -/
def Offered : Command → Desk → Prop
  | .saveAccount draft, s => ∀ g, draft.groupId = some g → ∃ b, (g, b) ∈ rowsOf Entity.group? (s.shown .accountGroups)
  | .moveAccount _ groupId, s => ∀ g, groupId = some g → ∃ b, (g, b) ∈ rowsOf Entity.group? (s.shown .accountGroups)
  | .saveCategory draft, s =>
    (∃ c : CategoryBody, (draft.id, c) ∈ rowsOf Entity.category? (s.shown .categories) ∧ draft.parentId = c.parentId) ∨
    (Fresh s.ledger draft.id ∧ ∀ p, draft.parentId = some p →
      ∃ c : CategoryBody, (p, c) ∈ rowsOf Entity.category? (s.shown .categories))
  | _, _ => True

/-- The new category of a command that files it under one with a parent. -/
def Command.deepened : Command → Desk → Set JsString
  | .saveCategory draft, s => {k | k = draft.id ∧ Fresh s.ledger k ∧ ∃ p c, draft.parentId = some p ∧
      bodyAt s.ledger .categories p = some (.category c) ∧ c.parentId ≠ none}
  | _, _ => ∅

theorem groupThere_of_shown {groupId : Option JsString} (h : s.UpToDate)
    (hshown : ∀ g, groupId = some g → ∃ b, (g, b) ∈ rowsOf Entity.group? (s.shown .accountGroups)) : GroupThere s.ledger groupId := by
  intro g hg
  obtain ⟨b, hb⟩ := hshown g hg
  obtain ⟨body, hbody, -⟩ := (mem_rowsOf h).mp hb
  rw [hbody]
  rfl

theorem mayFile_of_offered {draft : CategoryDraft} (hfiled : Filed deep s.ledger) (h : s.UpToDate)
    (hoffer : Offered (.saveCategory draft) s) (hdeep : (Command.saveCategory draft).deepened s ⊆ deep) :
    MayFile deep draft s.ledger := by
  have hat : ∀ k (c : CategoryBody), (k, c) ∈ rowsOf Entity.category? (s.shown .categories) →
      bodyAt s.ledger .categories k = some (.category c) := by
    intro k c hc
    obtain ⟨body, hbody, hkind⟩ := (mem_rowsOf h).mp hc
    rw [hbody, category?_eq_some.mp hkind]
  intro p hp
  -- a draft with a parent is no parent itself, unless to what is filed deeper
  have hnot : ¬ IsTop s.ledger draft.id := by
    rintro ⟨b, hb, hnone⟩
    rcases hoffer with ⟨c, hc, hsame⟩ | ⟨hfresh, -⟩
    · rw [hat _ _ hc] at hb
      cases hb
      rw [hsame, hnone] at hp
      cases hp
    · rw [bodyAt_fresh hfresh] at hb
      cases hb
  have htop : draft.id ∉ deep → IsTop s.ledger p := by
    intro hshallow
    rcases hoffer with ⟨c, hc, hsame⟩ | ⟨hfresh, hparent⟩
    · obtain ⟨c', hc', hparents⟩ := hfiled.categories draft.id _ (hat _ _ hc)
      cases hc'
      exact hparents hshallow p (hsame ▸ hp)
    · obtain ⟨c, hc⟩ := hparent p hp
      refine ⟨c, hat _ _ hc, ?_⟩
      by_contra hlow
      exact hshallow (hdeep ⟨rfl, hfresh, p, c, hp, hat _ _ hc, hlow⟩)
  refine ⟨fun hshallow => ⟨?_, htop hshallow⟩, fun k child hshallow hk hchild => ?_⟩
  · rintro rfl
    exact hnot (htop hshallow)
  · obtain ⟨c, hc, hparent⟩ := hfiled.categories k _ hk
    cases hc
    exact hnot (hparent hshallow _ hchild)

/-- What a command asks keeps the references. -/
theorem keeps_prog {c : Command} (hfiled : Filed deep s.ledger) (h : s.UpToDate) (hoffer : Offered c s)
    (hdeep : c.deepened s ⊆ deep) :
    Keeps deep device (fun _ _ => True) c.prog s := by
  cases c with
  | saveAccount draft => exact keeps_saveAccount draft (groupThere_of_shown h hoffer)
  | countAccount id counted => exact keeps_changeAccount _ (fun _ => rfl) hfiled
  | archiveAccount id archived => exact keeps_changeAccount _ (fun _ => rfl) hfiled
  | removeAccount id => exact Keeps.ends stable_true trivial (fun _ _ => trivial)
  | moveAccount id groupId => exact keeps_moveAccount (groupThere_of_shown h hoffer)
  | saveGroup draft => exact Protocol.wp_mono (keeps_saveGroup draft) (fun _ _ _ => trivial) (fun _ _ h => h)
  | archiveGroup id archived => exact keeps_archiveGroup archived
  | reorderGroups ids => exact keeps_reorder ids
  | removeGroup id => exact keeps_removeGroup h
  | seedGroups => exact keeps_seedGroups
  | saveCategory draft => exact keeps_saveCategory draft (mayFile_of_offered hfiled h hoffer hdeep)
  | removeCategory id => exact keeps_removeCategory hfiled h
  | seedCategories => exact keeps_seedCategories

/-- Commands one after the other, each of which may be cut off; the app may be opened again.  The last argument are the
categories that were filed under one with a parent. -/
inductive Session (device : JsString) : Desk → Desk → Set JsString → Prop
  | refl (s : Desk) : Session device s s ∅
  | catchUp {s s' s'' : Desk} {deep : Set JsString} (h : Session device s s' deep) (hlags : s'.Lags s'') :
    Session device s s'' deep
  | reopen {s s' : Desk} {deep : Set JsString} (h : Session device s s' deep) :
    Session device s ⟨s'.ledger.initialise, fun e => s'.stored e⟩ deep
  | command {s s' s'' : Desk} {deep : Set JsString} (h : Session device s s' deep) (c : Command) (hshown : s'.UpToDate)
    (hoffer : Offered c s') (hc : Leads (Serves device) Desk.Lags c.prog s' s'') :
    Session device s s'' (deep ∪ c.deepened s')

theorem Session.play {deep' : Set JsString} (h : Session device s s' deep) (wall : ℕ) (c : Command) (n : ℕ)
    (hdeep : deep ∪ c.deepened s' = deep') (hshown : s'.UpToDate) (hoffer : Offered c s')
    (hC : c.prog.meetsFor drawsNone (serveAt device wall) n s' = true) : Session device s (s'.play device wall c n) deep' := by
  subst hdeep
  have hc := h.command c hshown hoffer (Prog.leads_runFor serves_serveAt n c.prog s' hC)
  exact hc.catchUp ⟨rfl, fun _ => Or.inr rfl⟩

theorem upToDate_play (wall : ℕ) (c : Command) (n : ℕ) : (s.play device wall c n).UpToDate := fun _ => rfl

theorem deepened_of_top {draft : CategoryDraft} (h : ∀ p, draft.parentId = some p → IsTop s.ledger p) :
    (Command.saveCategory draft).deepened s = ∅ := by
  refine Set.eq_empty_of_forall_notMem ?_
  rintro k ⟨rfl, -, p, c, hp, hc, hlow⟩
  obtain ⟨c', hc', hnone⟩ := h p hp
  rw [hc] at hc'
  cases hc'
  exact hlow hnone

/-! ### A run -/

def savings : GroupDraft := ⟨js "g", js "Savings", .default, none, none, none⟩

def pot : AccountDraft := ⟨js "x", js "Pot", js "EUR", 0, false, some (js "g"), none, none⟩

def spending (id name : JsString) (parentId : Option JsString) : CategoryDraft := ⟨id, name, .expense, parentId, none, none⟩

/-- A device with an account in a group, whose removal is cut off after the account was taken out of it, and with a category
under one that has a parent; the removal of the topmost is cut off after the first of its subcategories. -/
def filedThree : Desk :=
  (((Desk.empty.play (js "a") 5 (.saveGroup savings) 3).play (js "a") 6 (.saveAccount pot) 2).play (js "a") 7
    (.saveCategory (spending (js "f") (js "Food") none)) 2).play (js "a") 8
    (.saveCategory (spending (js "f1") (js "Lunch") (some (js "f")))) 2

def cutOff : Desk :=
  (((filedThree.play (js "a") 9 (.saveCategory (spending (js "f2") (js "Dinner") (some (js "f")))) 2).play (js "a") 10
    (.saveCategory (spending (js "k") (js "Kebab") (some (js "f1")))) 2).play (js "a") 11 (.removeGroup (js "g")) 2).play
    (js "a") 12 (.removeCategory (js "f")) 2

theorem fresh_of_decide {L : Ledger Entity} (h : ∀ e ∈ ENTITY_NAMES, L.rowAt (e, id) = none) : Fresh L id :=
  fun e => h e (mem_entityNames e)

theorem session_filedThree : Session (js "a") Desk.empty filedThree ∅ := by
  have hgroup : Session (js "a") Desk.empty _ ∅ := (Session.refl Desk.empty).play 5 (.saveGroup savings) 3
    (Set.union_empty _) (fun _ => rfl) trivial rfl
  have haccount : Session (js "a") Desk.empty _ ∅ := hgroup.play 6 (.saveAccount pot) 2 (Set.union_empty _)
    (upToDate_play _ _ _) (fun g hg => ⟨⟨js "Savings", .default, 0, false, 5⟩, by cases hg; decide +kernel⟩) rfl
  have hfood : Session (js "a") Desk.empty _ ∅ := haccount.play 7 (.saveCategory (spending (js "f") (js "Food") none)) 2
    (by rw [deepened_of_top (fun p hp => by cases hp), Set.union_empty]) (upToDate_play _ _ _)
    (Or.inr ⟨fresh_of_decide (by decide +kernel), nofun⟩) rfl
  refine hfood.play 8 _ 2 ?_ (upToDate_play _ _ _) (Or.inr ⟨fresh_of_decide (by decide +kernel), fun p hp => ?_⟩) rfl
  · rw [deepened_of_top, Set.union_empty]
    intro p hp
    cases hp
    exact ⟨⟨js "Food", .expense, none, false, 7⟩, by decide +kernel, rfl⟩
  · cases hp
    exact ⟨⟨js "Food", .expense, none, false, 7⟩, by decide +kernel⟩

end Filing

end EasyDocket
