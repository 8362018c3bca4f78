import EasyDocket.Books.Accounts

/-!
# The accounts screen, arranged

Accounts are filed in the section of their group, and each section has a total of its own.  Read as a balance sheet, the
sections are net worth.
-/

namespace EasyDocket

namespace Books

section Definitions

variable (T : Text)

inductive BalanceSheetSide
  | asset
  | liability
  deriving DecidableEq

/-- `sideOfType`: the group types that represent money owed rather than money held. -/
def sideOfType (type : AccountGroupType) : BalanceSheetSide :=
  if type = .creditCard ∨ type = .loan then .liability else .asset

/-- `readsAsOwed`. -/
def readsAsOwed (type : AccountGroupType) : Bool := sideOfType type = .liability

structure AccountSection where
  /-- The group these accounts are filed in, or null for the ungrouped tail. -/
  group : Option AccountGroup
  accounts : List Account
  subtotal : Minor
  /-- True when `subtotal` means "owed" rather than "held". -/
  owed : Bool
  side : BalanceSheetSide
  unconverted : List JsString
  excluded : ℕ

/-- `displayBalance`: what a balance means on screen. -/
def displayBalance (balance : Minor) (owed : Bool) : Minor :=
  if !owed then balance else if balance = 0 then 0 else -balance

/-- What the loop of `sectionFor` keeps. -/
structure SectionSums where
  total : Minor
  excluded : ℕ
  missing : List JsString

/-- The body of the loop of `sectionFor`. -/
def sectionStep (balances : OrderedMap JsString Minor) (reporting : JsString) (rateFor : JsString → Option ℚ)
    (acc : SectionSums) (account : Account) : Except RateError SectionSums :=
  if !countsInTotals account then .ok { acc with excluded := acc.excluded + 1 }
  else
    let balance := (balances.get? account.id).getD account.openingBalance
    if sameCurrency T account.currency reporting then .ok { acc with total := acc.total + balance }
    else
      match rateFor account.currency with
      | none => .ok { acc with missing := acc.missing ++ [T.toUpperCase account.currency] }
      | some rate =>
        (convert T balance rate account.currency reporting).map (fun x => { acc with total := acc.total + x })

/-- `sectionFor`. -/
def sectionFor (balances : OrderedMap JsString Minor) (reporting : JsString) (rateFor : JsString → Option ℚ)
    (group : Option AccountGroup) (inSection : List Account) (side : BalanceSheetSide) : Except RateError AccountSection :=
  let owed := group.elim false (fun group => readsAsOwed group.type)
  (inSection.foldlM (sectionStep T balances reporting rateFor) ⟨0, 0, []⟩).map (fun acc =>
    ⟨group, inSection, displayBalance acc.total owed, owed, side, distinct acc.missing, acc.excluded⟩)

/-- The group that an account is filed in, among those there are. -/
def groupOf (byId : OrderedMap JsString AccountGroup) (account : Account) : Option AccountGroup :=
  (truthy account.groupId).bind byId.get?

/-- The body of the loop of `buildSections` over accounts: the members of groups, and the accounts in none. -/
def placeStep (byId : OrderedMap JsString AccountGroup) (acc : OrderedMap JsString (List Account) × List Account)
    (account : Account) : OrderedMap JsString (List Account) × List Account :=
  match groupOf byId account with
  | some group => (acc.1.set group.id ((acc.1.get? group.id).getD [] ++ [account]), acc.2)
  | none => (acc.1, acc.2 ++ [account])

/-- The body of the loop of `buildSections` over groups: an empty group is not shown. -/
def groupStep (balances : OrderedMap JsString Minor) (reporting : JsString) (rateFor : JsString → Option ℚ)
    (members : OrderedMap JsString (List Account)) (sections : List AccountSection) (group : AccountGroup) :
    Except RateError (List AccountSection) :=
  let inGroup := (members.get? group.id).getD []
  if inGroup.isEmpty then .ok sections
  else (sectionFor T balances reporting rateFor (some group) inGroup (sideOfType group.type)).map (fun s => sections ++ [s])

/-- `buildSections`: group the accounts for display. -/
def buildSections (accounts : List Account) (groups : List AccountGroup) (balances : OrderedMap JsString Minor)
    (reporting : JsString) (rateFor : JsString → Option ℚ) : Except RateError (List AccountSection) :=
  let byId : OrderedMap JsString AccountGroup := .ofList (groups.map (fun group => (group.id, group)))
  let placed := accounts.foldl (placeStep byId) (.ofList (groups.map (fun group => (group.id, []))), [])
  match groups.foldlM (groupStep T balances reporting rateFor placed.1) [] with
  | .error e => .error e
  | .ok sections =>
    if placed.2.isEmpty then .ok sections
    else (sectionFor T balances reporting rateFor none placed.2 .asset).map (fun s => sections ++ [s])

/-- The balance sheet: what is held, what is owed, and the difference. -/
structure BalanceSheet where
  assets : Minor
  liabilities : Minor
  net : Minor
  deriving DecidableEq

/-- The body of the loop of `balanceSheet`, on both sides. -/
def sheetStep (acc : Minor × Minor) (s : AccountSection) : Minor × Minor :=
  if s.side = .liability then (acc.1, acc.2 + s.subtotal) else (acc.1 + s.subtotal, acc.2)

/-- `balanceSheet`. -/
def balanceSheet (sections : List AccountSection) : BalanceSheet :=
  let acc := sections.foldl sheetStep (0, 0)
  ⟨acc.1, acc.2, acc.1 - acc.2⟩

end Definitions

section Sections

variable {T : Text} {accounts : List Account} {groups : List AccountGroup} {balances : OrderedMap JsString Minor}
  {reporting : JsString} {rateFor : JsString → Option ℚ} {sections : List AccountSection} {s : AccountSection}
  {byId : OrderedMap JsString AccountGroup}

/-! ## One section -/

/-- The accounts whose currency has no rate, of those that count. -/
def leftOut (T : Text) (reporting : JsString) (rateFor : JsString → Option ℚ) (accounts : List Account) : List Account :=
  (accounts.filter countsInTotals).filter (fun account => !convertible T reporting rateFor account)

/-- What a section says about its accounts. -/
structure Section (T : Text) (balances : OrderedMap JsString Minor) (reporting : JsString) (rateFor : JsString → Option ℚ)
    (s : AccountSection) : Prop where
  subtotal : s.subtotal = displayBalance (s.accounts.map (addsTo T balances reporting rateFor)).sum s.owed
  owed : s.owed = true ↔ s.side = .liability
  unconverted : ∀ currency, currency ∈ s.unconverted ↔
    currency ∈ (leftOut T reporting rateFor s.accounts).map (fun account => T.toUpperCase account.currency)
  excluded : s.excluded = (s.accounts.filter (fun account => !countsInTotals account)).length
  inhabited : s.accounts ≠ []

theorem sectionStep_ok (h : ∀ currency rate, rateFor currency = some rate → 0 < rate) {account : Account}
    (hb : (balances.get? account.id).isSome = true) (acc : SectionSums) :
    sectionStep T balances reporting rateFor acc account =
      .ok ⟨acc.total + addsTo T balances reporting rateFor account, acc.excluded + if countsInTotals account then 0 else 1,
        acc.missing ++ (leftOut T reporting rateFor [account]).map (fun account => T.toUpperCase account.currency)⟩ := by
  obtain ⟨balance, hbalance⟩ := Option.isSome_iff_exists.mp hb
  unfold sectionStep addsTo standing leftOut convertible worth
  rw [hbalance]
  by_cases hc : countsInTotals account = true
  · by_cases hs : sameCurrency T account.currency reporting = true
    · simp [hc, hs]
    · cases hrate : rateFor account.currency with
      | none => simp [hc, hs, hrate]
      | some rate =>
        have hpos : 0 < rate := h _ _ hrate
        simp [hc, hs, hrate, convert_of_pos hpos (Bool.eq_false_iff.mpr hs), Except.map]
  · simp [hc]

theorem section_foldlM (h : ∀ currency rate, rateFor currency = some rate → 0 < rate) :
    ∀ (accounts : List Account) (acc : SectionSums), (∀ account ∈ accounts, (balances.get? account.id).isSome = true) →
      accounts.foldlM (sectionStep T balances reporting rateFor) acc =
        .ok ⟨acc.total + (accounts.map (addsTo T balances reporting rateFor)).sum,
          acc.excluded + (accounts.filter (fun account => !countsInTotals account)).length,
          acc.missing ++ (leftOut T reporting rateFor accounts).map (fun account => T.toUpperCase account.currency)⟩
  | [], acc, _ => by simp [leftOut, pure, Except.pure]
  | account :: accounts, acc, hb => by
    rw [List.foldlM_cons, sectionStep_ok h (hb account List.mem_cons_self)]
    refine (section_foldlM h accounts _ (fun a ha => hb a (List.mem_cons_of_mem _ ha))).trans (congrArg Except.ok ?_)
    rw [List.map_cons, List.sum_cons, ← Int.add_assoc, SectionSums.mk.injEq]
    refine ⟨rfl, ?_, ?_⟩
    · by_cases hc : countsInTotals account = true
      · simp [hc]
      · simp [hc, Nat.add_assoc, Nat.add_comm]
    · rw [List.append_assoc, ← List.map_append]
      unfold leftOut
      rw [← List.filter_append, ← List.filter_append, List.singleton_append]

theorem sectionFor_ok (h : ∀ currency rate, rateFor currency = some rate → 0 < rate)
    (hb : ∀ account ∈ accounts, (balances.get? account.id).isSome = true) (hne : accounts ≠ []) (group : Option AccountGroup)
    (side : BalanceSheetSide) (hside : group.elim false (fun group => readsAsOwed group.type) = true ↔ side = .liability) :
    ∃ s, sectionFor T balances reporting rateFor group accounts side = .ok s ∧ Section T balances reporting rateFor s ∧
      s.accounts = accounts ∧ s.group = group := by
  unfold sectionFor
  rw [section_foldlM h accounts _ hb]
  refine ⟨_, rfl, ⟨?_, hside, fun currency => ?_, ?_, hne⟩, rfl, rfl⟩
  · rw [Int.zero_add]
  · rw [mem_distinct, List.nil_append]
  · rw [Nat.zero_add]

/-! ## Placing accounts -/

/-- The key of the group that an account is filed in. -/
def placeOf (byId : OrderedMap JsString AccountGroup) (account : Account) : Option JsString :=
  (groupOf byId account).map AccountGroup.id

variable (byId) in
theorem place_foldl : ∀ (accounts : List Account) (acc : OrderedMap JsString (List Account) × List Account),
    (∀ account ∈ accounts, ∀ id, placeOf byId account = some id → id ∈ acc.1.keys) →
    (∀ id, (accounts.foldl (placeStep byId) acc).1.get? id =
      (acc.1.get? id).map (fun members => members ++ accounts.filter (fun account => placeOf byId account = some id))) ∧
    (accounts.foldl (placeStep byId) acc).2 = acc.2 ++ accounts.filter (fun account => placeOf byId account = none)
  | [], acc, _ => by simp
  | account :: accounts, acc, h => by
    rw [List.foldl_cons]
    cases hgroup : groupOf byId account with
    | none =>
      have hplace : placeOf byId account = none := by
        unfold placeOf
        rw [hgroup]
        rfl
      have hstep : placeStep byId acc account = (acc.1, acc.2 ++ [account]) := by
        unfold placeStep
        rw [hgroup]
      obtain ⟨hmembers, hrest⟩ := place_foldl accounts (acc.1, acc.2 ++ [account])
        (fun a ha => h a (List.mem_cons_of_mem _ ha))
      rw [hstep]
      refine ⟨fun id => ?_, ?_⟩
      · rw [hmembers, List.filter_cons_of_neg (by simp [hplace])]
      · rw [hrest, List.filter_cons_of_pos (by simp [hplace]), List.append_assoc, List.singleton_append]
    | some group =>
      have hplace : placeOf byId account = some group.id := by
        unfold placeOf
        rw [hgroup]
        rfl
      have hkey : group.id ∈ acc.1.keys := h account List.mem_cons_self group.id hplace
      obtain ⟨members, hget⟩ : ∃ members, acc.1.get? group.id = some members :=
        Option.ne_none_iff_exists'.mp (fun hnone => OrderedMap.get?_eq_none.mp hnone hkey)
      have hstep : placeStep byId acc account = (acc.1.set group.id (members ++ [account]), acc.2) := by
        unfold placeStep
        rw [hgroup]
        show (acc.1.set group.id ((acc.1.get? group.id).getD [] ++ [account]), acc.2) = _
        rw [hget]
        rfl
      obtain ⟨hmembers, hrest⟩ := place_foldl accounts (acc.1.set group.id (members ++ [account]), acc.2)
        (fun a ha id hid => OrderedMap.mem_keys_set.mpr (Or.inr (h a (List.mem_cons_of_mem _ ha) id hid)))
      rw [hstep]
      refine ⟨fun id => ?_, ?_⟩
      · rw [hmembers]
        by_cases hid : id = group.id
        · rw [hid, OrderedMap.get?_set_self, hget, List.filter_cons_of_pos (by simp [hplace])]
          simp
        · have hne : ¬ group.id = id := fun he => hid he.symm
          rw [OrderedMap.get?_set_ne hid, List.filter_cons_of_neg (by simp [hplace, hne])]
      · rw [hrest, List.filter_cons_of_neg (by simp [hplace])]

theorem groups_foldlM (h : ∀ currency rate, rateFor currency = some rate → 0 < rate)
    (hb : ∀ account ∈ accounts, (balances.get? account.id).isSome = true) {members : OrderedMap JsString (List Account)} :
    ∀ (groups : List AccountGroup) (sections : List AccountSection),
      (∀ group ∈ groups, members.get? group.id = some (accounts.filter (fun a => placeOf byId a = some group.id))) →
      ∃ built, groups.foldlM (groupStep T balances reporting rateFor members) sections = .ok (sections ++ built) ∧
        (∀ s ∈ built, Section T balances reporting rateFor s) ∧
        (built.map AccountSection.accounts).flatten =
          (groups.map (fun group => accounts.filter (fun a => placeOf byId a = some group.id))).flatten
  | [], sections, _ => ⟨[], by rw [List.append_nil]; rfl, fun _ hs => absurd hs List.not_mem_nil, rfl⟩
  | group :: groups, sections, hm => by
    have hget := hm group List.mem_cons_self
    rw [List.foldlM_cons]
    by_cases hempty : accounts.filter (fun a => placeOf byId a = some group.id) = []
    · have hstep : groupStep T balances reporting rateFor members sections group = .ok sections := by
        unfold groupStep
        rw [hget, hempty]
        rfl
      obtain ⟨built, hrest, hsections, hflat⟩ := groups_foldlM h hb groups sections (fun g hg => hm g (List.mem_cons_of_mem _ hg))
      refine ⟨built, ?_, hsections, ?_⟩
      · rw [hstep]
        exact hrest
      · rw [List.map_cons, List.flatten_cons, hempty, List.nil_append, hflat]
    · have hside : (some group).elim false (fun group => readsAsOwed group.type) = true ↔ sideOfType group.type = .liability :=
        decide_eq_true_iff
      obtain ⟨s, hfor, hs, haccounts, -⟩ := sectionFor_ok h (fun a ha => hb a (List.mem_filter.mp ha).1) hempty (some group)
        (sideOfType group.type) hside
      have hstep : groupStep T balances reporting rateFor members sections group = .ok (sections ++ [s]) := by
        unfold groupStep
        rw [hget]
        show (if (accounts.filter (fun a => placeOf byId a = some group.id)).isEmpty = true then _ else _) = _
        rw [if_neg (fun he => hempty (List.isEmpty_iff.mp he)), Option.getD_some, hfor]
        rfl
      obtain ⟨built, hrest, hsections, hflat⟩ := groups_foldlM h hb groups (sections ++ [s])
        (fun g hg => hm g (List.mem_cons_of_mem _ hg))
      refine ⟨s :: built, ?_, ?_, ?_⟩
      · rw [hstep]
        refine hrest.trans ?_
        rw [List.append_assoc, List.singleton_append]
      · intro s' hs'
        rcases List.mem_cons.mp hs' with rfl | hs'
        · exact hs
        · exact hsections s' hs'
      · rw [List.map_cons, List.flatten_cons, List.map_cons, List.flatten_cons, hflat, haccounts]

theorem placeOf_mem (hgroups : (groups.map AccountGroup.id).Nodup) {account : Account} {id : JsString}
    (h : placeOf (.ofList (groups.map (fun group => (group.id, group)))) account = some id) : id ∈ groups.map AccountGroup.id := by
  have hkeys : ((groups.map (fun group => (group.id, group))).map Prod.fst).Nodup := by
    rw [List.map_map]
    exact hgroups
  unfold placeOf groupOf at h
  obtain ⟨group, hgroup, rfl⟩ := Option.map_eq_some_iff.mp h
  obtain ⟨key, _, hget⟩ := Option.bind_eq_some_iff.mp hgroup
  obtain ⟨group', hin, he⟩ := List.mem_map.mp ((OrderedMap.get?_ofList hkeys).mp hget)
  obtain ⟨-, rfl⟩ := Prod.mk.inj he
  exact List.mem_map_of_mem hin

/-- Sections are made of all accounts, each with what it says about them. -/
theorem buildSections_ok (h : ∀ currency rate, rateFor currency = some rate → 0 < rate)
    (hb : ∀ account ∈ accounts, (balances.get? account.id).isSome = true) (hgroups : (groups.map AccountGroup.id).Nodup) :
    ∃ sections, buildSections T accounts groups balances reporting rateFor = .ok sections ∧
      (∀ s ∈ sections, Section T balances reporting rateFor s) ∧
      ((sections.map AccountSection.accounts).flatten).Perm accounts := by
  have hkeys : ((groups.map (fun group => (group.id, ([] : List Account)))).map Prod.fst) = groups.map AccountGroup.id := by
    rw [List.map_map]
    rfl
  obtain ⟨hmembers, hungrouped⟩ := place_foldl (.ofList (groups.map (fun group => (group.id, group)))) accounts
    (.ofList (groups.map (fun group => (group.id, []))), []) (by
      intro account _ id hid
      rw [OrderedMap.keys_ofList (hkeys ▸ hgroups), hkeys]
      exact placeOf_mem hgroups hid)
  have hstart : ∀ group ∈ groups, (OrderedMap.ofList (groups.map (fun group => (group.id, ([] : List Account))))).get? group.id =
      some [] := fun group hg => (OrderedMap.get?_ofList (hkeys ▸ hgroups)).mpr (List.mem_map.mpr ⟨group, hg, rfl⟩)
  obtain ⟨built, hfold, hsections, hflat⟩ := groups_foldlM (T := T) h hb groups [] (fun group hg => by
    rw [hmembers, hstart group hg]
    rfl)
  have hperm := flatten_filter_perm (placeOf (.ofList (groups.map (fun group => (group.id, group))))) (groups.map AccountGroup.id)
    accounts hgroups (fun account _ id hid => placeOf_mem hgroups hid)
  rw [List.map_map] at hperm
  unfold buildSections
  dsimp only
  rw [hfold, hungrouped, List.nil_append, List.nil_append]
  dsimp only
  by_cases hempty : accounts.filter (fun a => placeOf (.ofList (groups.map (fun group => (group.id, group)))) a = none) = []
  · refine ⟨built, ?_, hsections, ?_⟩
    · rw [hempty]
      rfl
    · rw [hempty, List.append_nil] at hperm
      rw [hflat]
      exact hperm
  · obtain ⟨s, hfor, hs, haccounts, -⟩ := sectionFor_ok (T := T) h (fun a ha => hb a (List.mem_filter.mp ha).1) hempty none
      .asset ⟨fun hn => absurd hn (by decide), fun hn => absurd hn (by decide)⟩
    refine ⟨built ++ [s], ?_, ?_, ?_⟩
    · rw [if_neg (fun he => hempty (List.isEmpty_iff.mp he)), hfor]
      rfl
    · intro s' hs'
      rcases List.mem_append.mp hs' with hs' | hs'
      · exact hsections s' hs'
      · rw [List.mem_singleton.mp hs']
        exact hs
    · rw [List.map_append, List.flatten_append, hflat, List.map_singleton, List.flatten_singleton, haccounts]
      exact hperm

/-! ## The balance sheet -/

/-- Every account is in exactly one section. -/
structure Partitioned (accounts : List Account) (sections : List AccountSection) : Prop where
  once : ((sections.map AccountSection.accounts).flatten).Perm accounts
  unique : ∀ account ∈ accounts, ∃! s, s ∈ sections ∧ account ∈ s.accounts

theorem partitioned (hids : (accounts.map Account.id).Nodup)
    (h : ((sections.map AccountSection.accounts).flatten).Perm accounts) : Partitioned accounts sections := by
  refine ⟨h, fun account ha => ?_⟩
  obtain ⟨members, hmembers, hin⟩ := List.mem_flatten.mp (h.mem_iff.mpr ha)
  obtain ⟨s, hs, rfl⟩ := List.mem_map.mp hmembers
  refine ⟨s, ⟨hs, hin⟩, fun s' ⟨hs', hin'⟩ => ?_⟩
  have hdisjoint := (List.nodup_flatten.mp (h.nodup_iff.mpr (List.Nodup.of_map _ hids))).2
  rw [List.pairwise_map] at hdisjoint
  by_contra hne
  have : Std.Symm (fun a b : AccountSection => a.accounts.Disjoint b.accounts) := ⟨fun _ _ hd => hd.symm⟩
  exact hdisjoint.forall hs' hs hne hin' hin

/-- What a section adds to net worth. -/
theorem sheet_net (hs : ∀ s ∈ sections, Section T balances reporting rateFor s) : (balanceSheet sections).net =
    (((sections.map AccountSection.accounts).flatten).map (addsTo T balances reporting rateFor)).sum := by
  have hstep : ∀ (acc : Minor × Minor) (s : AccountSection), (sheetStep acc s).1 - (sheetStep acc s).2 =
      acc.1 - acc.2 + if s.side = .liability then -s.subtotal else s.subtotal := by
    intro acc s
    unfold sheetStep
    by_cases hside : s.side = .liability
    · rw [if_pos hside, if_pos hside, ← sub_eq_add_neg, sub_sub]
    · rw [if_neg hside, if_neg hside, sub_add_eq_add_sub]
  have hnet := foldl_measure (φ := fun acc : Minor × Minor => acc.1 - acc.2) hstep sections (0, 0)
  have hsigned : ∀ s ∈ sections, (if s.side = .liability then -s.subtotal else s.subtotal) =
      (s.accounts.map (addsTo T balances reporting rateFor)).sum := by
    intro s hin
    have hsection := hs s hin
    rw [hsection.subtotal]
    unfold displayBalance
    by_cases howed : s.owed = true
    · rw [if_pos (hsection.owed.mp howed), howed, Bool.not_true, if_neg (by decide)]
      by_cases hzero : (s.accounts.map (addsTo T balances reporting rateFor)).sum = 0
      · rw [if_pos hzero, hzero]
        rfl
      · rw [if_neg hzero, neg_neg]
    · rw [if_neg (fun hl => howed (hsection.owed.mpr hl)), Bool.eq_false_iff.mpr howed, Bool.not_false, if_pos rfl]
  unfold balanceSheet
  refine hnet.trans ?_
  rw [List.map_congr_left hsigned, List.map_flatten, List.sum_flatten, List.map_map, List.map_map, sub_self, zero_add]
  rfl

theorem active_eq (h : ∀ account ∈ accounts, account.archived = false) : active accounts = accounts :=
  List.filter_eq_self.mpr (fun account ha => by rw [h account ha]; rfl)

/-- Sections are a partition of the accounts, and read as a balance sheet they are net worth. -/
theorem sections_are_net_worth (hids : (accounts.map Account.id).Nodup) (hactive : ∀ account ∈ accounts, account.archived = false)
    (hgroups : (groups.map AccountGroup.id).Nodup) (hb : ∀ account ∈ accounts, (balances.get? account.id).isSome = true)
    (hrates : ∀ currency rate, rateFor currency = some rate → 0 < rate) :
    ∃ sections detail, buildSections T accounts groups balances reporting rateFor = .ok sections ∧
      netWorthDetail T accounts balances reporting rateFor = .ok detail ∧ Partitioned accounts sections ∧
      (balanceSheet sections).assets - (balanceSheet sections).liabilities = detail.total ∧
      (∀ code, (∃ s ∈ sections, code ∈ s.unconverted) ↔ ∃ currency ∈ detail.unconverted, T.toUpperCase currency = code) ∧
      (sections.map AccountSection.excluded).sum = detail.excluded := by
  obtain ⟨sections, hbuilt, hs, hperm⟩ := buildSections_ok (T := T) hrates hb hgroups
  refine ⟨sections, _, hbuilt, netWorthDetail_eq hrates, partitioned hids hperm, ?_, fun code => ?_, ?_⟩
  · refine (sheet_net hs).trans ?_
    rw [active_eq hactive]
    exact (hperm.map _).sum_eq
  · unfold counted
    rw [active_eq hactive]
    constructor
    · rintro ⟨s, hin, hcode⟩
      obtain ⟨account, ha, rfl⟩ := List.mem_map.mp (((hs s hin).unconverted code).mp hcode)
      unfold leftOut at ha
      rw [List.mem_filter, List.mem_filter] at ha
      have hmem : account ∈ accounts :=
        hperm.mem_iff.mp (List.mem_flatten.mpr ⟨s.accounts, List.mem_map_of_mem hin, ha.1.1⟩)
      refine ⟨account.currency, mem_distinct.mpr (List.mem_map_of_mem ?_), rfl⟩
      rw [List.mem_filter, List.mem_filter]
      exact ⟨⟨hmem, ha.1.2⟩, ha.2⟩
    · rintro ⟨currency, hcurrency, rfl⟩
      obtain ⟨account, ha, rfl⟩ := List.mem_map.mp (mem_distinct.mp hcurrency)
      rw [List.mem_filter, List.mem_filter] at ha
      obtain ⟨members, hmembers, hin⟩ := List.mem_flatten.mp (hperm.mem_iff.mpr ha.1.1)
      obtain ⟨s, hsin, rfl⟩ := List.mem_map.mp hmembers
      refine ⟨s, hsin, ((hs s hsin).unconverted _).mpr (List.mem_map.mpr ⟨account, ?_, rfl⟩)⟩
      unfold leftOut
      rw [List.mem_filter, List.mem_filter]
      exact ⟨⟨hin, ha.1.2⟩, ha.2⟩
  · have hexcluded : sections.map AccountSection.excluded =
        (sections.map AccountSection.accounts).map (fun l => (l.filter (fun account => !countsInTotals account)).length) := by
      rw [List.map_map]
      exact List.map_congr_left (fun s hin => (hs s hin).excluded)
    have hlength := @List.length_eq_length_filter_add _ accounts countsInTotals
    have hflat : ((sections.map AccountSection.accounts).map
        (fun l => (l.filter (fun account => !countsInTotals account)).length)).sum =
        (accounts.filter (fun account => !countsInTotals account)).length := by
      rw [← (hperm.filter _).length_eq, List.filter_flatten, List.length_flatten]
      exact congrArg List.sum List.map_map.symm
    rw [hexcluded, hflat]
    unfold counted
    rw [active_eq hactive]
    exact Nat.eq_sub_of_add_eq' hlength.symm

end Sections

/-! ### Cash and a card -/

def cash : Account := ⟨js "a-cash", js "USD", 1000000, false, none, none⟩

/-- Filed in a group that this device does not have. -/
def euros : Account := ⟨js "a-euro", js "EUR", 0, false, some (js "g-gone"), none⟩

def visa : Account := ⟨js "a-visa", js "USD", 0, false, some (js "g-cards"), none⟩

def cards : AccountGroup := ⟨js "g-cards", .creditCard⟩

def yen : Account := ⟨js "a-yen", js "JPY", 0, false, some (js "g-cards"), none⟩

/-- Left out of totals. -/
def jar : Account := ⟨js "a-jar", js "USD", 0, false, none, some true⟩

def purses : List Account := [cash, euros, visa, yen, jar]

def held : OrderedMap JsString Minor :=
  .ofList [(js "a-cash", 1000000), (js "a-euro", 500), (js "a-visa", -124000), (js "a-yen", 3000), (js "a-jar", 700)]

def yenRate (currency : JsString) : Option ℚ := if currency = js "JPY" then some (1 / 150) else none

theorem yenRate_pos : ∀ currency rate, yenRate currency = some rate → 0 < rate := by
  intro currency rate h
  unfold yenRate at h
  split_ifs at h
  rw [← Option.some.inj h]
  norm_num

theorem cash_and_card : ∃ sections detail, buildSections ascii purses [cards] held (js "USD") yenRate = .ok sections ∧
    netWorthDetail ascii purses held (js "USD") yenRate = .ok detail ∧ detail = ⟨878000, [js "EUR"], js "USD", 1⟩ ∧
    Partitioned purses sections ∧ (balanceSheet sections).assets - (balanceSheet sections).liabilities = detail.total ∧
    (∀ code, (∃ s ∈ sections, code ∈ s.unconverted) ↔ ∃ currency ∈ detail.unconverted, ascii.toUpperCase currency = code) ∧
    (sections.map AccountSection.excluded).sum = detail.excluded := by
  obtain ⟨sections, detail, hsections, hdetail, hrest⟩ := @sections_are_net_worth ascii purses [cards] held (js "USD")
    yenRate (by decide +kernel) (by decide +kernel) (by decide +kernel) (by decide +kernel) yenRate_pos
  refine ⟨sections, detail, hsections, hdetail, ?_, hrest⟩
  have hfigure : netWorthDetail ascii purses held (js "USD") yenRate = .ok ⟨878000, [js "EUR"], js "USD", 1⟩ := by
    decide +kernel
  exact Except.ok.inj (hdetail.symm.trans hfigure)

end Books

end EasyDocket
