import EasyDocket.Sync.Delivering

/-!
# Convergence

What a device shows is decided by the operations it knows, and by nothing else: devices that know the same show the same,
and once everything is known everywhere all tables are those of the last writer of each entity.
-/

namespace EasyDocket

variable {D β S : Type} [DecidableEq D] {V : Vault D} {site : Site D β S} {d d' : D}

/-! ## The last writer -/

/-- The row that the last of some writes on an entity leaves; there is none where nothing was written. -/
def LastWritten (A : Set (Operation β)) (t : EntityName × JsString) (r : Option (Row β)) : Prop :=
  (∃ x, Lww.Newest (fun op : Operation β => op.hlc) Operation.target (· ∈ A) x ∧ x.target = t ∧ x.row = r) ∨
    (∀ x ∈ A, x.target ≠ t) ∧ r = none

omit [DecidableEq D] in
theorem LastWritten.unique {A : Set (Operation β)} (hA : Writes V A) {t : EntityName × JsString} {r r' : Option (Row β)}
    (h : LastWritten A t r) (h' : LastWritten A t r') : r = r' := by
  rcases h with ⟨x, hx, ht, rfl⟩ | ⟨hnone, rfl⟩ <;> rcases h' with ⟨y, hy, ht', rfl⟩ | ⟨hnone', rfl⟩
  · have hle : x.hlc ≤ y.hlc := hy.2 x hx.1 (ht.trans ht'.symm)
    have hge : y.hlc ≤ x.hlc := hx.2 y hy.1 (ht'.trans ht.symm)
    rw [hA.unique x hx.1 y hy.1 (le_antisymm hle hge)]
  · exact absurd ht (hnone' x hx.1)
  · exact absurd ht' (hnone y hy.1)
  · rfl

theorem tables_eq {L L' : Ledger β} (h : ∀ t, L.rowAt t = L'.rowAt t) (e : EntityName) : L.tables e = L'.tables e :=
  Table.ext_get? (fun id => h (e, id))

/-! ## What is known decides what is shown -/

/-- Everything in one log, or something later on its entity, is in the other. -/
def Covers (L L' : Ledger β) : Prop := ∀ o ∈ L'.oplog, L.Dominates o.target o.hlc

omit [DecidableEq D] in
/-- Logs that cover one another have the same rows beside them. -/
theorem rowAt_eq_of_covers {s : Store D β S} (hs : Sound V site s) (ha : AllAhead s)
    (h : Covers (s.device d).ledger (s.device d').ledger) (h' : Covers (s.device d').ledger (s.device d).ledger)
    (t : EntityName × JsString) : (s.device d).ledger.rowAt t = (s.device d').ledger.rowAt t := by
  by_cases hnone : ∀ o ∈ (s.device d).ledger.oplog, o.target ≠ t
  · have hnone' : ∀ o ∈ (s.device d').ledger.oplog, o.target ≠ t := by
      rintro o ho rfl
      obtain ⟨o', ho', ht, -⟩ := h o ho
      exact hnone o' ho' ht
    rw [((ha d).agrees t).2 hnone, ((ha d').agrees t).2 hnone']
  · push Not at hnone
    obtain ⟨o, ho, rfl⟩ := hnone
    obtain ⟨m, hm, hnew⟩ := Ledger.exists_newest ho
    obtain ⟨o', ho', ht', hle'⟩ := h' m hnew.1
    obtain ⟨m', hm', hnew'⟩ := Ledger.exists_newest ho'
    obtain ⟨o'', ho'', ht'', hle''⟩ := h m' hnew'.1
    -- the newest operations of the two logs have the same stamp
    have hle : m.hlc ≤ m'.hlc := hle'.trans (hnew'.2 o' ho' hm'.symm)
    have hge : m'.hlc ≤ m.hlc := hle''.trans (hnew.2 o'' ho'' (ht''.trans (hm'.trans ht')))
    have hsame := hs.writes.sameWrite ((hs.devices d).logged m hnew.1) ((hs.devices d').logged m' hnew'.1)
      (le_antisymm hle hge)
    rw [((ha d).agrees o.target).1 m hnew hm, ((ha d').agrees o.target).1 m' hnew' (hm'.trans (ht'.trans hm))]
    exact hsame.row

/-- In every run that merges nothing the clock is not past, over any destination: devices whose logs cover one another
have the same tables, in whatever order and by whatever objects they have come to know what they know. -/
theorem tables_eq_of_covers {dest : S} (hdest : site.holds dest = ∅) {c : State D β S}
    (h : ((world V site).restrict ObservedFirst (fun _ _ => True)).Reach (start dest) c) (d d' : D)
    (hc : Covers (c.store.device d).ledger (c.store.device d').ledger)
    (hc' : Covers (c.store.device d').ledger (c.store.device d).ledger) (e : EntityName) :
    (c.store.device d).ledger.tables e = (c.store.device d').ledger.tables e := by
  obtain ⟨hs, ha⟩ := allAhead_of_reach hdest h
  exact tables_eq (rowAt_eq_of_covers hs ha hc hc') e

/-! ## Everything is known -/

/-- Every device has every operation in its log, or a later one on the same entity. -/
def Exchanged (s : Store D β S) : Prop :=
  ∀ d, ∀ x ∈ s.ghost.authored, (s.device d).ledger.Dominates x.target x.hlc

section Exchanged

variable {s : Store D β S} {x : Operation β}

omit [DecidableEq D] in
theorem exchanged_of_covers (hs : Sound V site s)
    (h : ∀ d d', Covers (s.device d).ledger (s.device d').ledger) : Exchanged s := by
  intro d x hx
  obtain ⟨a, ha, -⟩ := hs.writes.author x hx
  obtain ⟨o, ho, rfl⟩ := (hs.devices a).own x hx ha
  exact h d a o ho

omit [DecidableEq D] in
/-- Once everything is known everywhere, every entity has a last writer. -/
theorem exists_last_of_exchanged (hs : Sound V site s) (hex : Exchanged s) (hx : x ∈ s.ghost.authored) :
    ∃ y, Lww.Newest (fun op : Operation β => op.hlc) Operation.target (· ∈ s.ghost.authored) y ∧ y.target = x.target := by
  obtain ⟨a, -, -⟩ := hs.writes.author x hx
  obtain ⟨o, ho, ht, -⟩ := hex a x hx
  obtain ⟨m, hm, hnew⟩ := Ledger.exists_newest ho
  obtain ⟨y, hy, hsame⟩ := (hs.devices a).logged m hnew.1
  refine ⟨y, ⟨hy, fun z hz hzt => ?_⟩, hsame.target.symm.trans (hm.trans ht)⟩
  obtain ⟨o', ho', ht', hle'⟩ := hex a z hz
  refine (hle'.trans (hnew.2 o' ho' (ht'.trans (hzt.trans hsame.target.symm)))).trans hsame.hlc.le

omit [DecidableEq D] in
theorem rowAt_of_last (hs : Sound V site s) (ha : AllAhead s) (hex : Exchanged s)
    (hx : Lww.Newest (fun op : Operation β => op.hlc) Operation.target (· ∈ s.ghost.authored) x) (d : D) :
    (s.device d).ledger.rowAt x.target = x.row := by
  obtain ⟨o, ho, ht, hle⟩ := hex d x hx.1
  obtain ⟨m, hm, hnew⟩ := Ledger.exists_newest ho
  obtain ⟨y, hy, hsame⟩ := (hs.devices d).logged m hnew.1
  have hyx : y.hlc ≤ x.hlc := hx.2 y hy (hsame.target.symm.trans (hm.trans ht))
  have hxm : x.hlc ≤ m.hlc := hle.trans (hnew.2 o ho hm.symm)
  have heq : y = x := hs.writes.unique y hy x hx.1 (le_antisymm hyx (hxm.trans hsame.hlc.le))
  rw [((ha d).agrees x.target).1 m hnew (hm.trans ht), ← heq]
  exact hsame.row

omit [DecidableEq D] in
theorem lastWritten_of_exchanged (hs : Sound V site s) (ha : AllAhead s) (hex : Exchanged s) (d : D)
    (t : EntityName × JsString) : LastWritten s.ghost.authored t ((s.device d).ledger.rowAt t) := by
  by_cases hnone : ∀ x ∈ s.ghost.authored, x.target ≠ t
  · refine Or.inr ⟨hnone, ((ha d).agrees t).2 (fun o ho ht => ?_)⟩
    obtain ⟨y, hy, hsame⟩ := (hs.devices d).logged o ho
    exact hnone y hy (hsame.target.symm.trans ht)
  · push Not at hnone
    obtain ⟨x, hx, rfl⟩ := hnone
    obtain ⟨y, hlast, ht⟩ := exists_last_of_exchanged hs hex hx
    exact Or.inl ⟨y, hlast, ht, (ht ▸ rowAt_of_last hs ha hex hlast d).symm⟩

end Exchanged

/-! ## Runs that end -/

section Runs

variable {c₀ c : State D β (ObjectMap β)}

/-- Careful steps that merge nothing the clock is not past. -/
def Settling (d : D) (q : Request β) (s s' : Store D β (ObjectMap β)) : Prop := ObservedFirst d q s s' ∧ Careful d q s s'

theorem authored_served {s s' : Store D β S} {q : Request β} {r : Except SyncError q.Reply} (h : Served site d q s r s') :
    s'.ghost.authored = s.ghost.authored := by
  rcases h with ⟨wall, coin, h⟩ | h
  · cases q with
    | call c =>
      obtain ⟨-, rfl⟩ := Prod.mk.inj h
      rfl
    | query q =>
      obtain ⟨-, rfl⟩ := Prod.mk.inj h
      rfl
  · cases h
    rfl

/-- Without edits nothing is authored. -/
theorem authored_of_reach {okStep : D → Request β → Store D β S → Store D β S → Prop} {c₀ c : State D β S}
    (h : ((world V site).restrict okStep (fun _ _ => False)).Reach c₀ c) :
    c.store.ghost.authored = c₀.store.ghost.authored := by
  induction h with
  | refl => rfl
  | tail _ hstep ih =>
    rw [← ih]
    cases hstep with
    | enter d h => rfl
    | ask d q k r s h hs => exact authored_served hs.1
    | done d a h => rfl
    | failed d e h => rfl
    | env s h => exact h.2.elim
    | crash d => rfl

/-- Once edits have stopped and every queue is empty, two more cycles of each device leave the tables of the last writers
on all devices, whatever snapshots, failures and restarts there are. -/
theorem converged (h₀ : ((world V (mapSite D β)).restrict Settling (fun _ _ => True)).Reach (start Table.empty) c₀)
    (hquiet : ∀ d, (c₀.store.device d).ledger.unsynced = [])
    (h : ((world V (mapSite D β)).restrict Settling (fun _ _ => False)).Reach c₀ c)
    (hcycles : ∀ d, c₀.store.ghost.finished d + 2 ≤ c.store.ghost.finished d) :
    (∀ d t, LastWritten c.store.ghost.authored t ((c.store.device d).ledger.rowAt t)) ∧
      ∀ d d' e, (c.store.device d).ledger.tables e = (c.store.device d').ledger.tables e := by
  have hc₀ : ((world V (mapSite D β)).restrict Careful (fun _ _ => True)).Reach (start Table.empty) c₀ :=
    h₀.weaken (fun _ _ _ _ hs => hs.2) (fun _ _ _ => trivial)
  have hc : ((world V (mapSite D β)).restrict Careful (fun _ _ => False)).Reach c₀ c :=
    h.weaken (fun _ _ _ _ hs => hs.2) (fun _ _ hf => hf)
  have hobserved : ((world V (mapSite D β)).restrict ObservedFirst (fun _ _ => True)).Reach (start Table.empty) c :=
    (h₀.weaken (fun _ _ _ _ hs => hs.1) (fun _ _ _ => trivial)).trans
      (h.weaken (fun _ _ _ _ hs => hs.1) (fun _ _ _ => trivial))
  obtain ⟨hs, ha⟩ := allAhead_of_reach mapSite_empty hobserved
  have hauthored := authored_of_reach h
  -- everything was sent when edits stopped
  have hstored : ∀ x ∈ c₀.store.ghost.authored, Stored c₀.store x := by
    intro x hx
    obtain ⟨hs₀, hdel⟩ := (kept_of_careful hc₀).1
    obtain ⟨a, hxa, -⟩ := hs₀.writes.author x hx
    rcases pending_or_stored hs₀ hdel.sent hx hxa with ⟨o, ho, -⟩ | hst
    · rw [hquiet a] at ho
      exact absurd ho List.not_mem_nil
    · exact hst
  have hex : Exchanged c.store := fun d x hx => caughtUp_of_reach hc₀ hc hstored (hcycles d) x (hauthored ▸ hx)
  have hlast := lastWritten_of_exchanged hs ha hex
  exact ⟨hlast, fun d d' => tables_eq (fun t => (hlast d t).unique hs.writes (hlast d' t))⟩

end Runs

/-! ## A run that ends -/

def settling (d : D) (q : Request β) (s s' : Store D β (ObjectMap β)) : Bool := observedFirst d q s s' && carefully d q s s'

omit [DecidableEq D] in
theorem settling_spec (d : D) (q : Request β) (s s' : Store D β (ObjectMap β)) (h : settling d q s s' = true) :
    Settling d q s s' :=
  ⟨observedFirst_spec d q s s' (Bool.and_eq_true_iff.mp h).1, carefully_spec d q s s' (Bool.and_eq_true_iff.mp h).2⟩

theorem reach_pushedTwo : (trioWorld.restrict Settling (fun _ _ => True)).Reach (start Table.empty) pushedTwo :=
  reach_meetsMoves settling_spec (E := fun _ => true) (fun _ _ _ _ => trivial) _ _ (by decide +kernel)

theorem reach_exchangedTwo : (trioWorld.restrict Settling (fun _ _ => False)).Reach pushedTwo exchangedTwo :=
  reach_meetsMoves settling_spec (E := fun _ => false) (fun _ _ h _ => absurd h Bool.false_ne_true) _ _ (by decide +kernel)

/-- Two devices have written the same entity, and the third has the row of the later one. -/
theorem converged_exchangedTwo : (exchangedTwo.store.device .c).ledger.tables .accounts =
    (exchangedTwo.store.device .a).ledger.tables .accounts := by
  have hquiet : ∀ d, (pushedTwo.store.device d).ledger.unsynced = [] := by
    intro d
    cases d <;> decide +kernel
  have hcycles : ∀ d, pushedTwo.store.ghost.finished d + 2 ≤ exchangedTwo.store.ghost.finished d := by
    intro d
    cases d <;> decide +kernel
  exact (converged reach_pushedTwo hquiet reach_exchangedTwo hcycles).2 .c .a .accounts

theorem tables_eq_exchangedTwo : (exchangedTwo.store.device .a).ledger.tables .accounts =
    (exchangedTwo.store.device .b).ledger.tables .accounts := by
  have hreach : (trioWorld.restrict ObservedFirst (fun _ _ => True)).Reach (start Table.empty) exchangedTwo :=
    (reach_pushedTwo.weaken (fun _ _ _ _ hs => hs.1) (fun _ _ _ => trivial)).trans
      (reach_exchangedTwo.weaken (fun _ _ _ _ hs => hs.1) (fun _ _ _ => trivial))
  have hab : ∀ o ∈ (exchangedTwo.store.device .b).ledger.oplog.rows,
      ∃ o' ∈ (exchangedTwo.store.device .a).ledger.oplog.rows, o'.target = o.target ∧ o.hlc ≤ o'.hlc := by
    decide +kernel
  have hba : ∀ o ∈ (exchangedTwo.store.device .a).ledger.oplog.rows,
      ∃ o' ∈ (exchangedTwo.store.device .b).ledger.oplog.rows, o'.target = o.target ∧ o.hlc ≤ o'.hlc := by
    decide +kernel
  exact tables_eq_of_covers mapSite_empty hreach .a .b hab hba .accounts

end EasyDocket
