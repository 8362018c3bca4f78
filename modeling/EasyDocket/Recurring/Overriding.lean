import EasyDocket.Recurring.Sharing
import EasyDocket.Recurring.CatchUp

/-!
# The materialiser and the user

Rows that the materialiser generates compete with what users write by their stamps, like any other write.  The user's word
is the last one on every device as long as nothing is generated later than what users have written, and users write later
than what was generated: so it is where they write what their device knows.
-/

namespace EasyDocket

namespace Recurring

variable {D S : Type} [DecidableEq D] {V : Vault D} {site : Site D Entity S} {b b' : Book D S} {j : Errand D}

/-! ## The condition -/

/-- What is generated where users have written is stamped before something they wrote, and what a user is the first to
write is stamped after all that was generated there. -/
structure KeepsOrder (b b' : Book D S) : Prop where
  made : ∀ m ∈ b'.made, m ∉ b.made → ∀ u ∈ b.byUser, u.target = m.target →
    ∃ u' ∈ b.byUser, u'.target = m.target ∧ m.hlc ≤ u'.hlc
  first : ∀ u ∈ b'.byUser, u ∉ b.byUser → (∀ v ∈ b.byUser, v.target ≠ u.target) →
    ∀ m ∈ b.made, m.target = u.target → m.hlc ≤ u.hlc

/-! ## The invariant -/

/-- Whatever was generated where users have written, they have written something later. -/
structure UserLast (b : Book D S) : Prop where
  made : ∀ m ∈ b.made, m ∈ b.authored ∧ m.op = .put
  outranked : ∀ m ∈ b.made, ∀ u ∈ b.byUser, u.target = m.target → ∃ u' ∈ b.byUser, u'.target = m.target ∧ m.hlc ≤ u'.hlc

/-- What a step adds: one operation at most, and it is new. -/
inductive Adds (b b' : Book D S) : Prop
  | nothing (ha : b'.authored = b.authored) (hm : b'.made = b.made)
  | written (op : Operation Entity) (hnew : op ∉ b.authored) (ha : b'.authored = insert op b.authored) (hm : b'.made = b.made)
  | made (op : Operation Entity) (hput : op.op = .put) (hnew : op ∉ b.authored) (ha : b'.authored = insert op b.authored)
      (hm : b'.made = b.made ++ [op])

omit [DecidableEq D] in
theorem not_mem_of_edited {d : D} {L : Ledger Entity} {op : Operation Entity} (hs : Sound V site b.sync.store)
    (he : Ledger.Edited (V.deviceId d) (b.ledger d) L op) : op ∉ b.authored :=
  fun h => hlc_ne_of_edited hs he op h rfl

theorem Serving.adds (hs : Sound V site b.sync.store) {q : Demand} {r : Except RunError q.Reply}
    (h : Serving V j q b r b') : Adds b b' := by
  cases h with
  | put _ e id body wall L op h =>
    have hnew := not_mem_of_edited hs (Ledger.put_edited h)
    cases j with
    | materialise d asOf limit slot => exact .made op (op_of_put h).1 hnew rfl rfl
    | skip d ruleId date slot => exact .written op hnew rfl rfl
  | remove _ e id wall L op h =>
    have hnew := not_mem_of_edited hs (Ledger.remove_edited h)
    cases j <;> exact .written op hnew rfl rfl
  | missing _ id h => cases j <;> exact .nothing rfl rfl
  | _ => exact .nothing rfl rfl

theorem adds_of_world (hs : Sound V site b.sync.store) {sync : State D Entity S} (h : (world V site).Step b.sync sync) :
    Adds b { b with sync } := by
  obtain ⟨c, made, marked, settled⟩ := b
  cases h with
  | enter d h => exact .nothing rfl rfl
  | ask d q k r s h hserved => exact .nothing (authored_served hserved) rfl
  | done d a h => exact .nothing rfl rfl
  | failed d e h => exact .nothing rfl rfl
  | env s h =>
    obtain ⟨d, L, op, he, rfl⟩ := h.edited
    exact .written op (fun hmem => hlc_ne_of_edited hs he op hmem rfl) rfl rfl
  | crash d => exact .nothing rfl rfl

omit [DecidableEq D] in
theorem mem_byUser_written {op u : Operation Entity} (h : UserLast b) (hnew : op ∉ b.authored)
    (ha : b'.authored = insert op b.authored) (hm : b'.made = b.made) : u ∈ b'.byUser ↔ u = op ∨ u ∈ b.byUser := by
  unfold Book.byUser
  rw [ha, hm]
  refine ⟨fun ⟨hu, hnot⟩ => hu.imp_right (fun hu => ⟨hu, hnot⟩), ?_⟩
  rintro (rfl | ⟨hu, hnot⟩)
  · exact ⟨Or.inl rfl, fun hmade => hnew (h.made u hmade).1⟩
  · exact ⟨Or.inr hu, hnot⟩

omit [DecidableEq D] in
theorem byUser_made {op : Operation Entity} (hnew : op ∉ b.authored) (ha : b'.authored = insert op b.authored)
    (hm : b'.made = b.made ++ [op]) : b'.byUser = b.byUser := by
  refine Set.ext (fun u => ?_)
  unfold Book.byUser
  rw [ha, hm]
  constructor
  · rintro ⟨rfl | hu, hnot⟩
    · exact absurd (List.mem_append_right _ List.mem_cons_self) hnot
    · exact ⟨hu, fun hmade => hnot (List.mem_append_left _ hmade)⟩
  · rintro ⟨hu, hnot⟩
    refine ⟨Or.inr hu, fun hmem => ?_⟩
    rcases List.mem_append.mp hmem with hmem | hmem
    · exact hnot hmem
    · exact hnew (List.mem_singleton.mp hmem ▸ hu)

omit [DecidableEq D] in
/-- The step lemma. -/
theorem UserLast.step (h : UserLast b) (hadds : Adds b b') (hkeeps : KeepsOrder b b') : UserLast b' := by
  cases hadds with
  | nothing ha hm =>
    have huser : b'.byUser = b.byUser := by
      unfold Book.byUser
      rw [ha, hm]
    refine ⟨?_, ?_⟩
    · rw [ha, hm]
      exact h.made
    · rw [hm, huser]
      exact h.outranked
  | written op hnew ha hm =>
    have huser : ∀ u, u ∈ b'.byUser ↔ u = op ∨ u ∈ b.byUser := fun u => mem_byUser_written h hnew ha hm
    refine ⟨fun m hmade => ?_, fun m hmade u hu ht => ?_⟩
    · rw [hm] at hmade
      rw [ha]
      exact ⟨Or.inr (h.made m hmade).1, (h.made m hmade).2⟩
    rw [hm] at hmade
    -- the user had written something there before, or this is the first time
    have hold : (∃ v ∈ b.byUser, v.target = m.target) → ∃ u' ∈ b'.byUser, u'.target = m.target ∧ m.hlc ≤ u'.hlc := by
      rintro ⟨v, hv, hvt⟩
      obtain ⟨u', hu', ht', hle⟩ := h.outranked m hmade v hv hvt
      exact ⟨u', (huser u').mpr (Or.inr hu'), ht', hle⟩
    rcases (huser u).mp hu with rfl | hu
    · by_cases hfirst : ∃ v ∈ b.byUser, v.target = m.target
      · exact hold hfirst
      · refine ⟨u, hu, ht, hkeeps.first u hu (fun hmem => hfirst ⟨u, hmem, ht⟩) (fun v hv hvt => ?_) m hmade ht.symm⟩
        exact hfirst ⟨v, hv, hvt.trans ht⟩
    · exact hold ⟨u, hu, ht⟩
  | made op hput hnew ha hm =>
    have huser := byUser_made hnew ha hm
    refine ⟨fun m hmade => ?_, fun m hmade u hu ht => ?_⟩
    · rw [ha]
      rw [hm] at hmade
      rcases List.mem_append.mp hmade with hmade | hmade
      · exact ⟨Or.inr (h.made m hmade).1, (h.made m hmade).2⟩
      · rw [List.mem_singleton.mp hmade]
        exact ⟨Or.inl rfl, hput⟩
    · rw [huser] at hu ⊢
      by_cases hold : m ∈ b.made
      · exact h.outranked m hold u hu ht
      · exact hkeeps.made m hmade hold u hu ht

/-- Steps of the devices that keep the order of the stamps. -/
def OrderedEnv (V : Vault D) (site : Site D Entity S) (b b' : Book D S) : Prop := ObservedStep V site b b' ∧ KeepsOrder b b'

/-- The run lemma. -/
theorem userLast_reach {dest : S} (hdest : site.holds dest = ∅)
    {c : Conf (Errand D) Demand Demand.Reply RunError Unit (Book D S)}
    (h : ((sharing V site).restrict (fun _ _ => KeepsOrder) (OrderedEnv V site)).Reach (opened dest) c) : UserLast c.store := by
  induction h with
  | refl => exact ⟨fun m hm => absurd hm List.not_mem_nil, fun m hm => absurd hm List.not_mem_nil⟩
  | tail hreach hstep ih =>
    have hs := (allAhead_of_reach hdest (reach_sync (fun _ _ h => h.1) hreach)).1
    cases hstep with
    | enter d h => exact ih
    | ask d q k r s h hserved => exact ih.step (hserved.1.adds hs) hserved.2
    | done d a h => exact ih
    | failed d e h => exact ih
    | env s h =>
      obtain ⟨⟨sync, hworld, rfl⟩, -, hkeeps⟩ := h
      exact ih.step (adds_of_world hs hworld) hkeeps
    | crash d => exact ih

/-! ## What is left once everything is exchanged -/

omit [DecidableEq D] in
/-- The last write of all on what a user has written is a user's. -/
theorem UserLast.newest (h : UserLast b) (hs : Sound V site b.sync.store) (hex : Exchanged b.sync.store) {u : Operation Entity}
    (hu : u ∈ b.byUser) : ∃ w ∈ b.byUser, w.target = u.target ∧
      Lww.Newest (fun op : Operation Entity => op.hlc) Operation.target (· ∈ b.authored) w := by
  obtain ⟨w, hw, ht⟩ := exists_last_of_exchanged hs hex hu.1
  by_cases hmade : w ∈ b.made
  · obtain ⟨u', hu', ht', hle⟩ := h.outranked w hmade u hu ht.symm
    have heq : u' = w := hs.writes.unique u' hu'.1 w hw.1 (le_antisymm (hw.2 u' hu'.1 ht') hle)
    exact absurd (heq ▸ hmade) hu'.2
  · exact ⟨w, ⟨hw.1, hmade⟩, ht, hw⟩

omit [DecidableEq D] in
/-- What the materialiser has put leaves another row than any other write. -/
theorem row_ne_of_made (h : UserLast b) (hs : Sound V site b.sync.store) {m w : Operation Entity} (hm : m ∈ b.made)
    (hw : w ∈ b.byUser) : m.row ≠ w.row := by
  obtain ⟨hauth, hput⟩ := h.made m hm
  intro heq
  obtain ⟨r, hr, -⟩ := hs.writes.carries m hauth hput
  have hmr : m.row = some r := (Operation.row_put hput).trans hr
  have hsame : m.hlc = w.hlc :=
    (hs.writes.stamped m hauth r hmr).symm.trans (hs.writes.stamped w hw.1 r (heq.symm.trans hmr))
  exact hw.2 (hs.writes.unique m hauth w hw.1 hsame ▸ hm)

/-- Where every log knows as much of each entity as any other, everything is exchanged. -/
theorem exchanged_of_logs {dest : S} (hdest : site.holds dest = ∅)
    {c : Conf (Errand D) Demand Demand.Reply RunError Unit (Book D S)}
    (h : ((sharing V site).restrict (fun _ _ => KeepsOrder) (OrderedEnv V site)).Reach (opened dest) c)
    (hlogs : ∀ d d', ∀ o ∈ (c.store.ledger d').oplog.rows, ∃ o' ∈ (c.store.ledger d).oplog.rows,
      o'.target = o.target ∧ o.hlc ≤ o'.hlc) : Exchanged c.store.sync.store :=
  exchanged_of_covers (allAhead_of_reach hdest (reach_sync (fun _ _ h => h.1) h)).1 hlogs

/-- What a log says is removed was removed by a user. -/
theorem byUser_of_removed {dest : S} (hdest : site.holds dest = ∅)
    {c : Conf (Errand D) Demand Demand.Reply RunError Unit (Book D S)}
    (h : ((sharing V site).restrict (fun _ _ => KeepsOrder) (OrderedEnv V site)).Reach (opened dest) c) {d : D}
    {t : EntityName × JsString} (ho : ∃ o ∈ (c.store.ledger d).oplog.rows, o.op = .delete ∧ o.target = t) :
    ∃ u ∈ c.store.byUser, u.target = t := by
  obtain ⟨o, ho, hdel, ht⟩ := ho
  have hs := (allAhead_of_reach hdest (reach_sync (fun _ _ h => h.1) h)).1
  obtain ⟨u, hu, hsame⟩ := (hs.devices d).logged o ho
  refine ⟨u, ⟨hu, fun hmade => ?_⟩, hsame.target.symm.trans ht⟩
  have hput := ((userLast_reach hdest h).made u hmade).2
  exact absurd (hdel.symm.trans (hsame.2.2.1.trans hput)) (by decide)

/-- In every run of errands, edits, syncs and restarts on any number of devices that keeps the order of the stamps: once
everything is exchanged all devices show the same, and what a user has written or removed anywhere shows the last of the
users' writes on every device, never a generated row. -/
theorem user_prevails {dest : S} (hdest : site.holds dest = ∅)
    {c : Conf (Errand D) Demand Demand.Reply RunError Unit (Book D S)}
    (h : ((sharing V site).restrict (fun _ _ => KeepsOrder) (OrderedEnv V site)).Reach (opened dest) c)
    (hex : Exchanged c.store.sync.store) :
    (∀ d d' t, (c.store.ledger d).rowAt t = (c.store.ledger d').rowAt t) ∧
      ∀ u ∈ c.store.byUser, ∃ w ∈ c.store.byUser, w.target = u.target ∧
        (∀ v ∈ c.store.byUser, v.target = u.target → v.hlc ≤ w.hlc) ∧
        ∀ d, (c.store.ledger d).rowAt u.target = w.row ∧ ∀ m ∈ c.store.made, (c.store.ledger d).rowAt u.target ≠ m.row := by
  have hlast := userLast_reach hdest h
  obtain ⟨hs, ha⟩ := allAhead_of_reach hdest (reach_sync (fun _ _ h => h.1) h)
  refine ⟨fun d d' t => ?_, fun u hu => ?_⟩
  · exact (lastWritten_of_exchanged hs ha hex d t).unique hs.writes (lastWritten_of_exchanged hs ha hex d' t)
  · obtain ⟨w, hw, ht, hnew⟩ := hlast.newest hs hex hu
    refine ⟨w, hw, ht, fun v hv hvt => hnew.2 v hv.1 (hvt.trans ht.symm), fun d => ?_⟩
    have hrow : (c.store.ledger d).rowAt u.target = w.row := ht ▸ rowAt_of_last hs ha hex hnew d
    refine ⟨hrow, fun m hm => ?_⟩
    rw [hrow]
    exact (row_ne_of_made hlast hs hm hw).symm

/-! ## Where users write what their device knows -/

omit [DecidableEq D] in
theorem KeepsOrder.of_eq (ha : b'.authored = b.authored) (hm : b'.made = b.made) : KeepsOrder b b' := by
  refine ⟨fun m hmade hnot => absurd (hm ▸ hmade) hnot, fun u hu hnot => absurd ?_ hnot⟩
  unfold Book.byUser at hu ⊢
  rwa [ha, hm] at hu

omit [DecidableEq D] in
/-- A write of a user, stamped after what was generated there. -/
theorem KeepsOrder.of_written {op : Operation Entity} (ha : b'.authored = insert op b.authored) (hm : b'.made = b.made)
    (hlater : ∀ m ∈ b.made, m.target = op.target → m.hlc ≤ op.hlc) : KeepsOrder b b' := by
  refine ⟨fun m hmade hnot => absurd (hm ▸ hmade) hnot, fun u hu hnot _ m hmade ht => ?_⟩
  obtain ⟨hauth, hnm⟩ := hu
  rw [ha] at hauth
  rw [hm] at hnm
  rcases hauth with rfl | hauth
  · exact hlater m hmade ht
  · exact absurd ⟨hauth, hnm⟩ hnot

omit [DecidableEq D] in
/-- A row generated where no user has written. -/
theorem KeepsOrder.of_made {op : Operation Entity} (ha : b'.authored = insert op b.authored) (hm : b'.made = b.made ++ [op])
    (hnew : ∀ u ∈ b.byUser, u.target ≠ op.target) : KeepsOrder b b' := by
  refine ⟨fun m hmade hnot u hu ht => ?_, fun u hu hnot _ m hmade ht => ?_⟩
  · rw [hm] at hmade
    rcases List.mem_append.mp hmade with hmade | hmade
    · exact absurd hmade hnot
    · exact absurd (ht.trans (congrArg Operation.target (List.mem_singleton.mp hmade))) (hnew u hu)
  · obtain ⟨hauth, hnm⟩ := hu
    rw [ha] at hauth
    rw [hm] at hnm
    rcases hauth with rfl | hauth
    · exact absurd (List.mem_append_right _ List.mem_cons_self) hnm
    · exact absurd ⟨hauth, fun h => hnm (List.mem_append_left _ h)⟩ hnot

omit [DecidableEq D] in
/-- What the log of a device knows is stamped before what is written there next. -/
theorem le_of_known {d : D} {L : Ledger Entity} {op : Operation Entity} {t : EntityName × JsString} {x : Stamp}
    (ha : AllAhead b.sync.store) (he : Ledger.Edited (V.deviceId d) (b.ledger d) L op) (h : (b.ledger d).Dominates t x) :
    x ≤ op.hlc := by
  obtain ⟨o, ho, -, hle⟩ := h
  have hpast : (b.ledger d).clock.Past o.hlc := (ha d).past o ho
  refine hle.trans (Stamp.lt_of_time_lt ?_).le
  rw [he.stamp]
  exact lt_of_le_of_lt hpast he.time

omit [DecidableEq D] in
/-- An operation some device has authored is in a log. -/
theorem exists_logged (hs : Sound V site b.sync.store) {x : Operation Entity} (hx : x ∈ b.authored) :
    ∃ d, ∃ o ∈ (b.ledger d).oplog, o.toOperation = x := by
  obtain ⟨d, hd, -⟩ := hs.writes.author x hx
  exact ⟨d, (hs.devices d).own x hx hd⟩

/-- An errand puts what no log has anything on, and removes what its device knows all generated rows of. -/
structure Informed (j : Errand D) (q : Demand) (b _ : Book D S) : Prop where
  put : ∀ e id body, q = .ask (.put e id body) → ∀ d, ∀ o ∈ (b.ledger d).oplog, o.target ≠ (e, id)
  remove : ∀ e id, q = .remove e id → ∀ m ∈ b.made, m.target = (e, id) → (b.ledger j.device).Dominates m.target m.hlc

theorem Informed.keepsOrder (hs : Sound V site b.sync.store) (ha : AllAhead b.sync.store) (hlast : UserLast b) {q : Demand}
    {r : Except RunError q.Reply} (h : Serving V j q b r b') (hinf : Informed j q b b') : KeepsOrder b b' := by
  cases h with
  | put _ e id body wall L op h =>
    have hnone : ∀ x ∈ b.authored, x.target ≠ op.target := by
      intro x hx
      obtain ⟨d, o, ho, rfl⟩ := exists_logged hs hx
      rw [(op_of_put h).2.1]
      exact hinf.put e id body rfl d o ho
    cases j with
    | materialise d asOf limit slot => exact KeepsOrder.of_made rfl rfl (fun u hu => hnone u hu.1)
    | skip d ruleId date slot =>
      exact KeepsOrder.of_written rfl rfl (fun m hm ht => absurd ht (hnone m (hlast.made m hm).1))
  | remove _ e id wall L op h =>
    have hlater : ∀ m ∈ b.made, m.target = op.target → m.hlc ≤ op.hlc := fun m hm ht =>
      le_of_known ha (Ledger.remove_edited h) (hinf.remove e id rfl m hm (ht.trans (op_of_remove h).2))
    cases j <;> exact KeepsOrder.of_written rfl rfl hlater
  | missing _ id h => cases j <;> exact KeepsOrder.of_eq rfl rfl
  | _ => exact KeepsOrder.of_eq rfl rfl

/-- Informed errands keep the order of the stamps. -/
theorem reach_ordered {dest : S} (hdest : site.holds dest = ∅)
    {c : Conf (Errand D) Demand Demand.Reply RunError Unit (Book D S)}
    (h : ((sharing V site).restrict Informed (OrderedEnv V site)).Reach (opened dest) c) :
    ((sharing V site).restrict (fun _ _ => KeepsOrder) (OrderedEnv V site)).Reach (opened dest) c := by
  induction h with
  | refl => exact Relation.ReflTransGen.refl
  | tail hreach hstep ih =>
    obtain ⟨hs, ha⟩ := allAhead_of_reach hdest (reach_sync (fun _ _ h => h.1) hreach)
    refine ih.tail ?_
    cases hstep with
    | enter d h => exact Threads.Step.enter _ d h
    | ask d q k r s h hserved =>
      exact Threads.Step.ask _ d q k r s h ⟨hserved.1, hserved.2.keepsOrder hs ha (userLast_reach hdest ih) hserved.1⟩
    | done d a h => exact Threads.Step.done _ d a h
    | failed d e h => exact Threads.Step.failed _ d e h
    | env s h => exact Threads.Step.env _ s h
    | crash d => exact Threads.Step.crash _ d

/-- A user edits what their device knows all generated rows of. -/
theorem reach_edit {dest : S} (hdest : site.holds dest = ∅) {c : Conf (Errand D) Demand Demand.Reply RunError Unit (Book D S)}
    (h : ((sharing V site).restrict Informed (OrderedEnv V site)).Reach (opened dest) c) {d : D} {L : Ledger Entity}
    {op : Operation Entity} (hedit : Edit V c.store.sync.store (c.store.sync.store.afterEdit d L op))
    (he : Ledger.Edited (V.deviceId d) (c.store.ledger d) L op)
    (hknown : ∀ m ∈ c.store.made, m.target = op.target → (c.store.ledger d).Dominates m.target m.hlc) :
    ((sharing V site).restrict Informed (OrderedEnv V site)).Reach (opened dest) ⟨c.store.edited d L op, c.running⟩ := by
  obtain ⟨-, ha⟩ := allAhead_of_reach hdest (reach_sync (fun _ _ h => h.1) h)
  refine Relation.ReflTransGen.tail h (Threads.Step.env c _ ⟨⟨_, Threads.Step.env _ _ hedit, rfl⟩, ?_, ?_⟩)
  · exact Threads.Step.env _ _ ⟨hedit, trivial⟩
  · exact KeepsOrder.of_written rfl rfl (fun m hm ht => le_of_known ha he (hknown m hm ht))

/-! ## A run -/

abbrev TrioBook := Conf (Errand Trio) Demand Demand.Reply RunError Unit (Book Trio (ObjectMap Entity))

abbrev trioSharing := (sharing trio (mapSite Trio Entity)).restrict Informed (OrderedEnv trio (mapSite Trio Entity))

/-- A user edits on a device. -/
def TrioBook.edit (c : TrioBook) (m : Move Trio Entity) : TrioBook :=
  ⟨{ c.store with sync := play trio (mapSite Trio Entity) c.store.sync m }, c.running⟩

/-- Devices sync. -/
def TrioBook.exchange (c : TrioBook) (moves : List (Move Trio Entity)) : TrioBook :=
  ⟨{ c.store with sync := moves.foldl (play trio (mapSite Trio Entity)) c.store.sync }, c.running⟩

/-- The first requests of an errand. -/
def TrioBook.run (c : TrioBook) (j : Errand Trio) (wall n : ℕ) : TrioBook :=
  ⟨(j.prog.runFor (serveErrand trio wall j) n c.store).2,
    Function.update c.running j (some (j.prog.runFor (serveErrand trio wall j) n c.store).1)⟩

/-- Whether an errand puts what no log has anything on. -/
def informed (q : Demand) (b _ : Book Trio (ObjectMap Entity)) : Bool :=
  match q with
  | .ask (.put e id _) => [Trio.a, .b, .c].all (fun d => (b.ledger d).oplog.rows.all (fun o => o.target ≠ (e, id)))
  | .remove _ _ => false
  | _ => true

theorem informed_spec {j : Errand Trio} {q : Demand} {b b' : Book Trio (ObjectMap Entity)} (h : informed q b b' = true) :
    Informed j q b b' := by
  refine ⟨?_, ?_⟩
  · rintro e id body rfl d o ho
    have hall := List.all_eq_true.mp h d (by cases d <;> decide)
    exact of_decide_eq_true (List.all_eq_true.mp hall o ho)
  · rintro e id rfl
    exact absurd h Bool.false_ne_true

section Errands

variable {okStep : Errand Trio → Demand → Book Trio (ObjectMap Entity) → Book Trio (ObjectMap Entity) → Prop}
  {okEnv : Book Trio (ObjectMap Entity) → Book Trio (ObjectMap Entity) → Prop}

theorem reach_errand (hspec : ∀ j q b b', informed q b b' = true → okStep j q b b') (c : TrioBook) (j : Errand Trio) (wall n : ℕ)
    (hidle : c.running j = none) (hm : j.prog.meetsFor informed (serveErrand trio wall j) n c.store = true) :
    ((sharing trio (mapSite Trio Entity)).restrict okStep okEnv).Reach c (c.run j wall n) := by
  have henter : ((sharing trio (mapSite Trio Entity)).restrict okStep okEnv).Reach c ⟨c.store, Function.update c.running j (some j.prog)⟩ :=
    Relation.ReflTransGen.single (Threads.Step.enter c j hidle)
  have hrun : ((sharing trio (mapSite Trio Entity)).restrict okStep okEnv).Reach
      ⟨c.store, Function.update c.running j (some j.prog)⟩ ⟨_, _⟩ :=
    Threads.reach_runFor (fun q s _ => serving_serveErrand wall j q s) (hspec j) n j.prog
      ⟨c.store, Function.update c.running j (some j.prog)⟩ (Function.update_self ..) hm
  simp only [Function.update_idem] at hrun
  exact henter.trans hrun

theorem reach_exchange_moves
    (henv : ∀ b b', ObservedStep trio (mapSite Trio Entity) b b' → b'.authored = b.authored → b'.made = b.made → okEnv b b')
    (c : TrioBook) (moves : List (Move Trio Entity))
    (hm : meetsMoves trio (mapSite Trio Entity) observedFirst (fun _ => false) c.store.sync moves = true) :
    ((sharing trio (mapSite Trio Entity)).restrict okStep okEnv).Reach c (c.exchange moves) :=
  reach_exchange henv c (reach_meetsMoves observedFirst_spec (fun _ _ h _ => absurd h Bool.false_ne_true) moves c.store.sync hm)

end Errands

/-- Whose edit a move is. -/
def editor : Move Trio Entity → Option Trio
  | .put d _ _ _ _ => some d
  | .remove d _ _ _ => some d
  | _ => none

/-- A user who edits knows all rows that were generated. -/
theorem reach_edit_move {c : TrioBook} (h : trioSharing.Reach (opened Table.empty) c) {m : Move Trio Entity} {d : Trio}
    (hm : editor m = some d) (hknown : ∀ x ∈ c.store.made, ∃ o ∈ (c.store.ledger d).oplog.rows, o.target = x.target ∧ x.hlc ≤ o.hlc) :
    trioSharing.Reach (opened Table.empty) (c.edit m) := by
  unfold TrioBook.edit
  cases m with
  | put d' wall e id body =>
    cases hm
    simp only [play]
    split
    · rename_i L op hput
      exact reach_edit mapSite_empty h (Edit.put _ d wall e id body L op hput) (Ledger.put_edited hput)
        (fun x hx _ => hknown x hx)
    · exact h
  | remove d' wall e id =>
    cases hm
    simp only [play]
    split
    · rename_i L op hremove
      exact reach_edit mapSite_empty h (Edit.remove _ d wall e id L op hremove) (Ledger.remove_edited hremove)
        (fun x hx _ => hknown x hx)
    · exact h
  | _ => cases hm

/-- Device `a` has a rule. -/
def ruled : TrioBook := TrioBook.edit (opened Table.empty) (.put .a 0 .recurringRules coffeeId (.rule (coffee (daily none))))

/-- The materialiser has run on device `a`, and device `b` has the row. -/
def generated : TrioBook :=
  TrioBook.exchange (ruled.run (.materialise .a (js "2024-01-01") 1 0) 0 5) [.begin .a, .finish .a 6, .begin .b, .finish .b 6]

/-- The user of device `b` has removed the row, and all have synced. -/
def withdrawn : TrioBook :=
  TrioBook.exchange (generated.edit (.remove .b 7 .transactions (occurrenceId coffeeId (js "2024-01-01"))))
    [.begin .b, .finish .b 8, .begin .c, .finish .c 8, .begin .a, .finish .a 8]

theorem reach_withdrawn : trioSharing.Reach (opened Table.empty) withdrawn := by
  have hruled : trioSharing.Reach (opened Table.empty) ruled :=
    reach_edit_move Relation.ReflTransGen.refl (d := .a) rfl (fun x hx => absurd hx List.not_mem_nil)
  have hrun : trioSharing.Reach ruled _ :=
    reach_errand (fun _ _ _ _ => informed_spec) ruled (.materialise .a (js "2024-01-01") 1 0) 0 5 rfl (by decide +kernel)
  have hsyncs : ∀ (c : TrioBook) (moves : List (Move Trio Entity)),
      meetsMoves trio (mapSite Trio Entity) observedFirst (fun _ => false) c.store.sync moves = true →
      trioSharing.Reach c (c.exchange moves) :=
    reach_exchange_moves (fun _ _ hstep ha hmade => ⟨hstep, KeepsOrder.of_eq ha hmade⟩)
  have hgenerated : trioSharing.Reach (opened Table.empty) generated :=
    (hruled.trans hrun).trans (hsyncs _ _ (by decide +kernel))
  exact (reach_edit_move hgenerated (d := .b) rfl (by decide +kernel)).trans (hsyncs _ _ (by decide +kernel))

/-- A row was generated, and the removal has the last word everywhere. -/
theorem user_prevails_withdrawn : withdrawn.store.made.length = 1 ∧ ∃ w ∈ withdrawn.store.byUser,
    ∀ d, (withdrawn.store.ledger d).rowAt (.transactions, occurrenceId coffeeId (js "2024-01-01")) = w.row := by
  have hordered := reach_ordered mapSite_empty reach_withdrawn
  have hcovers : ∀ d d', ∀ o ∈ (withdrawn.store.ledger d').oplog.rows,
      ∃ o' ∈ (withdrawn.store.ledger d).oplog.rows, o'.target = o.target ∧ o.hlc ≤ o'.hlc := by
    intro d d'
    cases d <;> cases d' <;> decide +kernel
  have hremoved : ∃ o ∈ (withdrawn.store.ledger .b).oplog.rows, o.op = .delete ∧
      o.target = (.transactions, occurrenceId coffeeId (js "2024-01-01")) := by
    decide +kernel
  obtain ⟨u, huser, htarget⟩ := byUser_of_removed mapSite_empty hordered hremoved
  obtain ⟨w, hw, -, -, hrows⟩ := (user_prevails mapSite_empty hordered (exchanged_of_logs mapSite_empty hordered hcovers)).2 u huser
  exact ⟨by decide +kernel, w, hw, fun d => htarget ▸ (hrows d).1⟩

end Recurring

end EasyDocket
