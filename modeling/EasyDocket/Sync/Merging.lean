import EasyDocket.Sync.Agreement

/-!
# Merging in any order

The log that merging leaves depends on the order: stale operations are dropped.  What it leaves of the tables, and of
the newest stamp of each entity, does not.  Merging amounts to the last-writer-wins fold over log and operations wherever
log and tables agreed before, or something newer was merged.
-/

namespace EasyDocket

variable {β : Type}

/-- Merge one batch after the other. -/
def mergeAll (batches : List (List (Operation β))) (L : Ledger β) : Ledger β :=
  batches.foldl (fun L ops => (L.merge ops).1) L

/-- The operations of a log and of a collection. -/
def Ledger.with (L : Ledger β) (ops : List (Operation β)) : List (Operation β) :=
  L.oplog.rows.map LocalOperation.toOperation ++ ops

/-- The row the newest of some operations leaves of an entity. -/
def lwwRow (ops : List (Operation β)) (t : EntityName × JsString) : Option (Row β) :=
  Lww.fold (fun op : Operation β => op.hlc) Operation.target Operation.row ops t

/-- The newest stamp some operations have for an entity. -/
def lwwStamp (ops : List (Operation β)) (t : EntityName × JsString) : Option Stamp :=
  Lww.fold (fun op : Operation β => op.hlc) Operation.target (fun op => some op.hlc) ops t

/-- A collection of well-formed operations: puts carry a row of their entity, and stamps are unique, in the log of `L`
too. -/
structure WellFormed (L : Ledger β) (ops : List (Operation β)) : Prop where
  carries : ∀ op ∈ ops, op.Carries
  unique : ∀ a ∈ L.with ops, ∀ b ∈ L.with ops, a.hlc = b.hlc → a.SameWrite b

/-- Merging `ops`, however divided, ordered and repeated, leaves the tables and the newest stamps of the fold, and
merging any of it again changes nothing. -/
def MergeIndependent (L : Ledger β) (ops : List (Operation β)) : Prop :=
  ∀ batches : List (List (Operation β)), (∀ op, op ∈ batches.flatten ↔ op ∈ ops) →
    (∀ t, (mergeAll batches L).rowAt t = lwwRow (L.with ops) t) ∧
    (∀ e id, (mergeAll batches L).latestStampFor e id = lwwStamp (L.with ops) (e, id)) ∧
    ∀ part : List (Operation β), (∀ op ∈ part, op ∈ ops) →
      ((mergeAll batches L).merge part).2 = 0 ∧
      ((mergeAll batches L).merge part).1.tables = (mergeAll batches L).tables ∧
      ((mergeAll batches L).merge part).1.oplog = (mergeAll batches L).oplog

/-- The row of every entity that `ops` has nothing newer for is the one its newest logged operation leaves. -/
def AgreesElsewhere (L : Ledger β) (ops : List (Operation β)) : Prop :=
  ∀ t, (∀ op ∈ ops, op.target = t → L.Dominates t op.hlc) → L.AgreesAt t

section Merging

variable {L L' : Ledger β} {ops : List (Operation β)} {t : EntityName × JsString}

theorem mem_with {op : Operation β} :
    op ∈ L.with ops ↔ (∃ o ∈ L.oplog, o.toOperation = op) ∨ op ∈ ops := by
  simp [Ledger.with, Table.mem_def]

theorem WellFormed.coherent (h : WellFormed L ops) : L.Coherent ops :=
  ⟨fun a ha b hb hs => (h.unique a (mem_with.mpr (Or.inr ha)) b (mem_with.mpr (Or.inr hb)) hs).target,
    fun a ha o ho hs =>
      (h.unique o.toOperation (mem_with.mpr (Or.inl ⟨o, ho, rfl⟩)) a (mem_with.mpr (Or.inr ha)) hs).target⟩

/-- The run lemma of `mergeAll`. -/
theorem mergeAll_merged : ∀ (batches : List (List (Operation β))) (L : Ledger β),
    (∀ op ∈ batches.flatten, op.Carries) → L.Coherent batches.flatten →
    Ledger.Merged batches.flatten L (mergeAll batches L)
  | [], L, _, _ => Ledger.Merged.refl L (fun _ h => absurd h List.not_mem_nil)
  | ops :: batches, L, hc, hu => by
    rw [List.flatten_cons] at hc hu ⊢
    have h1 := Ledger.merge_merged (fun op hop => hc op (List.mem_append_left _ hop))
      (hu.subset (fun a ha => List.mem_append_left _ ha))
    exact h1.trans (mergeAll_merged batches _ (fun op hop => hc op (List.mem_append_right _ hop))
      (Ledger.Coherent.of_merged h1 hu))

theorem Ledger.Coherent.of_mem {ops' : List (Operation β)} (h : L.Coherent ops) (hmem : ∀ op, op ∈ ops' ↔ op ∈ ops) :
    L.Coherent ops' := h.subset (fun a ha => (hmem a).mp ha)

/-- A newest operation of the log after merging is a newest one of log and operations. -/
theorem newest_with (hm : Ledger.Merged ops L L') {o : LocalOperation β} (hnew : L'.Newest o) :
    Lww.Newest (fun op : Operation β => op.hlc) Operation.target (· ∈ L.with ops) o.toOperation := by
  refine ⟨mem_with.mpr ?_, fun b hb hk => ?_⟩
  · exact (hm.fresh o hnew.1).imp (fun ho => ⟨o, ho, rfl⟩) And.left
  · rcases mem_with.mp hb with ⟨o', ho', rfl⟩ | hop
    · exact hnew.2 o' (hm.kept o' ho') hk
    · obtain ⟨o', ho', ht, hle⟩ := hm.dominates b hop
      exact hle.trans (hnew.2 o' ho' (ht.trans hk))

/-- The fold at an entity the log has something of, after merging. -/
theorem fold_of_newest {ν : Type} {val : Operation β → Option ν} (hw : WellFormed L ops) (hm : Ledger.Merged ops L L')
    (hval : ∀ a b : Operation β, a.SameWrite b → val a = val b) {o : LocalOperation β} (hnew : L'.Newest o) :
    Lww.fold (fun op : Operation β => op.hlc) Operation.target val (L.with ops) o.target = val o.toOperation := by
  have hN := newest_with hm hnew
  exact Lww.fold_eq hN (fun b hb _ hs => hval b _ (hw.unique b hb _ hN.1 hs))

theorem fold_of_none {ν : Type} {val : Operation β → Option ν} (hm : Ledger.Merged ops L L')
    (hnone : ∀ o ∈ L'.oplog, o.target ≠ t) :
    Lww.fold (fun op : Operation β => op.hlc) Operation.target val (L.with ops) t = none := by
  refine Lww.fold_eq_none (fun op hop ht => ?_)
  rcases mem_with.mp hop with ⟨o, ho, rfl⟩ | hop
  · exact hnone o (hm.kept o ho) ht
  · obtain ⟨o, ho, hot, -⟩ := hm.dominates op hop
    exact hnone o ho (hot.trans ht)

theorem latestStampFor_merged (hw : WellFormed L ops) (hm : Ledger.Merged ops L L') (e : EntityName) (id : JsString) :
    L'.latestStampFor e id = lwwStamp (L.with ops) (e, id) := by
  by_cases hnone : ∀ o ∈ L'.oplog, o.target ≠ (e, id)
  · rw [Ledger.latestStampFor_eq_none.mpr hnone, lwwStamp, fold_of_none hm hnone]
  · push Not at hnone
    obtain ⟨o, ho, ht⟩ := hnone
    obtain ⟨m, hmt, hnew⟩ := Ledger.exists_newest ho
    have hval : lwwStamp (L.with ops) m.target = some m.hlc :=
      fold_of_newest hw hm (fun a b h => congrArg some h.hlc) hnew
    rw [hmt, ht] at hval
    rw [hval]
    exact Ledger.latestStampFor_eq_some.mpr ⟨⟨m, hnew.1, hmt.trans ht, rfl⟩,
      fun o' ho' ht' => hnew.2 o' ho' (ht'.trans (hmt.trans ht).symm)⟩

/-- After merging, the row of an entity is that of the fold exactly if it was so before or something newer came. -/
theorem rowAt_eq_iff (hw : WellFormed L ops) (hm : Ledger.Merged ops L L') :
    L'.rowAt t = lwwRow (L.with ops) t ↔ ((∀ op ∈ ops, op.target = t → L.Dominates t op.hlc) → L.AgreesAt t) := by
  have hlww : ∀ o, L'.Newest o → o.target = t → lwwRow (L.with ops) t = o.row := by
    rintro o hnew rfl
    exact fold_of_newest hw hm (fun a b h => h.row) hnew
  rcases hm.rows t with ⟨hrow, hlog⟩ | ⟨o, hnew, ht, hop, hd, hrow⟩
  · -- nothing newer came: the log has the same operations on the entity as before
    have hold : ∀ op ∈ ops, op.target = t → L.Dominates t op.hlc := by
      rintro op hop rfl
      obtain ⟨o, ho, hot, hle⟩ := hm.dominates op hop
      exact ⟨o, hlog o ho hot, hot, hle⟩
    have hnewest : ∀ o, o.target = t → (L'.Newest o ↔ L.Newest o) := by
      rintro o rfl
      constructor
      · exact fun h => ⟨hlog o h.1 rfl, fun b hb hk => h.2 b (hm.kept b hb) hk⟩
      · exact fun h => ⟨hm.kept o h.1, fun b hb hk => h.2 b (hlog b hb hk) hk⟩
    rw [hrow]
    constructor
    · refine fun heq _ => ⟨fun o hnew ht => ?_, fun hnone => ?_⟩
      · rw [heq, hlww o ((hnewest o ht).mpr hnew) ht]
      · rw [heq]
        exact fold_of_none hm (fun o ho ht => hnone o (hlog o ho ht) ht)
    · intro hag
      have hag := hag hold
      by_cases hnone : ∀ o ∈ L'.oplog, o.target ≠ t
      · rw [hag.2 (fun o ho => hnone o (hm.kept o ho)), lwwRow, fold_of_none hm hnone]
      · push Not at hnone
        obtain ⟨o, ho, ht⟩ := hnone
        obtain ⟨m, hmt, hnew⟩ := Ledger.exists_newest ho
        rw [hag.1 m ((hnewest m (hmt.trans ht)).mp hnew) (hmt.trans ht), hlww m hnew (hmt.trans ht)]
  · rw [hrow, hlww o hnew ht]
    constructor
    · exact fun _ hold => absurd (hold o.toOperation hop ht) hd
    · exact fun _ => rfl

/-- Merging well-formed operations is independent of order, division and repetition exactly if the rows they have
nothing newer for agree with the log. -/
theorem mergeIndependent_iff_agreesElsewhere (L : Ledger β) (ops : List (Operation β)) (hw : WellFormed L ops) :
    MergeIndependent L ops ↔ AgreesElsewhere L ops := by
  have hmerged : ∀ batches : List (List (Operation β)), (∀ op, op ∈ batches.flatten ↔ op ∈ ops) →
      Ledger.Merged ops L (mergeAll batches L) := fun batches hmem =>
    (mergeAll_merged batches L (fun op hop => hw.carries op ((hmem op).mp hop)) (hw.coherent.of_mem hmem)).congr
      (fun op => (hmem op).symm)
  constructor
  · intro h t
    have hmem : ∀ op, op ∈ [ops].flatten ↔ op ∈ ops := fun op => by simp
    exact (rowAt_eq_iff hw (hmerged [ops] hmem)).mp ((h [ops] hmem).1 t)
  · intro h batches hmem
    have hm := hmerged batches hmem
    refine ⟨fun t => (rowAt_eq_iff hw hm).mpr (h t), latestStampFor_merged hw hm, fun part hpart => ?_⟩
    exact Ledger.merge_of_dominates (fun op hop => hm.dominates op (hpart op hop))

end Merging

/-- A put of device `c`, on another entity. -/
def elsewhere : Operation Unit :=
  ⟨⟨5, 0, trio.deviceId .c⟩, .accounts, js "z", .put, some ⟨js "z", ⟨5, 0, trio.deviceId .c⟩, ()⟩, trio.deviceId .c⟩

/-- A put of device `b`. -/
def putBy (time : ℕ) (id : JsString) : Operation Unit :=
  ⟨⟨time, 0, trio.deviceId .b⟩, .accounts, id, .put, some ⟨id, ⟨time, 0, trio.deviceId .b⟩, ()⟩, trio.deviceId .b⟩

/-- A removal on device `b`. -/
def deleteBy (time : ℕ) (id : JsString) : Operation Unit :=
  ⟨⟨time, 0, trio.deviceId .b⟩, .accounts, id, .delete, none, trio.deviceId .b⟩

/-- Device `a` has put three entities and removed one of them. -/
def worked : TrioState :=
  trioPlay trioStart [.put .a 5 .accounts (js "x") (), .put .a 6 .accounts (js "y") (), .put .a 7 .accounts (js "w") (),
    .remove .a 8 .accounts (js "y")]

/-- A put and a later removal of one entity, a put that comes too late for one that was removed, a removal that is older than
the row it is about, and a put of another entity. -/
def arrivals : List (Operation Unit) :=
  [putBy 9 (js "x"), deleteBy 12 (js "x"), putBy 3 (js "y"), deleteBy 2 (js "w"), elsewhere]

theorem wellFormed_arrivals : WellFormed (worked.store.device .a).ledger arrivals := by
  have hnodup : (((worked.store.device .a).ledger.with arrivals).map (fun op => op.hlc)).Nodup := by decide +kernel
  refine ⟨?_, fun a ha b hb hs => ?_⟩
  · unfold arrivals
    simp only [List.forall_mem_cons]
    exact ⟨fun _ => ⟨_, rfl, rfl⟩, nofun, fun _ => ⟨_, rfl, rfl⟩, nofun, fun _ => ⟨_, rfl, rfl⟩, nofun⟩
  · rw [List.inj_on_of_nodup_map hnodup ha hb hs]
    exact Operation.SameWrite.refl b

/-- However they arrive, the removal that is newest and the one that came first stand, and so does the row that is newer than
what would remove it. -/
theorem mergeIndependent_arrivals : MergeIndependent (worked.store.device .a).ledger arrivals ∧
    ∀ batches : List (List (Operation Unit)), (∀ op, op ∈ batches.flatten ↔ op ∈ arrivals) →
      (mergeAll batches (worked.store.device .a).ledger).rowAt (.accounts, js "x") = none ∧
      (mergeAll batches (worked.store.device .a).ledger).rowAt (.accounts, js "y") = none ∧
      ((mergeAll batches (worked.store.device .a).ledger).rowAt (.accounts, js "w")).isSome = true := by
  have hreach : (trioWorld.restrict ObservedFirst (fun _ _ => True)).Reach (start Table.empty) worked :=
    reach_meetsMoves observedFirst_spec (E := fun _ => true) (fun _ _ _ _ => trivial) _ _ (by decide +kernel)
  have hahead := (allAhead_of_reach mapSite_empty hreach).2 .a
  have hindependent := (mergeIndependent_iff_agreesElsewhere _ _ wellFormed_arrivals).mpr (fun t _ => hahead.agrees t)
  refine ⟨hindependent, fun batches hmem => ?_⟩
  have hrows := (hindependent batches hmem).1
  rw [hrows, hrows, hrows]
  exact ⟨by decide +kernel, by decide +kernel, by decide +kernel⟩

/-! ## A ledger whose tables the log does not explain -/

/-- The user of device `b` has removed an entity whose row is ahead of the clock of device `b`. -/
def removedAhead : TrioState := trioPlay editedBetween [.remove .b 300 .accounts (js "y")]

theorem wellFormed_elsewhere : WellFormed (removedAhead.store.device .b).ledger [elsewhere] := by
  have hnodup : ((((removedAhead.store.device .b).ledger.with [elsewhere])).map (fun op => op.hlc)).Nodup := by
    decide +kernel
  refine ⟨fun op hop => ?_, fun a ha b hb hs => ?_⟩
  · rw [List.mem_singleton.mp hop]
    exact fun _ => ⟨_, rfl, rfl⟩
  · rw [List.inj_on_of_nodup_map hnodup ha hb hs]
    exact Operation.SameWrite.refl b

/-- Merging does not amount to the fold in every ledger that is reached. -/
theorem exists_not_mergeIndependent : ∃ c, trioWorld.Reach (start Table.empty) c ∧
    WellFormed (c.store.device .b).ledger [elsewhere] ∧ ¬ MergeIndependent (c.store.device .b).ledger [elsewhere] := by
  refine ⟨removedAhead, reach_editedBetween.trans (reach_play _), wellFormed_elsewhere, fun h => ?_⟩
  have hrow := (h [[elsewhere]] (fun op => by simp)).1 (.accounts, js "y")
  have hdiff : ((mergeAll [[elsewhere]] (removedAhead.store.device .b).ledger).rowAt (.accounts, js "y")).isSome ≠
      (lwwRow ((removedAhead.store.device .b).ledger.with [elsewhere]) (.accounts, js "y")).isSome := by decide +kernel
  exact hdiff (congrArg Option.isSome hrow)

end EasyDocket
