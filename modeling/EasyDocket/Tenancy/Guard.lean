import EasyDocket.Sync.Engine

/-!
# What a cycle uploads is what it was given

Whatever predicate holds of the operations and rows a device reads, and of those it downloads from objects of its
vault, holds of all it uploads and merges; and it names and labels its uploads with the vault it began for.
-/

namespace EasyDocket

open SyncService

variable {β : Type} {V : JsString} {Q : Operation β → Prop}

/-- Every operation that writes a row `r` of the table `e` satisfies `Q`. -/
def RowOf (Q : Operation β → Prop) (e : EntityName) (r : Row β) : Prop :=
  ∀ op : Operation β, op.value = some r → op.entity = e → Q op

theorem RowOf.mono {Q Q' : Operation β → Prop} (hq : ∀ op, Q op → Q' op) {e : EntityName} {r : Row β}
    (h : RowOf Q e r) : RowOf Q' e r := fun op hv he => hq op (h op hv he)

/-- What a cycle for the vault `V` may ask when its operations are to satisfy `Q`. -/
def MayAsk (V : JsString) (Q : Operation β → Prop) : Request β → Prop
  | .call (.put n e) => n.vault = V ∧ e.header.v = V ∧ ∀ op ∈ e.operations, Q op
  | .query (.merge ops) => ∀ op ∈ ops, Q op
  | .query (.record _ names) => ∀ n ∈ names, n.vault = V
  | _ => True

/-- The names are of the vault `v`. -/
def NamesOf (v : JsString) (names : List ObjectName) : Prop := ∀ n ∈ names, n.vault = v

/-- An object of the vault `V` holds what satisfies `Q`. -/
def OpensTo (V : JsString) (Q : Operation β → Prop) (e : Envelope β) : Prop :=
  e.header.v = V → ∀ op ∈ e.operations, Q op

def LogOf (Q : Operation β → Prop) (l : List (LocalOperation β)) : Prop := ∀ o ∈ l, Q o.toOperation

def RowsOf (Q : Operation β → Prop) (e : EntityName) (rows : List (Row β)) : Prop := ∀ r ∈ rows, RowOf Q e r

/-- What a cycle for the vault `V` gets when what it reads satisfies `Q`. -/
def Gets (V : JsString) (Q : Operation β → Prop) : (q : Request β) → Except SyncError q.Reply → Prop
  | .call (.list v _), .ok names => NamesOf v names
  | .call (.get _), .ok e => OpensTo V Q e
  | .query .pendingOperations, .ok l => LogOf Q l
  | .query (.readTable e), .ok rows => RowsOf Q e rows
  | _, _ => True

/-- The program asks only what it may for the vault `V`, and ends in `post`. -/
def Guards {α : Type} (V : JsString) (Q : Operation β → Prop) (post : α → Prop) (p : Sync β α) : Prop :=
  p.Guarded (MayAsk V Q) (Gets V Q) post

namespace Guards

variable {α γ : Type} {post : α → Prop}

theorem pure {a : α} (h : post a) : Guards V Q post (Pure.pure a : Sync β α) := h

theorem throw (e : SyncError) : Guards V Q post (throw e : Sync β α) := trivial

theorem bind {p : Sync β γ} {f : γ → Sync β α} {mid : γ → Prop} (hp : Guards V Q mid p)
    (hf : ∀ a, mid a → Guards V Q post (f a)) : Guards V Q post (p >>= f) :=
  Prog.Guarded.bind (Prog.Guarded.mono hp hf)

theorem mono {p : Sync β α} {post' : α → Prop} (hp : Guards V Q post p) (h : ∀ a, post a → post' a) :
    Guards V Q post' p := Prog.Guarded.mono hp h

theorem query {q : Query β} {f : q.Reply → Sync β α} (hq : MayAsk V Q (.query q))
    (h : ∀ a : q.Reply, Gets V Q (.query q) (.ok a) → Guards V Q post (f a)) :
    Guards V Q post (Sync.query q >>= f) := Prog.Guarded.request hq h

theorem call {c : Call β} {f : c.Reply → Sync β α} (hc : MayAsk V Q (.call c))
    (h : ∀ a : c.Reply, Gets V Q (.call c) (.ok a) → Guards V Q post (f a)) :
    Guards V Q post (Sync.call c >>= f) := Prog.Guarded.request hc h

end Guards

/-! ## Pulling -/

section Pull

variable {device : JsString}

theorem openBatch_guards (e : Envelope β) :
    Guards V Q (fun value : OperationBatch β => value.ops = e.operations) (openBatch e) := by
  unfold openBatch Envelope.operations
  cases e.payload with
  | ops batch => exact Guards.pure rfl
  | snapshot s => exact Guards.throw .malformed

theorem openSnapshot_guards (e : Envelope β) :
    Guards V Q (fun value : LedgerSnapshot β => value.operations = e.operations) (openSnapshot e) := by
  unfold openSnapshot Envelope.operations
  cases e.payload with
  | ops batch => exact Guards.throw .malformed
  | snapshot s => exact Guards.pure rfl

theorem applySnapshot_guards (seen : Finset ObjectName) :
    Guards V Q (fun _ => True) (applySnapshot ⟨V, device⟩ seen : Sync β _) := by
  unfold applySnapshot
  refine Guards.call trivial (fun ns hns => ?_)
  cases hlast : List.getLast? ns with
  | none => exact Guards.pure trivial
  | some newest =>
    have hv : newest.vault = V := hns newest (List.mem_of_getLast? hlast)
    show Guards V Q _ (if newest ∈ seen then _ else _)
    split_ifs with hseen
    · exact Guards.pure trivial
    refine Guards.call trivial (fun e he => ?_)
    refine Guards.bind (openSnapshot_guards e) (fun value hvalue => ?_)
    split_ifs with hh
    · exact Guards.pure trivial
    refine Guards.query trivial (fun _ _ => ?_)
    refine Guards.query (fun op hop => ?_) (fun _ _ => ?_)
    · exact he (not_not.mp hh) op (hvalue ▸ hop)
    refine Guards.query (fun n hn => ?_) (fun _ _ => ?_)
    · rw [List.mem_singleton.mp hn]
      exact hv
    exact Guards.query trivial (fun _ _ => Guards.pure trivial)

/-- What is kept of the objects downloaded so far. -/
def GotOwn (V : JsString) (Q : Operation β → Prop) (acc : Download β) : Prop :=
  (∀ op ∈ acc.ops, Q op) ∧ ∀ n ∈ acc.applied, n.vault = V

theorem download_guards {acc : Download β} (hacc : GotOwn V Q acc) {n : ObjectName} (hn : n.vault = V) :
    Guards V Q (GotOwn V Q) (download ⟨V, device⟩ acc n) := by
  have happ : ∀ m ∈ acc.applied ++ [n], m.vault = V := by
    intro m hm
    rcases List.mem_append.mp hm with hm | hm
    · exact hacc.2 m hm
    · rw [List.mem_singleton.mp hm]
      exact hn
  unfold download
  refine Guards.call trivial (fun e he => ?_)
  refine Guards.bind (openBatch_guards e) (fun value hvalue => ?_)
  split_ifs with hv hd
  · exact Guards.pure hacc
  · exact Guards.pure ⟨hacc.1, happ⟩
  · refine Guards.pure ⟨fun op hop => ?_, happ⟩
    rcases List.mem_append.mp hop with hop | hop
    · exact hacc.1 op hop
    · exact he (not_not.mp hv) op (hvalue ▸ hop)

theorem pullFresh_guards {fresh : List ObjectName} (hfresh : ∀ n ∈ fresh, n.vault = V) :
    Guards V Q (fun _ => True) (pullFresh ⟨V, device⟩ fresh : Sync β _) := by
  unfold pullFresh
  split_ifs with hf
  · exact Guards.pure trivial
  have hempty : GotOwn V Q (⟨[], [], []⟩ : Download β) :=
    ⟨fun op hop => absurd hop List.not_mem_nil, fun n hn => absurd hn List.not_mem_nil⟩
  refine Guards.bind (Prog.Guarded.foldlM (GotOwn V Q) fresh _ hempty
    (fun acc n hn hacc => download_guards hacc (hfresh n hn))) (fun got hgot => ?_)
  refine Guards.query trivial (fun _ _ => ?_)
  refine Guards.query hgot.1 (fun count _ => ?_)
  exact Guards.query hgot.2 (fun _ _ => Guards.pure trivial)

theorem pullOps_guards (watermark : Option Stamp) (seen : Finset ObjectName) :
    Guards V Q (fun _ => True) (pullOps ⟨V, device⟩ watermark seen : Sync β _) := by
  unfold pullOps
  refine Guards.call trivial (fun remote hremote => ?_)
  have hunseen : ∀ {p : ObjectName → Bool}, ∀ n ∈ (List.filter (· ∉ seen) remote).filter p, n.vault = V :=
    fun n hn => hremote n (List.mem_of_mem_filter (List.mem_of_mem_filter hn))
  simp only
  split_ifs with hc
  · exact Guards.query hunseen (fun _ _ => pullFresh_guards hunseen)
  · exact pullFresh_guards hunseen

theorem pull_guards : Guards V Q (fun _ => True) (pull ⟨V, device⟩ : Sync β _) := by
  unfold pull
  refine Guards.query trivial (fun seen _ => ?_)
  exact Guards.bind (applySnapshot_guards seen) (fun r _ => pullOps_guards r.1 r.2)

end Pull

/-! ## Pushing -/

section Push

variable {device : JsString}

theorem sealJson_guards (header : EnvelopeHeader) (payload : Payload β) :
    Guards V Q (fun e : Envelope β => e.header = header ∧ e.payload = payload) (sealJson header payload) := by
  unfold sealJson
  exact Guards.query trivial (fun _ _ => Guards.pure ⟨rfl, rfl⟩)

theorem pushSlice_guards (pushed : ℕ) {slice : List (LocalOperation β)} (h : ∀ o ∈ slice, Q o.toOperation) :
    Guards V Q (fun _ => True) (pushSlice ⟨V, device⟩ pushed slice) := by
  unfold pushSlice
  cases slice.getLast? with
  | none => exact Guards.pure trivial
  | some last =>
    refine Guards.bind (sealJson_guards _ _) (fun e he => ?_)
    refine Guards.call ⟨rfl, by rw [he.1], fun op hop => ?_⟩ (fun _ _ => ?_)
    · rw [Envelope.operations, he.2] at hop
      obtain ⟨o, ho, rfl⟩ := List.mem_map.mp hop
      exact h o ho
    refine Guards.query (fun n hn => ?_) (fun _ _ => ?_)
    · rw [List.mem_singleton.mp hn]
      rfl
    exact Guards.query trivial (fun _ _ => Guards.pure trivial)

theorem push_guards : Guards V Q (fun _ => True) (push ⟨V, device⟩ : Sync β _) := by
  unfold push
  refine Guards.query trivial (fun pending hpending => ?_)
  refine Prog.Guarded.foldlM (fun _ => True) _ _ trivial (fun pushed slice hslice _ => ?_)
  exact pushSlice_guards pushed (fun o ho => hpending o (mem_of_mem_slices hslice o ho))

end Push

/-! ## Snapshots -/

section Snapshot

variable {device : JsString}

theorem removes_guards (names : List ObjectName) : Guards V Q (fun _ => True) (names.foldlM removeOne () : Sync β _) := by
  refine Prog.Guarded.foldlM (fun _ => True) names () trivial (fun _ n _ _ => ?_)
  exact Guards.call trivial (fun _ _ => Prog.Guarded.request_last trivial (fun _ _ => trivial))

theorem prune_guards (w : Stamp) : Guards V Q (fun _ => True) (prune ⟨V, device⟩ w : Sync β _) := by
  refine Prog.Guarded.tryCatch ?_ (fun _ => Guards.pure trivial)
  have hboth : Guards V Q (fun _ => True) (listBoth ⟨V, device⟩ : Sync β _) := by
    refine Guards.query trivial (fun first _ => ?_)
    cases first with
    | true => exact Guards.call trivial (fun _ _ => Guards.call trivial (fun _ _ => Guards.pure trivial))
    | false => exact Guards.call trivial (fun _ _ => Guards.call trivial (fun _ _ => Guards.pure trivial))
  exact Guards.bind hboth (fun _ _ => removes_guards _)

theorem rowsOf_update {entities : EntityName → List (Row β)} {e : EntityName} {rows : List (Row β)}
    (h : ∀ t, RowsOf Q t (entities t)) (hrows : RowsOf Q e rows) :
    ∀ t, RowsOf Q t (Function.update entities e rows t) := by
  intro t
  by_cases ht : t = e
  · rw [ht, Function.update_self]
    exact hrows
  · rw [Function.update_of_ne ht]
    exact h t

theorem readTables_guards : Guards V Q (fun entities : EntityName → List (Row β) => ∀ e, RowsOf Q e (entities e))
    (ENTITY_NAMES.foldlM readInto (fun _ => [])) := by
  refine Prog.Guarded.foldlM _ ENTITY_NAMES _ (fun e r hr => absurd hr List.not_mem_nil) (fun entities e _ hacc => ?_)
  exact Guards.query trivial (fun rows hrows => Guards.pure (rowsOf_update hacc hrows))

theorem writeSnapshot_guards : Guards V Q (fun _ => True) (writeSnapshot ⟨V, device⟩ : Sync β _) := by
  unfold writeSnapshot
  refine Guards.query trivial (fun operations _ => ?_)
  cases List.getLast? operations with
  | none => exact Guards.pure trivial
  | some last =>
    refine Guards.bind readTables_guards (fun entities hentities => ?_)
    refine Guards.bind (sealJson_guards _ _) (fun e he => ?_)
    refine Guards.call ⟨rfl, by rw [he.1], fun op hop => ?_⟩ (fun _ _ => ?_)
    · rw [Envelope.operations, he.2] at hop
      obtain ⟨t, r, hr, rfl⟩ := LedgerSnapshot.mem_operations.mp hop
      exact hentities t r hr _ rfl rfl
    refine Guards.query (fun n hn => ?_) (fun _ _ => ?_)
    · rw [List.mem_singleton.mp hn]
      rfl
    exact Guards.query trivial (fun _ _ => prune_guards _)

theorem maybeSnapshot_guards : Guards V Q (fun _ => True) (maybeSnapshot ⟨V, device⟩ : Sync β _) := by
  unfold maybeSnapshot
  refine Guards.query trivial (fun last _ => Guards.query trivial (fun since _ => ?_))
  split_ifs with h
  · exact Guards.pure trivial
  · exact writeSnapshot_guards

end Snapshot

/-- A cycle uploads and merges only what satisfies the predicate that all it reads satisfies. -/
theorem runCycle_guards (device : JsString) : Guards V Q (fun _ => True) (runCycle ⟨V, device⟩ : Sync β Unit) := by
  unfold runCycle
  refine Guards.bind pull_guards (fun _ _ => Guards.bind push_guards (fun _ _ => ?_))
  refine Guards.bind maybeSnapshot_guards (fun _ _ => ?_)
  exact Prog.Guarded.request_last trivial (fun _ _ => trivial)

end EasyDocket
