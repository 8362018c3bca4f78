import EasyDocket.Sync.NameText
import EasyDocket.Sync.Runs
import EasyDocket.Sync.MapSite

/-!
# Names in runs

What a cycle puts, gets and removes has a name made from its vault and from a stamp of one of its devices.  The server
takes those names of operation objects, and those of snapshots not; none is asked for while a device is below the
number of operations that a snapshot is written after.
-/

namespace EasyDocket

open SyncService

variable {D β S : Type} {V : Vault D} {K : ObjectKind → Prop}

/-! ## What a cycle names -/

/-- A stamp of a device of the vault that has room in a name. -/
structure StampOf (V : Vault D) (s : Stamp) : Prop where
  fits : Clock.Fits ⟨s.physical, s.counter⟩
  device : ∃ d, s.device = V.deviceId d

/-- A name the vault makes for an object of one of the kinds `K`. -/
structure NameOf (V : Vault D) (K : ObjectKind → Prop) (n : ObjectName) : Prop where
  vault : n.vault = V.vaultId
  kind : K n.kind
  stamp : StampOf V n.stamp

/-- The names in a request. -/
def namesIn : Request β → List ObjectName
  | .call (.get n) => [n]
  | .call (.put n _) => [n]
  | .call (.remove n) => [n]
  | _ => []

/-- The prefixes in a request. -/
def prefixesIn : Request β → List JsString
  | .call (.list vault kind) => [objectPrefix vault kind]
  | _ => []

/-- The client and the server agree on the names and prefixes of a request. -/
structure AgreesOn (q : Request β) : Prop where
  names : ∀ n ∈ namesIn q, Agrees n
  prefixes : ∀ p ∈ prefixesIn q, ServerLists p

/-- What a cycle asks for. -/
structure MayName (V : Vault D) (K : ObjectKind → Prop) (q : Request β) : Prop where
  names : ∀ n ∈ namesIn q, NameOf V K n
  prefixes : ∀ p ∈ prefixesIn q, ∃ kind, p = objectPrefix V.vaultId kind

def AllNamed (V : Vault D) (K : ObjectKind → Prop) (names : List ObjectName) : Prop := ∀ n ∈ names, NameOf V K n

def AllStamped (V : Vault D) (l : List (LocalOperation β)) : Prop := ∀ o ∈ l, StampOf V o.hlc

/-- Where snapshots have no names, too few operations have accumulated for one. -/
def NoneDue (K : ObjectKind → Prop) (n : ℕ) : Prop := ¬ K .snapshot → n < SNAPSHOT_AFTER_OPERATIONS

/-- What it gets. -/
def GetsNamed (V : Vault D) (K : ObjectKind → Prop) : (q : Request β) → Except SyncError q.Reply → Prop
  | .call (.list _ _), .ok names => AllNamed V K names
  | .query .pendingOperations, .ok l => AllStamped V l
  | .query .readOplog, .ok l => AllStamped V l
  | .query (.countSince _), .ok n => NoneDue K n
  | _, _ => True

/-- The program names only what the vault makes, of the kinds `K`. -/
def Names {α : Type} (V : Vault D) (K : ObjectKind → Prop) (post : α → Prop) (p : Sync β α) : Prop :=
  p.Guarded (MayName V K) (GetsNamed V K) post

namespace Names

variable {α γ : Type} {post : α → Prop}

theorem pure {a : α} (h : post a) : Names V K post (Pure.pure a : Sync β α) := h

theorem throw (e : SyncError) : Names V K post (throw e : Sync β α) := trivial

theorem bind {p : Sync β γ} {f : γ → Sync β α} {mid : γ → Prop} (hp : Names V K mid p)
    (hf : ∀ a, mid a → Names V K post (f a)) : Names V K post (p >>= f) :=
  Prog.Guarded.bind (Prog.Guarded.mono hp hf)

theorem query {q : Query β} {f : q.Reply → Sync β α}
    (h : ∀ a : q.Reply, GetsNamed V K (.query q) (.ok a) → Names V K post (f a)) : Names V K post (Sync.query q >>= f) :=
  Prog.Guarded.request ⟨nofun, nofun⟩ h

theorem call {c : Call β} {f : c.Reply → Sync β α} (hc : MayName V K (.call c))
    (h : ∀ a : c.Reply, GetsNamed V K (.call c) (.ok a) → Names V K post (f a)) :
    Names V K post (Sync.call c >>= f) := Prog.Guarded.request hc h

end Names

theorem mayName_of {q : Request β} {n : ObjectName} (hn : namesIn q = [n]) (hp : prefixesIn q = []) (h : NameOf V K n) :
    MayName V K q := by
  refine ⟨fun m hm => ?_, fun p hp' => ?_⟩
  · rw [hn] at hm
    rw [List.mem_singleton.mp hm]
    exact h
  · rw [hp] at hp'
    exact absurd hp' List.not_mem_nil

theorem mayName_list (kind : ObjectKind) : MayName V K (.call (.list V.vaultId kind) : Request β) := by
  refine ⟨nofun, fun p hp => ⟨kind, ?_⟩⟩
  rw [List.mem_singleton.mp hp]

/-! ## Pulling -/

variable {device : JsString}

theorem openBatch_names (e : Envelope β) : Names V K (fun _ => True) (openBatch e : Sync β _) := by
  unfold openBatch
  cases e.payload with
  | ops batch => exact Names.pure trivial
  | snapshot s => exact Names.throw .malformed

theorem openSnapshot_names (e : Envelope β) : Names V K (fun _ => True) (openSnapshot e : Sync β _) := by
  unfold openSnapshot
  cases e.payload with
  | ops batch => exact Names.throw .malformed
  | snapshot s => exact Names.pure trivial

theorem applySnapshot_names (seen : Finset ObjectName) :
    Names V K (fun _ => True) (applySnapshot ⟨V.vaultId, device⟩ seen : Sync β _) := by
  unfold applySnapshot
  refine Names.call (mayName_list .snapshot) (fun ns hns => ?_)
  cases hlast : List.getLast? ns with
  | none => exact Names.pure trivial
  | some newest =>
    show Names V K _ (if newest ∈ seen then _ else _)
    split_ifs with hseen
    · exact Names.pure trivial
    refine Names.call (mayName_of rfl rfl (hns newest (List.mem_of_getLast? hlast))) (fun e _ => ?_)
    refine Names.bind (openSnapshot_names e) (fun value _ => ?_)
    split_ifs with hv
    · exact Names.pure trivial
    refine Names.query (fun _ _ => Names.query (fun _ _ => Names.query (fun _ _ => ?_)))
    exact Names.query (fun _ _ => Names.pure trivial)

theorem download_names (acc : Download β) {n : ObjectName} (hn : NameOf V K n) :
    Names V K (fun _ => True) (download ⟨V.vaultId, device⟩ acc n) := by
  unfold download
  refine Names.call (mayName_of rfl rfl hn) (fun e _ => Names.bind (openBatch_names e) (fun value _ => ?_))
  split_ifs
  all_goals exact Names.pure trivial

theorem pullFresh_names {fresh : List ObjectName} (hfresh : ∀ n ∈ fresh, NameOf V K n) :
    Names V K (fun _ => True) (pullFresh ⟨V.vaultId, device⟩ fresh : Sync β _) := by
  unfold pullFresh
  split_ifs with hf
  · exact Names.pure trivial
  refine Names.bind (Prog.Guarded.foldlM (fun _ => True) fresh _ trivial
    (fun acc n hn _ => download_names acc (hfresh n hn))) (fun got _ => ?_)
  exact Names.query (fun _ _ => Names.query (fun _ _ => Names.query (fun _ _ => Names.pure trivial)))

theorem pullOps_names (watermark : Option Stamp) (seen : Finset ObjectName) :
    Names V K (fun _ => True) (pullOps ⟨V.vaultId, device⟩ watermark seen : Sync β _) := by
  unfold pullOps
  refine Names.call (mayName_list .ops) (fun remote hremote => ?_)
  have hunseen : ∀ {p : ObjectName → Bool}, ∀ n ∈ (List.filter (· ∉ seen) remote).filter p, NameOf V K n :=
    fun n hn => hremote n (List.mem_of_mem_filter (List.mem_of_mem_filter hn))
  simp only
  split_ifs with hc
  · exact Names.query (fun _ _ => pullFresh_names hunseen)
  · exact pullFresh_names hunseen

theorem pull_names : Names V K (fun _ => True) (pull ⟨V.vaultId, device⟩ : Sync β _) := by
  unfold pull
  refine Names.query (fun seen _ => ?_)
  exact Names.bind (applySnapshot_names seen) (fun r _ => pullOps_names r.1 r.2)

/-! ## Pushing -/

theorem sealJson_names (header : EnvelopeHeader) (payload : Payload β) :
    Names V K (fun _ => True) (sealJson header payload : Sync β _) := by
  unfold sealJson
  exact Names.query (fun _ _ => Names.pure trivial)

theorem pushSlice_names (hK : K .ops) (pushed : ℕ) {slice : List (LocalOperation β)} (h : ∀ o ∈ slice, StampOf V o.hlc) :
    Names V K (fun _ => True) (pushSlice ⟨V.vaultId, device⟩ pushed slice) := by
  unfold pushSlice
  cases hlast : slice.getLast? with
  | none => exact Names.pure trivial
  | some last =>
    have hname : NameOf V K (opsObjectName V.vaultId last.hlc) := ⟨rfl, hK, h last (List.mem_of_getLast? hlast)⟩
    refine Names.bind (sealJson_names _ _) (fun e _ => Names.call (mayName_of rfl rfl hname) (fun _ _ => ?_))
    exact Names.query (fun _ _ => Names.query (fun _ _ => Names.pure trivial))

theorem push_names (hK : K .ops) : Names V K (fun _ => True) (push ⟨V.vaultId, device⟩ : Sync β _) := by
  unfold push
  refine Names.query (fun pending hpending => ?_)
  refine Prog.Guarded.foldlM (fun _ => True) _ _ trivial (fun pushed slice hslice _ => ?_)
  exact pushSlice_names hK pushed (fun o ho => hpending o (mem_of_mem_slices hslice o ho))

/-! ## Snapshots -/

theorem removes_names {names : List ObjectName} (h : AllNamed V K names) :
    Names V K (fun _ => True) (names.foldlM removeOne () : Sync β _) := by
  refine Prog.Guarded.foldlM (fun _ => True) names () trivial (fun _ n hn _ => ?_)
  refine Names.call (mayName_of rfl rfl (h n hn)) (fun _ _ => ?_)
  exact Prog.Guarded.request_last ⟨nofun, nofun⟩ (fun _ _ => trivial)

theorem listBoth_names : Names V K (fun r => AllNamed V K r.1 ∧ AllNamed V K r.2)
    (listBoth ⟨V.vaultId, device⟩ : Sync β _) := by
  refine Names.query (fun first _ => ?_)
  cases first with
  | true =>
    refine Names.call (mayName_list .ops) (fun ops hops => ?_)
    exact Names.call (mayName_list .snapshot) (fun snapshots hsnapshots => Names.pure ⟨hops, hsnapshots⟩)
  | false =>
    refine Names.call (mayName_list .snapshot) (fun snapshots hsnapshots => ?_)
    exact Names.call (mayName_list .ops) (fun ops hops => Names.pure ⟨hops, hsnapshots⟩)

theorem prune_names (w : Stamp) : Names V K (fun _ => True) (prune ⟨V.vaultId, device⟩ w : Sync β _) := by
  refine Prog.Guarded.tryCatch ?_ (fun _ => Names.pure trivial)
  refine Names.bind listBoth_names (fun r hr => removes_names (fun n hn => ?_))
  rcases List.mem_append.mp hn with hn | hn
  · exact hr.1 n (List.mem_of_mem_filter hn)
  · exact hr.2 n (List.mem_of_mem_filter hn)

theorem writeSnapshot_names (hK : K .snapshot) :
    Names V K (fun _ => True) (writeSnapshot ⟨V.vaultId, device⟩ : Sync β _) := by
  unfold writeSnapshot
  refine Names.query (fun operations hoperations => ?_)
  cases hlast : List.getLast? operations with
  | none => exact Names.pure trivial
  | some last =>
    have hname : NameOf V K (snapshotObjectName V.vaultId last.hlc) :=
      ⟨rfl, hK, hoperations last (List.mem_of_getLast? hlast)⟩
    refine Names.bind (Prog.Guarded.foldlM (fun _ => True) ENTITY_NAMES _ trivial
      (fun entities e _ _ => Names.query (fun _ _ => Names.pure trivial))) (fun entities _ => ?_)
    refine Names.bind (sealJson_names _ _) (fun e _ => Names.call (mayName_of rfl rfl hname) (fun _ _ => ?_))
    exact Names.query (fun _ _ => Names.query (fun _ _ => prune_names _))

theorem maybeSnapshot_names : Names V K (fun _ => True) (maybeSnapshot ⟨V.vaultId, device⟩ : Sync β _) := by
  unfold maybeSnapshot
  refine Names.query (fun last _ => Names.query (fun since hsince => ?_))
  split_ifs with h
  · exact Names.pure trivial
  · exact writeSnapshot_names (by_contra (fun hK => h (hsince hK)))

/-- A cycle names only what the vault makes. -/
theorem runCycle_names (hK : K .ops) (device : JsString) :
    Names V K (fun _ => True) (runCycle ⟨V.vaultId, device⟩ : Sync β Unit) := by
  unfold runCycle
  refine Names.bind pull_names (fun _ _ => Names.bind (push_names hK) (fun _ _ => ?_))
  refine Names.bind maybeSnapshot_names (fun _ _ => ?_)
  exact Prog.Guarded.request_last ⟨nofun, nofun⟩ (fun _ _ => trivial)

/-! ## What is stored has a name -/

/-- Stamps have room, and objects of the kinds `K` are stored under names the vault makes. -/
structure AllNames (V : Vault D) (K : ObjectKind → Prop) (s : Store D β S) : Prop where
  fits : ∀ x ∈ s.ghost.authored, Clock.Fits ⟨x.hlc.physical, x.hlc.counter⟩
  stored : ∀ p ∈ s.ghost.stored, NameOf V K p.1

/-- The stamps of all operations are within the nineteen digits they are written in. -/
def InTime (s : Store D β S) : Prop := ∀ x ∈ s.ghost.authored, x.hlc.physical < 10 ^ PHYSICAL_WIDTH

/-- A device that looks whether a snapshot is due finds too few operations, unless snapshots are of the kinds `K`. -/
def BelowDue (K : ObjectKind → Prop) (d : D) (q : Request β) (s : Store D β S) : Prop :=
  match q with
  | .query (.countSince last) => NoneDue K ((s.device d).countSince last)
  | _ => True

theorem Clock.counter_le_of_tick {c c' : Clock} {wall : ℕ} (h : c.tick wall = .ok c') : c'.counter ≤ MAX_COUNTER := by
  unfold Clock.tick Clock.bump at h
  split_ifs at h with hw hb
  · cases h
    exact Nat.zero_le _
  · cases h
  · cases h
    exact not_lt.mp hb

variable [DecidableEq D] {site : Site D β S}

theorem counter_le_of_edit {s s' : Store D β S} (h : Edit V s s') : ∀ x ∈ s'.ghost.authored,
    x ∈ s.ghost.authored ∨ x.hlc.counter ≤ MAX_COUNTER := by
  cases h with
  | put d wall e id body L op h =>
    intro x hx
    rcases hx with rfl | hx
    · unfold Ledger.put at h
      cases ht : (s.device d).ledger.clock.tick wall with
      | error e => rw [ht] at h; cases h
      | ok c =>
        rw [ht] at h
        cases h
        exact Or.inr (Clock.counter_le_of_tick ht)
    · exact Or.inl hx
  | remove d wall e id L op h =>
    intro x hx
    rcases hx with rfl | hx
    · unfold Ledger.remove at h
      cases ht : (s.device d).ledger.clock.tick wall with
      | error e => rw [ht] at h; cases h
      | ok c =>
        rw [ht] at h
        cases h
        exact Or.inr (Clock.counter_le_of_tick ht)
    · exact Or.inl hx

omit [DecidableEq D] in
theorem stampOf_authored {s : Store D β S} (hs : Sound V site s) (hn : AllNames V K s) {x : Operation β}
    (hx : x ∈ s.ghost.authored) : StampOf V x.hlc := by
  obtain ⟨d, -, hd⟩ := hs.writes.author x hx
  exact ⟨hn.fits x hx, d, hd⟩

omit [DecidableEq D] in
theorem stampOf_logged {s : Store D β S} (hs : Sound V site s) (hn : AllNames V K s) {d : D} {o : LocalOperation β}
    (ho : o ∈ (s.device d).ledger.oplog) : StampOf V o.hlc := by
  obtain ⟨x, hx, hsame⟩ := (hs.devices d).logged o ho
  exact hsame.hlc.symm ▸ stampOf_authored hs hn hx

theorem allNames_afterCall {s : Store D β S} (hs : Sound V site s) (hn : AllNames V K s) {d : D} {c : Call β}
    (hmay : MayName V K (.call c)) {dest : S} (hadd : ∀ p ∈ site.holds dest, p ∈ site.holds s.dest ∨ c = .put p.1 p.2) :
    AllNames V K (s.afterCall site d c dest) := by
  refine ⟨hn.fits, fun p hp => ?_⟩
  rcases hp with hp | hp
  · exact hn.stored p hp
  · rcases hadd p hp with hold | rfl
    · exact hn.stored p (hs.held hold)
    · exact hmay.names p.1 (List.mem_singleton.mpr rfl)

omit [DecidableEq D] in
theorem getsNamed_call {s : Store D β S} (hs : Sound V site s) (hn : AllNames V K s) (d : D) (c : Call β) :
    GetsNamed V K (.call c) (site.serve d c s.dest).1 := by
  cases c with
  | list vault kind =>
    cases hr : (site.serve d (.list vault kind) s.dest).1 with
    | error e => exact trivial
    | ok names =>
      intro n hmem
      obtain ⟨-, -, e, he⟩ := site.list_holds d vault kind s.dest names hr n hmem
      exact hn.stored _ (hs.held he)
  | _ => cases (site.serve d _ s.dest).1 <;> exact trivial

omit [DecidableEq D] in
theorem getsNamed_query {s : Store D β S} (hs : Sound V site s) (hn : AllNames V K s) {d : D} (wall : ℕ → ℕ) (coin : ℕ)
    {q : Query β} (hbelow : BelowDue K d (.query q) s) :
    GetsNamed V K (.query q) ((s.device d).answer wall coin q).1 := by
  cases q with
  | pendingOperations =>
    exact fun o ho => stampOf_logged hs hn (Ledger.mem_unsynced.mp (List.mem_of_mem_take ho)).1
  | readOplog => exact fun o ho => stampOf_logged hs hn ho
  | countSince last => exact hbelow
  | observeStamps stamps =>
    unfold Device.answer
    dsimp only
    split <;> exact trivial
  | _ => exact trivial

/-- Programs that name what the vault makes, over a destination that stores it. -/
theorem guarding_names (V : Vault D) (site : Site D β S) (hK : K .ops) {okStep : D → Request β → Store D β S → Store D β S → Prop}
    (hok : ∀ d q s s', okStep d q s s' → BelowDue K d q s) :
    Threads.Guarding ((world V site).restrict okStep (fun _ s' => InTime s')) (Sound V site) (AllNames V K)
      (MayName V K) (GetsNamed V K) where
  body := fun d => runCycle_names hK (V.deviceId d)
  enter := fun _ _ hn => ⟨hn.fits, hn.stored⟩
  step := by
    rintro d q s r s' hs - hn hmay ⟨hserved, hstep⟩
    have hbelow := hok d q s s' hstep
    rcases hserved with ⟨wall, coin, h⟩ | h
    · cases q with
      | call c =>
        obtain ⟨rfl, rfl⟩ := Prod.mk.inj h
        exact ⟨allNames_afterCall hs hn hmay (site.serve_holds d c s.dest), getsNamed_call hs hn d c⟩
      | query q =>
        obtain ⟨rfl, rfl⟩ := Prod.mk.inj h
        exact ⟨⟨hn.fits, hn.stored⟩, getsNamed_query hs hn wall coin hbelow⟩
    · cases h with
      | failed c s dest retryable hmishap =>
        refine ⟨allNames_afterCall hs hn hmay (site.mishap_holds d c s.dest dest hmishap), ?_⟩
        cases c <;> exact trivial
  leave := by
    intro d r s hn
    cases r with
    | ok a => exact ⟨hn.fits, hn.stored⟩
    | error e => exact hn
  env := by
    rintro s s' - - hn ⟨hedit, htime⟩
    refine ⟨fun x hx => ?_, ?_⟩
    · rcases counter_le_of_edit hedit x hx with hold | hle
      · exact hn.fits x hold
      · exact ⟨htime x hx, hle⟩
    · obtain ⟨d, L, op, -, rfl⟩ := hedit.edited
      exact hn.stored
  crash := fun _ _ hn => ⟨hn.fits, hn.stored⟩

/-- What a device is asking for in a run. -/
theorem mayName_of_reach (hK : K .ops) {okStep : D → Request β → Store D β S → Store D β S → Prop}
    (hok : ∀ d q s s', okStep d q s s' → BelowDue K d q s) {dest : S} (hdest : site.holds dest = ∅)
    {c : Conf D (Request β) Request.Reply SyncError Unit (Store D β S)}
    (h : ((world V site).restrict okStep (fun _ s' => InTime s')).Reach (start dest) c) {d : D} {q : Request β}
    {k : Except SyncError q.Reply → Sync β Unit} (hask : c.running d = some (.ask q k)) : MayName V K q := by
  have hsound : ∀ c', ((world V site).restrict okStep (fun _ s' => InTime s')).Reach (start dest) c' →
      Sound V site c'.store := by
    intro c' hc'
    exact ((soundRuns V site).reach (Threads.kept_of_idle (sound_initial hdest) (fun _ => rfl)) hc'.of_restrict).1
  have hinit : AllNames V K (start dest : Conf D (Request β) Request.Reply SyncError Unit (Store D β S)).store :=
    ⟨fun _ h => h.elim, fun _ h => h.elim⟩
  exact (((guarding_names V site hK hok).reach hsound hinit (fun _ => rfl) h).2 d _ hask).1

/-! ## What is agreed on -/

omit [DecidableEq D] in
/-- Client and server agree on a name the vault makes if and only if it is that of an operation object. -/
theorem agrees_of_nameOf (hv : IsUuid V.vaultId) (hminted : ∀ d, ∃ random, V.deviceId d = VaultService.deviceIdOf random)
    (hne : ∀ d, V.deviceId d ≠ []) {n : ObjectName} (hn : NameOf V K n) : Agrees n ↔ n.kind = .ops := by
  obtain ⟨vault, kind, physical, counter, device⟩ := n
  obtain ⟨rfl, -, hfits, d, rfl⟩ := hn
  obtain ⟨random, hrandom⟩ := hminted d
  have hlen : (V.deviceId d).length ≤ 32 := by
    rw [hrandom]
    exact (deviceIdOf_length random).trans (by decide)
  have hiff := agrees_iff hv hfits hlen (V.alnum d) kind
  exact hiff.trans (and_iff_left (hne d))

omit [DecidableEq D] in
theorem agreesOn_iff (hv : IsUuid V.vaultId) (hminted : ∀ d, ∃ random, V.deviceId d = VaultService.deviceIdOf random)
    (hne : ∀ d, V.deviceId d ≠ []) {q : Request β} (hq : MayName V K q) :
    AgreesOn q ↔ ∀ n ∈ namesIn q, n.kind = .ops := by
  constructor
  · exact fun h n hn => (agrees_of_nameOf hv hminted hne (hq.names n hn)).mp (h.names n hn)
  · refine fun h => ⟨fun n hn => (agrees_of_nameOf hv hminted hne (hq.names n hn)).mpr (h n hn), fun p hp => ?_⟩
    obtain ⟨kind, rfl⟩ := hq.prefixes p hp
    exact serverLists_prefix hv kind

/-- A device that looks whether a snapshot is due finds fewer operations than one is written after. -/
def FewSince (d : D) (q : Request β) (s : Store D β S) : Prop :=
  match q with
  | .query (.countSince last) => (s.device d).countSince last < SNAPSHOT_AFTER_OPERATIONS
  | _ => True

omit [DecidableEq D] in
theorem belowDue_of_all (d : D) (q : Request β) (s : Store D β S) : BelowDue (fun _ => True) d q s := by
  cases q with
  | call c => exact trivial
  | query q => cases q with
    | countSince last => exact fun h => absurd trivial h
    | _ => exact trivial

omit [DecidableEq D] in
theorem belowDue_of_few {d : D} {q : Request β} {s : Store D β S} (h : FewSince d q s) : BelowDue K d q s := by
  cases q with
  | call c => exact trivial
  | query q => cases q with
    | countSince last => exact fun _ => h
    | _ => exact trivial

/-- Client and server agree on names of operation objects made with a device, and on no others; in runs, the requests of
a cycle are agreed on if and only if they name no snapshot, which holds of all of them as long as none is due. -/
theorem names_agree_iff (V : Vault D) (site : Site D β S) (hv : IsUuid V.vaultId)
    (hminted : ∀ d, ∃ random, V.deviceId d = VaultService.deviceIdOf random) {dest : S} (hdest : site.holds dest = ∅) :
    (∀ d kind, ∀ c : Clock, c.Fits →
      (Agrees ⟨V.vaultId, kind, c.stamp (V.deviceId d)⟩ ↔ kind = .ops ∧ V.deviceId d ≠ [])) ∧
    ((∀ d, V.deviceId d ≠ []) →
      (∀ c, ((world V site).restrict (fun _ _ _ _ => True) (fun _ s' => InTime s')).Reach (start dest) c →
        ∀ d q k, c.running d = some (.ask q k) → (AgreesOn q ↔ ∀ n ∈ namesIn q, n.kind = .ops)) ∧
      ∀ c, ((world V site).restrict (fun d q s _ => FewSince d q s) (fun _ s' => InTime s')).Reach (start dest) c →
        ∀ d q k, c.running d = some (.ask q k) → AgreesOn q) := by
  refine ⟨fun d kind c hc => ?_, fun hne => ⟨fun c hc d q k hask => ?_, fun c hc d q k hask => ?_⟩⟩
  · obtain ⟨random, hrandom⟩ := hminted d
    have hlen : (V.deviceId d).length ≤ 32 := by
      rw [hrandom]
      exact (deviceIdOf_length random).trans (by decide)
    exact agrees_iff hv hc hlen (V.alnum d) kind
  · have hmay := mayName_of_reach (K := fun _ => True) trivial
      (fun d q s s' _ => (belowDue_of_all d q s : BelowDue (fun _ => True) d q s)) hdest hc hask
    exact agreesOn_iff hv hminted hne hmay
  · have hmay := mayName_of_reach (K := fun kind => kind = .ops) rfl (fun d q s s' h => belowDue_of_few h) hdest hc hask
    exact (agreesOn_iff hv hminted hne hmay).mpr (fun n hn => (hmay.names n hn).kind)

/-- A vault with one device. -/
def lone : Vault Unit where
  vaultId := js "00000000-0000-4000-8000-000000000000"
  deviceId _ := VaultService.deviceIdOf [0, 0, 0, 0, 0, 0]
  distinct := fun _ _ _ => rfl
  alnum := fun _ => deviceIdOf_units _

theorem names_agree_lone : Agrees ⟨lone.vaultId, .ops, Clock.stamp ⟨1700000000000, 3⟩ (lone.deviceId ())⟩ :=
  (((names_agree_iff lone (mapSite Unit Unit) (by decide +kernel) (fun _ => ⟨_, rfl⟩) mapSite_empty).1 () .ops
    ⟨1700000000000, 3⟩ (by decide)).mpr ⟨rfl, by decide +kernel⟩)

/-- The name of a snapshot is refused. -/
theorem snapshot_name_refused : IsUuid lone.vaultId ∧ Clock.Fits ⟨1700000000000, 3⟩ ∧ lone.deviceId () = js "AAAAAAAA" ∧
    ¬ Agrees ⟨lone.vaultId, .snapshot, Clock.stamp ⟨1700000000000, 3⟩ (lone.deviceId ())⟩ := by
  have hv : IsUuid lone.vaultId := by decide +kernel
  have hfits : Clock.Fits ⟨1700000000000, 3⟩ := by decide
  refine ⟨hv, hfits, by decide +kernel, fun h => ?_⟩
  exact absurd (ops_of_serverTakes hv hfits (lone.alnum ()) h.taken).1 (by decide)

end EasyDocket
