import EasyDocket.Sync.Engine
import Mathlib.Data.Set.Insert
import Mathlib.Data.Finset.Basic
import Mathlib.Data.Finset.Dedup

/-!
# Devices, a destination, and all their runs

Any number of devices of one vault run sync cycles against one destination while their users edit.  Every request of a
cycle is a step of its own, a call of the adapter may fail before or after it took effect, and a device may be
restarted at any point.

The store also carries history that no device can read (`Ghost`): invariants and conditions on runs speak of it.
-/

namespace EasyDocket

/-- The tables of one device that a cycle works on. -/
structure Device (β : Type) where
  ledger : Ledger β
  /-- The names under which objects have been applied, `remoteObjects`. -/
  remoteObjects : Finset ObjectName
  /-- The stamp kept under `sync.lastSnapshot`. -/
  lastSnapshot : Option Stamp

variable {β : Type}

namespace Device

/-- A device that has just joined. -/
def empty : Device β := ⟨Ledger.empty, ∅, none⟩

/-- A count of the operations past the last snapshot. -/
def countSince (dev : Device β) (last : Option Stamp) : ℕ :=
  (dev.ledger.oplog.rows.filter (fun op => match last with
    | some s => s < op.hlc
    | none => true)).length

/-- Answer a query; `wall` gives the clock readings and `coin` what is left to chance. -/
def answer (wall : ℕ → ℕ) (coin : ℕ) : (q : Query β) → Device β → Except SyncError q.Reply × Device β
  | .remoteNames, dev => (.ok dev.remoteObjects, dev)
  | .record _ names, dev => (.ok (), { dev with remoteObjects := dev.remoteObjects ∪ names.toFinset })
  | .forget name, dev => (.ok (), { dev with remoteObjects := dev.remoteObjects.erase name })
  | .observeStamps stamps, dev =>
    let result := dev.ledger.observeStamps wall stamps
    (match result.1 with
      | .ok () => .ok ()
      | .error e => .error (.clock e), { dev with ledger := result.2 })
  | .merge ops, dev => (.ok (dev.ledger.merge ops).2, { dev with ledger := (dev.ledger.merge ops).1 })
  | .pendingOperations, dev => (.ok dev.ledger.pendingOperations, dev)
  | .markSynced stamps, dev => (.ok (), { dev with ledger := dev.ledger.markSynced stamps })
  | .getLastSnapshot, dev => (.ok dev.lastSnapshot, dev)
  | .setLastSnapshot watermark, dev => (.ok (), { dev with lastSnapshot := some watermark })
  | .countSince last, dev => (.ok (dev.countSince last), dev)
  | .readOplog, dev => (.ok dev.ledger.oplog.rows, dev)
  | .readTable e, dev => (.ok (dev.ledger.tables e).rows, dev)
  | .randomIv, dev => (.ok coin, dev)
  | .race, dev => (.ok (decide (coin = 0)), dev)

end Device

/-! ## Destinations -/

/-- A destination and the adapters of the devices that use it. -/
structure Site (D β S : Type) where
  /-- What creating a new adapter does. -/
  connect : D → S → S
  /-- What a call does over a working transport. -/
  serve : D → (c : Call β) → S → Except SyncError c.Reply × S
  /-- What a call that fails in transport may have done. -/
  mishap : D → Call β → S → S → Prop
  /-- The objects that are stored somewhere. -/
  holds : S → Set (ObjectName × Envelope β)
  connect_holds : ∀ d s, holds (connect d s) ⊆ holds s
  serve_holds : ∀ d c s, ∀ p ∈ holds (serve d c s).2, p ∈ holds s ∨ c = .put p.1 p.2
  mishap_holds : ∀ d c s s', mishap d c s s' → ∀ p ∈ holds s', p ∈ holds s ∨ c = .put p.1 p.2
  list_holds : ∀ d v k s (ns : List ObjectName), (serve d (.list v k) s).1 = .ok ns → ∀ n ∈ ns,
    n.vault = v ∧ n.kind = k ∧
    ∃ e, (n, e) ∈ holds s
  get_holds : ∀ d n s e, (serve d (.get n) s).1 = .ok e → (n, e) ∈ holds s
  put_holds : ∀ d n e s, (serve d (.put n e) s).1 = .ok () → (n, e) ∈ holds (serve d (.put n e) s).2

/-- The devices of a vault. -/
structure Vault (D : Type) where
  vaultId : JsString
  deviceId : D → JsString
  distinct : Function.Injective deviceId
  alnum : ∀ d, ∀ c ∈ deviceId d, isAlnum c = true

def Vault.session {D : Type} (V : Vault D) (d : D) : Session := ⟨V.vaultId, V.deviceId d⟩

/-! ## The store -/

/-- History that runs leave behind. -/
structure Ghost (D β : Type) where
  /-- Every operation a local edit has authored. -/
  authored : Set (Operation β)
  /-- Every object the destination has ever held. -/
  stored : Set (ObjectName × Envelope β)
  /-- The ledger of a device at the time it last read a table. -/
  readAt : D → EntityName → Ledger β
  /-- The last snapshot a device has put. -/
  written : D → Option (ObjectName × Envelope β)
  /-- Every snapshot that was put, and the ledgers its tables were read from. -/
  snapshots : Set (List (Operation β) × (EntityName → Ledger β))
  /-- What a device has last merged. -/
  lastMerge : D → List (Operation β)
  /-- A device has begun to pull, and has not listed the operation objects yet. -/
  pulling : D → Bool
  /-- How many cycles a device has begun. -/
  started : D → ℕ
  /-- How many cycles a device has ended without error. -/
  finished : D → ℕ

structure Store (D β S : Type) where
  device : D → Device β
  dest : S
  ghost : Ghost D β

section Store

variable {D S : Type} [DecidableEq D]

namespace Ghost

/-- The history after a call that leaves the destination holding `held`. -/
def called (g : Ghost D β) (d : D) (c : Call β) (held : Set (ObjectName × Envelope β)) : Ghost D β :=
  { g with
    stored := g.stored ∪ held
    written := match c with
      | .put ⟨v, .snapshot, s⟩ bytes => Function.update g.written d (some (⟨v, .snapshot, s⟩, bytes))
      | _ => g.written
    snapshots := match c with
      | .put ⟨_, .snapshot, _⟩ bytes => insert (bytes.operations, g.readAt d) g.snapshots
      | _ => g.snapshots
    pulling := match c with
      | .list _ .ops => Function.update g.pulling d false
      | _ => g.pulling }

/-- The history after a query of a device with ledger `L`. -/
def queried (g : Ghost D β) (d : D) (q : Query β) (L : Ledger β) : Ghost D β :=
  { g with
    readAt := match q with
      | .readTable e => Function.update g.readAt d (Function.update (g.readAt d) e L)
      | _ => g.readAt
    lastMerge := match q with
      | .merge ops => Function.update g.lastMerge d ops
      | _ => g.lastMerge
    pulling := match q with
      | .remoteNames => Function.update g.pulling d true
      | _ => g.pulling }

/-- The history after a local edit. -/
def wrote (g : Ghost D β) (op : Operation β) : Ghost D β := { g with authored := insert op g.authored }

def begun (g : Ghost D β) (d : D) : Ghost D β :=
  { g with started := Function.update g.started d (g.started d + 1) }

def ended (g : Ghost D β) (d : D) : Ghost D β :=
  { g with finished := Function.update g.finished d (g.finished d + 1) }

theorem called_written_ne (g : Ghost D β) {d d' : D} (h : d' ≠ d) (c : Call β)
    (held : Set (ObjectName × Envelope β)) : (g.called d c held).written d' = g.written d' := by
  cases c with
  | put n bytes =>
    obtain ⟨v, k, s⟩ := n
    cases k with
    | ops => rfl
    | snapshot => exact Function.update_of_ne h _ _
  | _ => rfl

theorem called_pulling_ne (g : Ghost D β) {d d' : D} (h : d' ≠ d) (c : Call β)
    (held : Set (ObjectName × Envelope β)) : (g.called d c held).pulling d' = g.pulling d' := by
  cases c with
  | list v k =>
    cases k with
    | ops => exact Function.update_of_ne h _ _
    | snapshot => rfl
  | _ => rfl

theorem queried_readAt_ne (g : Ghost D β) {d d' : D} (h : d' ≠ d) (q : Query β) (L : Ledger β) :
    (g.queried d q L).readAt d' = g.readAt d' := by
  cases q with
  | readTable e => exact Function.update_of_ne h _ _
  | _ => rfl

theorem queried_lastMerge_ne (g : Ghost D β) {d d' : D} (h : d' ≠ d) (q : Query β) (L : Ledger β) :
    (g.queried d q L).lastMerge d' = g.lastMerge d' := by
  cases q with
  | merge ops => exact Function.update_of_ne h _ _
  | _ => rfl

theorem queried_pulling_ne (g : Ghost D β) {d d' : D} (h : d' ≠ d) (q : Query β) (L : Ledger β) :
    (g.queried d q L).pulling d' = g.pulling d' := by
  cases q with
  | remoteNames => exact Function.update_of_ne h _ _
  | _ => rfl

end Ghost

namespace Store

/-- Replace one device. -/
def withDevice (s : Store D β S) (d : D) (dev : Device β) : Store D β S :=
  { s with device := Function.update s.device d dev }

@[simp] theorem withDevice_dest (s : Store D β S) (d : D) (dev : Device β) : (s.withDevice d dev).dest = s.dest := rfl

@[simp] theorem withDevice_ghost (s : Store D β S) (d : D) (dev : Device β) :
    (s.withDevice d dev).ghost = s.ghost := rfl

@[simp] theorem withDevice_self (s : Store D β S) (d : D) (dev : Device β) :
    (s.withDevice d dev).device d = dev := Function.update_self ..

theorem withDevice_ne (s : Store D β S) {d d' : D} (dev : Device β) (h : d' ≠ d) :
    (s.withDevice d dev).device d' = s.device d' := Function.update_of_ne h ..

/-- The store after a call. -/
def afterCall (site : Site D β S) (d : D) (c : Call β) (dest : S) (s : Store D β S) : Store D β S :=
  { s with dest, ghost := s.ghost.called d c (site.holds dest) }

/-- The store after a query. -/
def afterQuery (d : D) (q : Query β) (dev : Device β) (s : Store D β S) : Store D β S :=
  { s.withDevice d dev with ghost := s.ghost.queried d q (s.device d).ledger }

/-- The store after a local edit. -/
def afterEdit (d : D) (L : Ledger β) (op : Operation β) (s : Store D β S) : Store D β S :=
  { s.withDevice d { s.device d with ledger := L } with ghost := s.ghost.wrote op }

/-- The store in which nothing has happened yet. -/
def initial (dest : S) : Store D β S :=
  ⟨fun _ => Device.empty, dest, ⟨∅, ∅, fun _ _ => Ledger.empty, fun _ => none, ∅, fun _ => [], fun _ => false,
    fun _ => 0, fun _ => 0⟩⟩

end Store

end Store

/-! ## The system -/

section World

variable {D S : Type} [DecidableEq D] (V : Vault D) (site : Site D β S)

/-- How a request is served over a working transport. -/
def serve (d : D) (wall : ℕ → ℕ) (coin : ℕ) : (q : Request β) → Store D β S → Except SyncError q.Reply × Store D β S
  | .call c, s => ((site.serve d c s.dest).1, s.afterCall site d c (site.serve d c s.dest).2)
  | .query q, s => (((s.device d).answer wall coin q).1, s.afterQuery d q ((s.device d).answer wall coin q).2)

/-- A call that fails in transport. -/
inductive Mishap (d : D) : (q : Request β) → Store D β S → Except SyncError q.Reply → Store D β S → Prop
  | failed (c : Call β) (s : Store D β S) (dest : S) (retryable : Bool) (h : site.mishap d c s.dest dest) :
    Mishap d (.call c) s (.error (.transport retryable)) (s.afterCall site d c dest)

/-- How a request may be served. -/
def Served (d : D) (q : Request β) (s : Store D β S) (r : Except SyncError q.Reply) (s' : Store D β S) : Prop :=
  (∃ wall coin, serve site d wall coin q s = (r, s')) ∨ Mishap site d q s r s'

/-- A local edit. -/
inductive Edit : Store D β S → Store D β S → Prop
  | put (s : Store D β S) (d : D) (wall : ℕ) (e : EntityName) (id : JsString) (body : β) (L : Ledger β)
      (op : Operation β) (h : (s.device d).ledger.put (V.deviceId d) wall e id body = .ok (L, op)) :
      Edit s (s.afterEdit d L op)
  | remove (s : Store D β S) (d : D) (wall : ℕ) (e : EntityName) (id : JsString) (L : Ledger β)
      (op : Operation β) (h : (s.device d).ledger.remove (V.deviceId d) wall e id = .ok (L, op)) :
      Edit s (s.afterEdit d L op)

/-- Restarting a device. -/
def restart (d : D) (s : Store D β S) : Store D β S :=
  s.withDevice d { s.device d with ledger := (s.device d).ledger.initialise }

/-- The devices of a vault and their destination. -/
def world : Threads D (Request β) Request.Reply SyncError Unit (Store D β S) where
  body d := SyncService.runCycle (V.session d)
  enter d s := { s with dest := site.connect d s.dest, ghost := s.ghost.begun d }
  step := Served site
  leave d r s := match r with
    | .ok _ => { s with ghost := s.ghost.ended d }
    | .error _ => s
  env := Edit V
  crash := restart

/-- The configuration in which nothing has happened yet. -/
def start (dest : S) : Conf D (Request β) Request.Reply SyncError Unit (Store D β S) :=
  ⟨Store.initial dest, fun _ => none⟩

end World

end EasyDocket
