import EasyDocket.Lib.SingleFlight
import EasyDocket.Sync.Uploading
import EasyDocket.Keys.Settings

/-!
# When cycles run

A timer, the network coming back, the app coming to the foreground and a button all ask for a cycle, at any time and as
often as they like.  Callers share the cycle under way, so that a device never runs two: what all its callers make of the
system is a run of `world`.
-/

namespace EasyDocket

namespace Scheduling

open SyncService

/-! ## The app on one device -/

/-- `AdapterFactory.create` has an adapter for the target. -/
def configured : SyncTarget → Bool
  | .none _ => false
  | _ => true

/-- `connectionType`. -/
inductive Connection
  | wifi
  | cellular
  | none
  | unknown
  deriving DecidableEq

/-- What `start` attaches. -/
inductive Listener
  | networkStatusChange
  | resume
  deriving DecidableEq

/-- What a cycle comes to for its callers; `skipped` when the vault is locked or there is no destination. -/
inductive Outcome
  | synced
  | failed
  | skipped
  deriving DecidableEq

/-- How far a call of the scheduler has come. -/
inductive Stage
  /-- It waits for `Network.getStatus`. -/
  | asking
  | syncing (flight : ℕ)
  | materialising (r : Outcome)
  deriving DecidableEq

/-- The scheduler of a device, and what its engine keeps between cycles. -/
structure App where
  unlocked : Bool
  settings : SyncSettings
  /-- The intervals that run, with their periods. -/
  intervals : List (ℕ × ℕ)
  timer : Option ℕ
  /-- How many intervals have been set. -/
  timers : ℕ
  /-- The effect has run since the settings and the lock last changed. -/
  flushed : Bool
  started : Bool
  attaching : List Listener
  listeners : List Listener
  flights : Flights Outcome
  /-- The cycle in flight waits for its adapter; for a destination, or for none. -/
  connecting : Option Bool
  calls : ℕ → Option Stage
  /-- How many calls have been made. -/
  made : ℕ

namespace App

/-- The app as it is opened. -/
def opened (unlocked : Bool) (settings : SyncSettings) : App where
  unlocked
  settings
  intervals := []
  timer := none
  timers := 0
  flushed := false
  started := false
  attaching := []
  listeners := []
  flights := Flights.initial
  connecting := none
  calls := fun _ => none
  made := 0

/-- The app after a restart: flights, timers and calls are counted on, and whatever was under way is gone. -/
def reopened (unlocked : Bool) (settings : SyncSettings) (a : App) : App :=
  { opened unlocked settings with timers := a.timers, flights := a.flights.lose, made := a.made }

/-- `disarm`. -/
def disarm (a : App) : App :=
  match a.timer with
  | none => a
  | some handle => { a with intervals := a.intervals.filter (fun interval => interval.1 ≠ handle), timer := none }

/-- `arm`. -/
def arm (a : App) (intervalMinutes : ℕ) : App :=
  if intervalMinutes = 0 then a.disarm
  else { a.disarm with
    intervals := (a.disarm.timers, intervalMinutes * 60000) :: a.disarm.intervals
    timer := some a.disarm.timers
    timers := a.disarm.timers + 1 }

/-- The minutes that the timer should have. -/
def minutes (a : App) : ℕ := if a.unlocked then a.settings.intervalMinutes else 0

/-- The effect of the constructor. -/
def effect (a : App) : App := { a.arm a.minutes with flushed := true }

/-- `start`, until it waits for the first listener. -/
def start (a : App) : App :=
  if a.started then a else { a with started := true, attaching := [.networkStatusChange, .resume] }

/-- `sync`, for call `i`; of a locked vault the cycle is over at once. -/
def sync (i : ℕ) (a : App) : App :=
  match a.flights.inFlight with
  | some (k, _) => { a with calls := Function.update a.calls i (some (.syncing k)) }
  | none => { a with
      flights := if a.unlocked then a.flights.join.2 else a.flights.join.2.settle .skipped
      connecting := if a.unlocked then some (configured a.settings.target) else none
      calls := Function.update a.calls i (some (.syncing a.flights.begun)) }

/-- A new call, to be made by `f`. -/
def call (f : ℕ → App → App) (a : App) : App := f a.made { a with made := a.made + 1 }

/-- `syncNow`, until its cycle has come to an end. -/
def syncNow (a : App) : App := a.call sync

/-- `runIfUnlocked`, until it waits. -/
def runIfUnlocked (a : App) : App :=
  if a.unlocked = false then a
  else if a.settings.wifiOnly then a.call (fun i a => { a with calls := Function.update a.calls i (some .asking) })
  else a.syncNow

/-- The listener of `networkStatusChange`. -/
def networkStatusChange (connected : Bool) (connection : Connection) (a : App) : App :=
  if connected = false then a
  else if a.settings.syncOnReconnect = false then a
  else if a.settings.wifiOnly = true ∧ connection ≠ .wifi then a
  else a.runIfUnlocked

/-- What happens within the app. -/
inductive Step : App → App → Prop
  /-- The vault is unlocked or locked, and settings are saved; the effect will run. -/
  | locked (a : App) (unlocked : Bool) : Step a { a with unlocked, flushed := false }
  | saved (a : App) (settings : SyncSettings) : Step a { a with settings, flushed := false }
  | effect (a : App) : Step a a.effect
  | start (a : App) : Step a a.start
  | attached (a : App) (listener : Listener) (rest : List Listener) (h : a.attaching = listener :: rest) :
    Step a { a with attaching := rest, listeners := listener :: a.listeners }
  | tick (a : App) (h : a.intervals ≠ []) : Step a a.runIfUnlocked
  | network (a : App) (connected : Bool) (connection : Connection) (h : .networkStatusChange ∈ a.listeners) :
    Step a (a.networkStatusChange connected connection)
  | resumed (a : App) (h : .resume ∈ a.listeners) : Step a a.runIfUnlocked
  | pressed (a : App) : Step a a.syncNow
  /-- `Network.getStatus` answers. -/
  | wifi (a : App) (i : ℕ) (h : a.calls i = some .asking) : Step a (a.sync i)
  | metered (a : App) (i : ℕ) (h : a.calls i = some .asking) : Step a { a with calls := Function.update a.calls i none }
  /-- There is no destination. -/
  | unconfigured (a : App) (h : a.connecting = some false) :
    Step a { a with flights := a.flights.settle .skipped, connecting := none }
  /-- The adapter cannot be loaded, or the vault has been locked meanwhile. -/
  | unconnected (a : App) (h : a.connecting = some true) :
    Step a { a with flights := a.flights.settle .failed, connecting := none }
  | cleared (a : App) : Step a { a with flights := a.flights.clear }
  | told (a : App) (i k : ℕ) (r : Outcome) (h : a.calls i = some (.syncing k)) (hr : a.flights.outcome k = some r) :
    Step a { a with calls := Function.update a.calls i (some (.materialising r)) }
  | materialised (a : App) (i : ℕ) (r : Outcome) (h : a.calls i = some (.materialising r)) :
    Step a { a with calls := Function.update a.calls i none }

/-! ### What holds of the app -/

/-- At most one timer runs, listeners are attached once, and whoever waits for a cycle waits for one that ends. -/
structure Ok (a : App) : Prop where
  flights : a.flights.Sound
  connecting : a.connecting ≠ none → a.flights.Flying
  untimed : a.timer = none → a.intervals = []
  timed : ∀ handle, a.timer = some handle → ∃ period, a.intervals = [(handle, period)]
  due : a.flushed = true → a.intervals.map Prod.snd = if 0 < a.minutes then [a.minutes * 60000] else []
  unstarted : a.started = false → a.listeners ++ a.attaching = []
  once : (a.listeners ++ a.attaching).Nodup
  waits : ∀ i k, a.calls i = some (.syncing k) → a.flights.Joined k
  calls : ∀ i, a.calls i ≠ none → i < a.made

theorem ok_opened (unlocked : Bool) (settings : SyncSettings) : (opened unlocked settings).Ok where
  flights := Flights.sound_initial
  connecting := fun h => absurd rfl h
  untimed := fun _ => rfl
  timed := nofun
  due := nofun
  unstarted := fun _ => rfl
  once := List.nodup_nil
  waits := nofun
  calls := fun _ h => absurd rfl h

theorem Ok.reopened {a : App} (h : a.Ok) (unlocked : Bool) (settings : SyncSettings) : (a.reopened unlocked settings).Ok where
  flights := h.flights.lose
  connecting := fun h => absurd rfl h
  untimed := fun _ => rfl
  timed := nofun
  due := nofun
  unstarted := fun _ => rfl
  once := List.nodup_nil
  waits := nofun
  calls := fun _ h => absurd rfl h

variable {a : App} {i k : ℕ}

theorem Ok.disarm (h : a.Ok) : a.disarm = { a with intervals := [], timer := none } := by
  cases ht : a.timer with
  | none =>
    have hsame : a.disarm = a := by
      unfold App.disarm
      rw [ht]
    rw [hsame, ← h.untimed ht, ← ht]
  | some handle =>
    obtain ⟨period, hintervals⟩ := h.timed handle ht
    have hfilter : a.intervals.filter (fun interval => interval.1 ≠ handle) = [] := by
      rw [hintervals]
      simp
    unfold App.disarm
    rw [ht]
    exact congrArg (fun intervals => { a with intervals, timer := none }) hfilter

/-- The effect leaves the timer that is due. -/
theorem Ok.effect (h : a.Ok) : a.effect.Ok := by
  unfold App.effect arm
  rw [h.disarm]
  by_cases hm : a.minutes = 0
  · rw [if_pos hm]
    exact { h with
      untimed := fun _ => rfl
      timed := nofun
      due := fun _ => by
        show [] = if 0 < a.minutes then [a.minutes * 60000] else []
        rw [hm]
        rfl }
  · rw [if_neg hm]
    exact { h with
      untimed := nofun
      timed := fun handle hh => by
        cases hh
        exact ⟨_, rfl⟩
      due := fun _ => by
        show [a.minutes * 60000] = if 0 < a.minutes then [a.minutes * 60000] else []
        rw [if_pos (Nat.pos_of_ne_zero hm)] }

theorem Ok.start (h : a.Ok) : a.start.Ok := by
  unfold App.start
  split_ifs with hs
  · exact h
  · have hnone := List.append_eq_nil_iff.mp (h.unstarted ((Bool.not_eq_true _).mp hs))
    refine { h with unstarted := nofun, once := ?_ }
    show (a.listeners ++ [Listener.networkStatusChange, .resume]).Nodup
    rw [hnone.1]
    decide

theorem Ok.attached (h : a.Ok) {listener : Listener} {rest : List Listener} (hat : a.attaching = listener :: rest) :
    ({ a with attaching := rest, listeners := listener :: a.listeners } : App).Ok := by
  refine { h with unstarted := fun hs => ?_, once := ?_ }
  · have hnone := List.append_eq_nil_iff.mp (h.unstarted hs)
    rw [hat] at hnone
    cases hnone.2
  · show (listener :: a.listeners ++ rest).Nodup
    have honce := h.once
    rw [hat] at honce
    exact List.nodup_middle.mp honce

/-- A call comes to another stage; if it waits for a cycle, for one that ends. -/
theorem Ok.turn (h : a.Ok) {stage : Option Stage} (hi : i < a.made) (hk : ∀ k, stage = some (.syncing k) → a.flights.Joined k) :
    ({ a with calls := Function.update a.calls i stage } : App).Ok := by
  refine { h with waits := fun j k hj => ?_, calls := fun j hj => ?_ }
  · by_cases hji : j = i
    · rw [hji] at hj
      exact hk k ((Function.update_self i stage a.calls).symm.trans hj)
    · exact h.waits j k ((Function.update_of_ne hji stage a.calls).symm.trans hj)
  · by_cases hji : j = i
    · rw [hji]
      exact hi
    · exact h.calls j (fun hnone => hj ((Function.update_of_ne hji stage a.calls).trans hnone))

/-- The field changes, and whoever waits goes on waiting. -/
theorem Ok.fly (h : a.Ok) {flights : Flights Outcome} (connecting : Option Bool) (hs : flights.Sound)
    (hl : a.flights.Later flights) (hc : connecting ≠ none → flights.Flying) : ({ a with flights, connecting } : App).Ok :=
  { h with flights := hs, connecting := hc, waits := fun j k hj => hl.joined k (h.waits j k hj) }

theorem Ok.sync (h : a.Ok) (hi : i < a.made) : (a.sync i).Ok := by
  unfold App.sync
  cases hf : a.flights.inFlight with
  | some p => exact h.turn hi (fun k hk => by cases hk; exact Or.inl ⟨p.2, hf⟩)
  | none =>
    have hjoin := Flights.join_of_none hf
    have hflying : a.flights.join.2.inFlight = some (a.flights.begun, none) := by rw [hjoin]
    have hjoined : a.flights.join.2.Joined a.flights.begun := Or.inl ⟨none, hflying⟩
    by_cases hu : a.unlocked = true
    · rw [if_pos hu, if_pos hu]
      have hfly := h.fly (some (configured a.settings.target)) h.flights.join (Flights.later_join a.flights)
        (fun _ => ⟨_, hflying⟩)
      exact hfly.turn hi (fun k (hk : some (Stage.syncing a.flights.begun) = some (.syncing k)) => by
        cases hk
        exact hjoined)
    · rw [if_neg hu, if_neg hu]
      have hlater := Flights.later_settle (r := Outcome.skipped) hflying
      have hfly := h.fly none (h.flights.join.settle (r := Outcome.skipped) hflying)
        ((Flights.later_join a.flights).trans hlater) (fun hnone => absurd rfl hnone)
      exact hfly.turn hi (fun k (hk : some (Stage.syncing a.flights.begun) = some (.syncing k)) => by
        cases hk
        exact hlater.joined _ hjoined)

theorem Ok.call (h : a.Ok) {f : ℕ → App → App} (hf : ∀ {b : App} {i : ℕ}, b.Ok → i < b.made → (f i b).Ok) : (a.call f).Ok :=
  hf { h with calls := fun i hi => (h.calls i hi).trans (Nat.lt_succ_self _) } (Nat.lt_succ_self _)

theorem Ok.syncNow (h : a.Ok) : a.syncNow.Ok := h.call Ok.sync

theorem Ok.runIfUnlocked (h : a.Ok) : a.runIfUnlocked.Ok := by
  unfold App.runIfUnlocked
  split_ifs
  · exact h
  · exact h.call (fun h hi => h.turn hi nofun)
  · exact h.syncNow

theorem Ok.networkStatusChange (h : a.Ok) (connected : Bool) (connection : Connection) :
    (a.networkStatusChange connected connection).Ok := by
  unfold App.networkStatusChange
  split_ifs
  · exact h
  · exact h
  · exact h
  · exact h.runIfUnlocked

/-- The step lemma. -/
theorem Ok.step {a' : App} (h : a.Ok) (hs : Step a a') : a'.Ok := by
  cases hs with
  | locked unlocked => exact { h with due := nofun }
  | saved settings => exact { h with due := nofun }
  | effect => exact h.effect
  | start => exact h.start
  | attached listener rest hat => exact h.attached hat
  | tick => exact h.runIfUnlocked
  | network connected connection => exact h.networkStatusChange connected connection
  | resumed => exact h.runIfUnlocked
  | pressed => exact h.syncNow
  | wifi i hi => exact h.sync (h.calls i (by rw [hi]; exact Option.some_ne_none _))
  | metered i hi => exact h.turn (h.calls i (by rw [hi]; exact Option.some_ne_none _)) nofun
  | unconfigured hc =>
    obtain ⟨k, hk⟩ := h.connecting (by rw [hc]; exact Option.some_ne_none _)
    exact h.fly none (h.flights.settle hk) (Flights.later_settle hk) (fun hnone => absurd rfl hnone)
  | unconnected hc =>
    obtain ⟨k, hk⟩ := h.connecting (by rw [hc]; exact Option.some_ne_none _)
    exact h.fly none (h.flights.settle hk) (Flights.later_settle hk) (fun hnone => absurd rfl hnone)
  | cleared => 
    refine h.fly a.connecting h.flights.clear (Flights.later_clear a.flights) (fun hc => ?_)
    obtain ⟨k, hk⟩ := h.connecting hc
    refine ⟨k, ?_⟩
    unfold Flights.clear
    rw [hk]
    exact hk
  | told i k r hi hr => exact h.turn (h.calls i (by rw [hi]; exact Option.some_ne_none _)) nofun
  | materialised i r hi => exact h.turn (h.calls i (by rw [hi]; exact Option.some_ne_none _)) nofun

end App

/-! ## All devices -/

variable {D β S : Type} [DecidableEq D] (V : Vault D) (site : Site D β S)

/-- The devices of a vault with their destination, and the app on each. -/
structure Fleet (D β S : Type) where
  conf : State D β S
  app : D → App

/-- The fleet when something has happened on one device. -/
def Fleet.after (x : Fleet D β S) (d : D) (c : State D β S) (a : App) : Fleet D β S := ⟨c, Function.update x.app d a⟩

@[simp] theorem Fleet.after_conf (x : Fleet D β S) (d : D) (c : State D β S) (a : App) : (x.after d c a).conf = c := rfl

@[simp] theorem Fleet.after_app (x : Fleet D β S) (d : D) (c : State D β S) (a : App) : (x.after d c a).app d = a :=
  Function.update_self ..

theorem Fleet.after_app_ne (x : Fleet D β S) {d d' : D} (h : d' ≠ d) (c : State D β S) (a : App) :
    (x.after d c a).app d' = x.app d' := Function.update_of_ne h ..

/-- What happens: within an app, in the cycle of a device, to the ledger of one, or to a device. -/
inductive Step : Fleet D β S → Fleet D β S → Prop
  | app (x : Fleet D β S) (d : D) (a : App) (h : App.Step (x.app d) a) : Step x (x.after d x.conf a)
  /-- The adapter is there, and the vault still unlocked: the cycle of the flight begins. -/
  | connect (x : Fleet D β S) (d : D) (h : (x.app d).connecting = some true) (hu : (x.app d).unlocked = true) :
    Step x (x.after d ⟨(world V site).enter d x.conf.store, Function.update x.conf.running d (some ((world V site).body d))⟩
      { x.app d with connecting := none })
  | ask (x : Fleet D β S) (d : D) (q : Request β) (k : Except SyncError q.Reply → Sync β Unit)
    (r : Except SyncError q.Reply) (s : Store D β S) (h : x.conf.running d = some (.ask q k))
    (hs : (world V site).step d q x.conf.store r s) :
    Step x ⟨⟨s, Function.update x.conf.running d (some (k r))⟩, x.app⟩
  | done (x : Fleet D β S) (d : D) (h : x.conf.running d = some (.pure ())) :
    Step x (x.after d ⟨(world V site).leave d (.ok ()) x.conf.store, Function.update x.conf.running d none⟩
      { x.app d with flights := (x.app d).flights.settle .synced })
  | failed (x : Fleet D β S) (d : D) (e : SyncError) (h : x.conf.running d = some (.throw e)) :
    Step x (x.after d ⟨(world V site).leave d (.error e) x.conf.store, Function.update x.conf.running d none⟩
      { x.app d with flights := (x.app d).flights.settle .failed })
  | edit (x : Fleet D β S) (s : Store D β S) (h : Edit V x.conf.store s) : Step x ⟨⟨s, x.conf.running⟩, x.app⟩
  | restart (x : Fleet D β S) (d : D) (unlocked : Bool) (settings : SyncSettings) :
    Step x (x.after d ⟨(world V site).crash d x.conf.store, Function.update x.conf.running d none⟩
      ((x.app d).reopened unlocked settings))

/-- Whatever may come of a fleet. -/
def Reach : Fleet D β S → Fleet D β S → Prop := Relation.ReflTransGen (Step V site)

/-- All devices have just been opened. -/
def opened (dest : S) (unlocked : D → Bool) (settings : D → SyncSettings) : Fleet D β S :=
  ⟨start dest, fun d => App.opened (unlocked d) (settings d)⟩

variable {V site} {x x' x₀ : Fleet D β S} {d : D}

/-- A device that runs a cycle has a flight for it, whose adapter is there. -/
structure Ok (x : Fleet D β S) : Prop where
  apps : ∀ d, (x.app d).Ok
  running : ∀ d, x.conf.running d ≠ none → (x.app d).flights.Flying ∧ (x.app d).connecting = none

omit [DecidableEq D] in
theorem ok_opened (dest : S) (unlocked : D → Bool) (settings : D → SyncSettings) :
    Ok (opened dest unlocked settings : Fleet D β S) :=
  ⟨fun _ => App.ok_opened _ _, fun _ h => absurd rfl h⟩

/-- What has to be checked when the app of one device changes, and maybe its cycle. -/
theorem Ok.update {c : State D β S} {a : App} (h : Ok x) (d : D) (ha : a.Ok)
    (hne : ∀ d', d' ≠ d → c.running d' = x.conf.running d')
    (hd : c.running d ≠ none → a.flights.Flying ∧ a.connecting = none) :
    Ok (x.after d c a) := by
  refine ⟨fun d' => ?_, fun d' hd' => ?_⟩
  · by_cases hdd : d' = d
    · rw [hdd, Fleet.after_app]
      exact ha
    · rw [x.after_app_ne hdd]
      exact h.apps d'
  · by_cases hdd : d' = d
    · rw [hdd] at hd' ⊢
      rw [Fleet.after_app]
      exact hd hd'
    · rw [x.after_app_ne hdd]
      exact h.running d' (fun hnone => hd' ((hne d' hdd).trans hnone))

/-- What happens within an app leaves a flight flying whose adapter is there. -/
theorem App.Step.flying {a a' : App} (h : App.Step a a') (hf : a.flights.Flying) (hc : a.connecting = none) :
    a'.flights.Flying ∧ a'.connecting = none := by
  obtain ⟨k, hk⟩ := hf
  have hsync : ∀ i (b : App), b.flights = a.flights → b.connecting = a.connecting →
      (b.sync i).flights.Flying ∧ (b.sync i).connecting = none := by
    intro i b hflights hconnecting
    unfold App.sync
    rw [hflights, hk]
    exact ⟨⟨k, hflights ▸ hk⟩, hconnecting.trans hc⟩
  have hnow : a.syncNow.flights.Flying ∧ a.syncNow.connecting = none := hsync _ _ rfl rfl
  have hrun : a.runIfUnlocked.flights.Flying ∧ a.runIfUnlocked.connecting = none := by
    unfold App.runIfUnlocked
    split_ifs
    · exact ⟨⟨k, hk⟩, hc⟩
    · exact ⟨⟨k, hk⟩, hc⟩
    · exact hnow
  cases h with
  | effect =>
    unfold App.effect App.arm App.disarm
    split_ifs <;> cases a.timer <;> exact ⟨⟨k, hk⟩, hc⟩
  | start =>
    unfold App.start
    split_ifs <;> exact ⟨⟨k, hk⟩, hc⟩
  | tick => exact hrun
  | network connected connection =>
    unfold App.networkStatusChange
    split_ifs
    · exact ⟨⟨k, hk⟩, hc⟩
    · exact ⟨⟨k, hk⟩, hc⟩
    · exact ⟨⟨k, hk⟩, hc⟩
    · exact hrun
  | resumed => exact hrun
  | pressed => exact hnow
  | wifi i hi => exact hsync i a rfl rfl
  | unconfigured hcon =>
    rw [hc] at hcon
    cases hcon
  | unconnected hcon =>
    rw [hc] at hcon
    cases hcon
  | cleared =>
    refine ⟨⟨k, ?_⟩, hc⟩
    unfold Flights.clear
    rw [hk]
    exact hk
  | _ => exact ⟨⟨k, hk⟩, hc⟩

/-- A cycle comes to an end. -/
theorem App.Ok.settle {a : App} (h : a.Ok) (hf : a.flights.Flying) (hc : a.connecting = none) (r : Outcome) :
    ({ a with flights := a.flights.settle r } : App).Ok := by
  obtain ⟨k, hk⟩ := hf
  exact h.fly a.connecting (h.flights.settle hk) (Flights.later_settle hk) (fun hnone => absurd hc hnone)

/-- The step lemma: what fleets do, their devices may do, and no device begins a cycle beside another. -/
theorem Ok.step (h : Ok x) (hs : Step V site x x') :
    Ok x' ∧ (x'.conf = x.conf ∨ (world V site).Step x.conf x'.conf) := by
  cases hs with
  | app d a ha => exact ⟨h.update d ((h.apps d).step ha) (fun _ _ => rfl)
      (fun hd => ha.flying (h.running d hd).1 (h.running d hd).2), Or.inl rfl⟩
  | connect d hc hu =>
    have hidle : x.conf.running d = none := by
      by_contra hrun
      rw [(h.running d hrun).2] at hc
      cases hc
    have hflying := (h.apps d).connecting (by rw [hc]; exact Option.some_ne_none _)
    refine ⟨h.update d { h.apps d with connecting := fun hnone => absurd rfl hnone } ?_ (fun _ => ⟨hflying, rfl⟩),
      Or.inr (Threads.Step.enter x.conf d hidle)⟩
    exact fun d' hd => Function.update_of_ne hd ..
  | ask d q k r s hrun hserved =>
    refine ⟨⟨h.apps, fun d' hd => h.running d' ?_⟩, Or.inr (Threads.Step.ask x.conf d q k r s hrun hserved)⟩
    by_cases hdd : d' = d
    · rw [hdd, hrun]
      exact Option.some_ne_none _
    · exact fun hnone => hd ((Function.update_of_ne hdd ..).trans hnone)
  | done d hrun =>
    obtain ⟨hflying, hc⟩ := h.running d (by rw [hrun]; exact Option.some_ne_none _)
    refine ⟨h.update d ((h.apps d).settle hflying hc .synced) ?_ (fun hd => absurd (Function.update_self ..) hd),
      Or.inr (Threads.Step.done x.conf d () hrun)⟩
    exact fun d' hd => Function.update_of_ne hd ..
  | failed d e hrun =>
    obtain ⟨hflying, hc⟩ := h.running d (by rw [hrun]; exact Option.some_ne_none _)
    refine ⟨h.update d ((h.apps d).settle hflying hc .failed) ?_ (fun hd => absurd (Function.update_self ..) hd),
      Or.inr (Threads.Step.failed x.conf d e hrun)⟩
    exact fun d' hd => Function.update_of_ne hd ..
  | edit s hedit => exact ⟨⟨h.apps, h.running⟩, Or.inr (Threads.Step.env x.conf s hedit)⟩
  | restart d unlocked settings =>
    refine ⟨h.update d ((h.apps d).reopened unlocked settings) ?_ (fun hd => absurd (Function.update_self ..) hd),
      Or.inr (Threads.Step.crash x.conf d)⟩
    exact fun d' hd => Function.update_of_ne hd ..

/-- The run lemma. -/
theorem Ok.reach (h : Ok x) (hr : Reach V site x x') : Ok x' ∧ (world V site).Reach x.conf x'.conf := by
  induction hr with
  | refl => exact ⟨h, Relation.ReflTransGen.refl⟩
  | tail _ hstep ih =>
    obtain ⟨hok, hworld⟩ := ih.1.step hstep
    refine ⟨hok, ?_⟩
    rcases hworld with heq | hone
    · rw [heq]
      exact ih.2
    · exact ih.2.tail hone

/-- In every run of every app on every device: a device runs one cycle at a time, so that the run is one of `world`; a cycle
that runs is the one in flight; whoever waits for a cycle waits for one in flight, or one whose outcome is known; at most one
timer runs, once effects have run it has the period of the settings, and runs just if the vault is unlocked; and no listener is
attached twice. -/
theorem coalesced {dest : S} {unlocked : D → Bool} {settings : D → SyncSettings}
    (h : Reach V site (opened dest unlocked settings) x) :
    (world V site).Reach (start dest) x.conf ∧ ∀ d,
      (x.conf.running d ≠ none → (x.app d).flights.Flying) ∧
      (∀ i k, (x.app d).calls i = some (.syncing k) → (x.app d).flights.Joined k) ∧
      (x.app d).intervals.length ≤ 1 ∧
      ((x.app d).flushed = true → (x.app d).intervals.map Prod.snd =
        if (x.app d).unlocked = true ∧ 0 < (x.app d).settings.intervalMinutes
        then [(x.app d).settings.intervalMinutes * 60000] else []) ∧
      (x.app d).listeners.Nodup := by
  obtain ⟨hok, hworld⟩ := (ok_opened dest unlocked settings).reach h
  refine ⟨hworld, fun d => ⟨fun hd => (hok.running d hd).1, (hok.apps d).waits, ?_, fun hf => ?_, ?_⟩⟩
  · cases ht : (x.app d).timer with
    | none =>
      rw [(hok.apps d).untimed ht]
      exact Nat.zero_le _
    | some handle =>
      obtain ⟨period, hintervals⟩ := (hok.apps d).timed handle ht
      rw [hintervals]
      exact le_refl _
  · rw [(hok.apps d).due hf, App.minutes]
    by_cases hu : (x.app d).unlocked = true
    · rw [if_pos hu]
      simp only [hu, true_and]
    · rw [if_neg hu, if_neg (lt_irrefl 0), if_neg (fun hboth => hu hboth.1)]
  · exact (List.nodup_append.mp (hok.apps d).once).1

/-! ## What a call brings -/

/-- Of the flights from `b` on, and the calls from `m` on: none has come to `synced`, unless `counted`. -/
structure App.Since (m b : ℕ) (counted : Prop) (a : App) : Prop where
  made : m ≤ a.made
  begun : b ≤ a.flights.begun
  flying : ∀ k o, a.flights.inFlight = some (k, o) → b ≤ k
  ended : ∀ k, b ≤ k → a.flights.Ended k .synced → counted
  waits : ∀ i k, m ≤ i → a.calls i = some (.syncing k) → b ≤ k
  told : ∀ i, m ≤ i → a.calls i = some (.materialising .synced) → counted

namespace App

variable {m b i : ℕ} {counted counted' : Prop} {a : App}

theorem Since.imp (h : a.Since m b counted) (himp : counted → counted') : a.Since m b counted' :=
  { h with
    ended := fun k hk he => himp (h.ended k hk he)
    told := fun i hi ht => himp (h.told i hi ht) }

/-- Nothing is in flight. -/
theorem since_of_idle (hs : a.flights.Sound) (h : a.flights.inFlight = none) (hcalls : ∀ i, a.calls i ≠ none → i < a.made) :
    a.Since a.made a.flights.begun False where
  made := le_refl _
  begun := le_refl _
  flying := fun k o hk => by
    rw [h] at hk
    cases hk
  ended := fun k hk he => by
    rcases he with he | he
    · rw [h] at he
      cases he
    · exact absurd (hs.past k _ he) (not_lt.mpr hk)
  waits := fun i k hi hk => absurd (hcalls i (by rw [hk]; exact Option.some_ne_none _)) (not_lt.mpr hi)
  told := fun i hi hk => absurd (hcalls i (by rw [hk]; exact Option.some_ne_none _)) (not_lt.mpr hi)

theorem Since.turn (h : a.Since m b counted) {stage : Option Stage} (hw : ∀ k, stage = some (.syncing k) → b ≤ k)
    (ht : m ≤ i → stage = some (.materialising .synced) → counted) :
    ({ a with calls := Function.update a.calls i stage } : App).Since m b counted := by
  refine { h with waits := fun j k hj hk => ?_, told := fun j hj hk => ?_ }
  · by_cases hji : j = i
    · rw [hji] at hk
      exact hw k ((Function.update_self i stage a.calls).symm.trans hk)
    · exact h.waits j k hj ((Function.update_of_ne hji stage a.calls).symm.trans hk)
  · by_cases hji : j = i
    · rw [hji] at hj hk
      exact ht hj ((Function.update_self i stage a.calls).symm.trans hk)
    · exact h.told j hj ((Function.update_of_ne hji stage a.calls).symm.trans hk)

theorem Since.sync (h : a.Since m b counted) : (a.sync i).Since m b counted := by
  unfold App.sync
  cases hf : a.flights.inFlight with
  | some p =>
    refine h.turn (fun k hk => ?_) nofun
    cases hk
    exact h.flying p.1 p.2 hf
  | none =>
    have hjoin := Flights.join_of_none hf
    have hflying : a.flights.join.2.inFlight = some (a.flights.begun, none) := by rw [hjoin]
    have hbegun : a.flights.join.2.begun = a.flights.begun + 1 := by rw [hjoin]
    by_cases hu : a.unlocked = true
    · rw [if_pos hu, if_pos hu]
      have hjoined : ({ a with flights := a.flights.join.2, connecting := some (configured a.settings.target) } : App).Since m b
          counted := { h with
        begun := (h.begun.trans (Nat.le_succ _)).trans hbegun.ge
        flying := fun k o hk => by
          cases hflying.symm.trans hk
          exact h.begun
        ended := fun k hk he => h.ended k hk (Flights.ended_join he) }
      refine hjoined.turn (fun k (hk : some (Stage.syncing a.flights.begun) = some (.syncing k)) => ?_) nofun
      cases hk
      exact h.begun
    · rw [if_neg hu, if_neg hu]
      have hskipped := Flights.settle_of_flying (r := Outcome.skipped) hflying
      have hjoined : ({ a with flights := a.flights.join.2.settle .skipped, connecting := none } : App).Since m b counted := { h with
        begun := by
          show b ≤ (a.flights.join.2.settle .skipped).begun
          rw [hskipped]
          exact (h.begun.trans (Nat.le_succ _)).trans hbegun.ge
        flying := fun k o (hk : (a.flights.join.2.settle .skipped).inFlight = some (k, o)) => by
          rw [hskipped] at hk
          cases hk
          exact h.begun
        ended := fun k hk he => by
          rcases Flights.ended_settle hflying he with he | ⟨-, hr⟩
          · exact h.ended k hk (Flights.ended_join he)
          · cases hr }
      refine hjoined.turn (fun k (hk : some (Stage.syncing a.flights.begun) = some (.syncing k)) => ?_) nofun
      cases hk
      exact h.begun

theorem Since.call (h : a.Since m b counted) {f : ℕ → App → App}
    (hf : ∀ {a : App} {i : ℕ}, a.Since m b counted → (f i a).Since m b counted) : (a.call f).Since m b counted :=
  hf { h with made := h.made.trans (Nat.le_succ _) }

theorem Since.runIfUnlocked (h : a.Since m b counted) : a.runIfUnlocked.Since m b counted := by
  unfold App.runIfUnlocked
  split_ifs
  · exact h
  · exact h.call (fun h => h.turn nofun nofun)
  · exact h.call Since.sync

/-- A flight settles. -/
theorem Since.settle (h : a.Since m b counted) {k : ℕ} (hf : a.flights.inFlight = some (k, none)) {r : Outcome}
    (hr : r = .synced → counted) (connecting : Option Bool) :
    ({ a with flights := a.flights.settle r, connecting } : App).Since m b counted := { h with
  begun := by
    show b ≤ (a.flights.settle r).begun
    rw [Flights.settle_of_flying hf]
    exact h.begun
  flying := fun j o (hj : (a.flights.settle r).inFlight = some (j, o)) => by
    rw [Flights.settle_of_flying hf] at hj
    cases hj
    exact h.flying k none hf
  ended := fun j hj he => by
    rcases Flights.ended_settle hf he with he | ⟨-, hsynced⟩
    · exact h.ended j hj he
    · exact hr hsynced.symm }

/-- The step lemma. -/
theorem Since.step {a' : App} (h : a.Since m b counted) (hok : a.Ok) (hs : Step a a') : a'.Since m b counted := by
  cases hs with
  | effect =>
    unfold App.effect App.arm
    rw [hok.disarm]
    split_ifs <;> exact ⟨h.made, h.begun, h.flying, h.ended, h.waits, h.told⟩
  | start =>
    unfold App.start
    split_ifs <;> exact ⟨h.made, h.begun, h.flying, h.ended, h.waits, h.told⟩
  | tick => exact h.runIfUnlocked
  | network connected connection =>
    unfold App.networkStatusChange
    split_ifs
    · exact h
    · exact h
    · exact h
    · exact h.runIfUnlocked
  | resumed => exact h.runIfUnlocked
  | pressed => exact h.call Since.sync
  | wifi i hi => exact h.sync
  | metered i hi => exact h.turn nofun nofun
  | unconfigured hc =>
    obtain ⟨k, hk⟩ := hok.connecting (by rw [hc]; exact Option.some_ne_none _)
    exact h.settle hk (r := .skipped) (fun hr => nomatch hr) none
  | unconnected hc =>
    obtain ⟨k, hk⟩ := hok.connecting (by rw [hc]; exact Option.some_ne_none _)
    exact h.settle hk (r := .failed) (fun hr => nomatch hr) none
  | cleared =>
    refine { h with begun := ?_, flying := fun k o hk => ?_, ended := fun k hk he => h.ended k hk (Flights.ended_clear he) }
    · exact h.begun.trans (Flights.later_clear a.flights).begun
    · rcases Flights.clear_cases a.flights with hc | ⟨j, r, -, hc⟩
      · exact h.flying k o (hc ▸ hk)
      · have hnone : a.flights.clear.inFlight = none := by rw [hc]
        cases hnone.symm.trans hk
  | told i k r hi hr =>
    -- the flight that the call waited for is one of those
    refine h.turn nofun (fun hmi heq => ?_)
    cases heq
    exact h.ended k (h.waits i k hmi hi) (Or.inr hr)
  | materialised i r hi => exact h.turn nofun nofun
  | _ => exact ⟨h.made, h.begun, h.flying, h.ended, h.waits, h.told⟩

end App

/-- The step lemma, for a device of a fleet. -/
theorem since_step {m b n : ℕ} (hok : Ok x) (hs : Step V site x x')
    (h : (x.app d).Since m b (n + 1 ≤ x.conf.store.ghost.finished d) ∧ n ≤ x.conf.store.ghost.finished d) :
    (x'.app d).Since m b (n + 1 ≤ x'.conf.store.ghost.finished d) ∧ n ≤ x'.conf.store.ghost.finished d := by
  -- an app that does not change sees cycles counted at most
  have hsame : ∀ {c : State D β S}, x.conf.store.ghost.finished d ≤ c.store.ghost.finished d →
      (x.app d).Since m b (n + 1 ≤ c.store.ghost.finished d) ∧ n ≤ c.store.ghost.finished d :=
    fun hle => ⟨h.1.imp (fun hc => hc.trans hle), h.2.trans hle⟩
  -- what happens on another device
  have hother : ∀ {d' : D} {c : State D β S} {a : App}, d ≠ d' →
      x.conf.store.ghost.finished d ≤ c.store.ghost.finished d →
      ((x.after d' c a).app d).Since m b (n + 1 ≤ (x.after d' c a).conf.store.ghost.finished d) ∧
        n ≤ (x.after d' c a).conf.store.ghost.finished d := by
    intro d' c a hd hle
    rw [x.after_app_ne hd]
    exact hsame hle
  cases hs with
  | app d' a ha =>
    by_cases hd : d = d'
    · subst hd
      rw [Fleet.after_app]
      exact ⟨h.1.step (hok.apps d) ha, h.2⟩
    · exact hother hd (le_refl _)
  | connect d' hc hu =>
    by_cases hd : d = d'
    · subst hd
      rw [Fleet.after_app]
      exact ⟨⟨h.1.made, h.1.begun, h.1.flying, h.1.ended, h.1.waits, h.1.told⟩, h.2⟩
    · exact hother hd (le_refl _)
  | ask d' q k r s hrun hserved => exact hsame (congrFun (finished_asked hserved) d).ge
  | done d' hrun =>
    by_cases hd : d = d'
    · subst hd
      have hcounted : n + 1 ≤ (ended V site d x.conf).store.ghost.finished d := by
        rw [finished_ended]
        exact Nat.succ_le_succ h.2
      obtain ⟨k, hk⟩ := (hok.running d (by rw [hrun]; exact Option.some_ne_none _)).1
      rw [Fleet.after_app]
      exact ⟨(h.1.imp (fun _ => hcounted)).settle hk (fun _ => hcounted) (x.app d).connecting,
        (Nat.le_succ n).trans hcounted⟩
    · exact hother hd (Function.update_of_ne hd _ _).ge
  | failed d' e hrun =>
    by_cases hd : d = d'
    · subst hd
      obtain ⟨k, hk⟩ := (hok.running d (by rw [hrun]; exact Option.some_ne_none _)).1
      rw [Fleet.after_app]
      exact ⟨h.1.settle hk (r := .failed) (fun hr => nomatch hr) (x.app d).connecting, h.2⟩
    · exact hother hd (le_refl _)
  | edit s hedit =>
    obtain ⟨d', L, op, -, rfl⟩ := hedit.edited
    exact hsame (le_refl _)
  | restart d' unlocked settings =>
    by_cases hd : d = d'
    · subst hd
      rw [Fleet.after_app]
      exact ⟨⟨h.1.made, h.1.begun, nofun, fun k hk he => h.1.ended k hk (Or.inr (he.resolve_left nofun)), nofun, nofun⟩, h.2⟩
    · exact hother hd (le_refl _)

/-- The run lemma. -/
theorem since_reach {m b n : ℕ} (hok : Ok x₀) (hr : Reach V site x₀ x)
    (h : (x₀.app d).Since m b (n + 1 ≤ x₀.conf.store.ghost.finished d) ∧ n ≤ x₀.conf.store.ghost.finished d) :
    (x.app d).Since m b (n + 1 ≤ x.conf.store.ghost.finished d) ∧ n ≤ x.conf.store.ghost.finished d := by
  induction hr with
  | refl => exact h
  | tail hreach hstep ih => exact since_step (hok.reach hreach).1 hstep ih

/-- In every run of every app on every device: whatever a device had in its queue when no cycle was in flight, up to
`PENDING_LIMIT` operations, has left the queue and is in stored objects once any call that was made later, by the timer, the
network, the foreground or the button, has been told that its cycle ended without error. -/
theorem answered_uploads {dest : S} (hdest : site.holds dest = ∅) {unlocked : D → Bool} {settings : D → SyncSettings}
    (h₀ : Reach V site (opened dest unlocked settings) x₀) (hidle : (x₀.app d).flights.inFlight = none)
    (h : Reach V site x₀ x) {i : ℕ} (hi : (x₀.app d).made ≤ i) (htold : (x.app d).calls i = some (.materialising .synced))
    {o : LocalOperation β} (ho : o ∈ (x₀.conf.store.device d).ledger.unsynced.take PENDING_LIMIT) :
    Stored x.conf.store o.toOperation ∧ ∀ o' ∈ (x.conf.store.device d).ledger.unsynced, o'.toOperation ≠ o.toOperation := by
  obtain ⟨hok, hworld₀⟩ := (ok_opened dest unlocked settings).reach h₀
  obtain ⟨-, hworld⟩ := hok.reach h
  have hrunning : x₀.conf.running d = none := by
    by_contra hrun
    obtain ⟨k, hk⟩ := (hok.running d hrun).1
    rw [hidle] at hk
    cases hk
  have hsince := App.since_of_idle (hok.apps d).flights hidle (hok.apps d).calls
  have hcount := (since_reach hok h ⟨hsince.imp False.elim, le_refl _⟩).1.told i hi htold
  exact uploaded (n := 1) hdest hworld₀ hworld (Or.inl ⟨hrunning, hcount⟩) (by rwa [Nat.one_mul])

/-! ### Scripts -/

/-- One move of a scripted run. -/
inductive Turn (D β : Type)
  | put (d : D) (wall : ℕ) (e : EntityName) (id : JsString) (body : β)
  | press (d : D)
  | connect (d : D)
  /-- The rest of a cycle, with a clock that stands still. -/
  | finish (d : D) (wall : ℕ)
  | clear (d : D)
  | tell (d : D) (i : ℕ)

variable (V site) in
/-- The fleet after a move; a move that cannot be made leaves it alone. -/
def turn (x : Fleet D β S) : Turn D β → Fleet D β S
  | .put d wall e id body => ⟨play V site x.conf (.put d wall e id body), x.app⟩
  | .press d => x.after d x.conf (x.app d).syncNow
  | .connect d =>
    if (x.app d).connecting = some true ∧ (x.app d).unlocked = true then
      x.after d ⟨(world V site).enter d x.conf.store, Function.update x.conf.running d (some ((world V site).body d))⟩
        { x.app d with connecting := none }
    else x
  | .finish d wall =>
    match x.conf.running d with
    | some p =>
      if (p.run (handler site d wall) x.conf.store).1.isOk then
        x.after d ⟨(world V site).leave d (.ok ()) (p.run (handler site d wall) x.conf.store).2,
          Function.update x.conf.running d none⟩ { x.app d with flights := (x.app d).flights.settle .synced }
      else x
    | none => x
  | .clear d => x.after d x.conf { x.app d with flights := (x.app d).flights.clear }
  | .tell d i =>
    match (x.app d).calls i with
    | some (.syncing k) =>
      match (x.app d).flights.outcome k with
      | some r => x.after d x.conf { x.app d with calls := Function.update (x.app d).calls i (some (.materialising r)) }
      | none => x
    | _ => x

theorem reach_finish {wall : ℕ} : ∀ (p : Sync β Unit) (x : Fleet D β S), x.conf.running d = some p →
    (p.run (handler site d wall) x.conf.store).1.isOk = true →
    Reach V site x (x.after d ⟨(world V site).leave d (.ok ()) (p.run (handler site d wall) x.conf.store).2,
      Function.update x.conf.running d none⟩ { x.app d with flights := (x.app d).flights.settle .synced })
  | .pure (), x, h, _ => Relation.ReflTransGen.single (Step.done x d h)
  | .ask q k, x, h, hok => by
    have hserved : (world V site).step d q x.conf.store _ _ := served_handler d wall q x.conf.store
    have hask := Step.ask x d q k _ _ h hserved
    have hrest := reach_finish (k (handler site d wall q x.conf.store).1) ⟨⟨(handler site d wall q x.conf.store).2,
      Function.update x.conf.running d (some (k (handler site d wall q x.conf.store).1))⟩, x.app⟩ (Function.update_self ..) hok
    unfold Fleet.after at hrest
    simp only [Function.update_idem] at hrest
    exact Relation.ReflTransGen.head hask hrest

theorem reach_turn (x : Fleet D β S) (m : Turn D β) : Reach V site x (turn V site x m) := by
  cases m with
  | put d wall e id body =>
    simp only [turn, play]
    split
    · rename_i L op h
      exact Relation.ReflTransGen.single (Step.edit x _ (Edit.put x.conf.store d wall e id body L op h))
    · exact Relation.ReflTransGen.refl
  | press d => exact Relation.ReflTransGen.single (Step.app x d _ (App.Step.pressed (x.app d)))
  | connect d =>
    simp only [turn]
    split_ifs with h
    · exact Relation.ReflTransGen.single (Step.connect x d h.1 h.2)
    · exact Relation.ReflTransGen.refl
  | finish d wall =>
    simp only [turn]
    split
    · rename_i p h
      split_ifs with hok
      · exact reach_finish p x h hok
      · exact Relation.ReflTransGen.refl
    · exact Relation.ReflTransGen.refl
  | clear d => exact Relation.ReflTransGen.single (Step.app x d _ (App.Step.cleared (x.app d)))
  | tell d i =>
    simp only [turn]
    split
    · rename_i k h
      split
      · rename_i r hr
        exact Relation.ReflTransGen.single (Step.app x d _ (App.Step.told (x.app d) i k r h hr))
      · exact Relation.ReflTransGen.refl
    · exact Relation.ReflTransGen.refl

theorem reach_turns (ms : List (Turn D β)) (x : Fleet D β S) : Reach V site x (ms.foldl (turn V site) x) := by
  induction ms generalizing x with
  | nil => exact Relation.ReflTransGen.refl
  | cons m ms ih => exact (reach_turn x m).trans (ih _)

/-- Three unlocked devices with a destination. -/
def trioOpened : Fleet Trio Unit (ObjectMap Unit) :=
  opened Table.empty (fun _ => true) (fun _ => ⟨.server (js "Home") (js "https://docket.example.com") (js "t"), 15, true, false⟩)

/-- Device `a` has something to send. -/
def trioEdited : Fleet Trio Unit (ObjectMap Unit) := turn trio (mapSite Trio Unit) trioOpened (.put .a 5 .accounts (js "x") ())

/-- The button was pressed twice on device `a`, while one cycle ran. -/
def trioAnswered : Fleet Trio Unit (ObjectMap Unit) :=
  [.press .a, .connect .a, .press .a, .finish .a 6, .clear .a, .tell .a 0, .tell .a 1].foldl
    (turn trio (mapSite Trio Unit)) trioEdited

theorem coalesced_trioAnswered : trioWorld.Reach trioStart trioAnswered.conf ∧ (trioAnswered.app .a).flights.begun = 1 :=
  ⟨(coalesced ((reach_turn trioOpened _).trans (reach_turns _ trioEdited))).1, by decide +kernel⟩

theorem answered_uploads_trioAnswered : (trioEdited.conf.store.device .a).ledger.unsynced.length = 1 ∧
    ∀ o ∈ (trioEdited.conf.store.device .a).ledger.unsynced, Stored trioAnswered.conf.store o.toOperation := by
  have hshort : (trioEdited.conf.store.device .a).ledger.unsynced.length = 1 := by decide +kernel
  have htold : (trioAnswered.app .a).calls 1 = some (.materialising .synced) := by decide +kernel
  have hedited : Reach trio (mapSite Trio Unit) trioOpened trioEdited := reach_turn trioOpened _
  refine ⟨hshort, fun o ho => (answered_uploads (i := 1) mapSite_empty hedited rfl (reach_turns _ trioEdited) (Nat.zero_le 1)
    htold ?_).1⟩
  rw [List.take_of_length_le (by rw [hshort]; decide)]
  exact ho

end Scheduling

end EasyDocket
