import EasyDocket.Keys.Vault

/-!
# The life of a vault key

Every sequence of operations of the vault service, restarts and the switch of the device check among them, with any of
their storage calls failing.  An operation that fails leaves things as they were unless it fails half way: between the two
records of a new vault, after the key was taken up or dropped, or between the records of a vault that is being destroyed.
-/

namespace EasyDocket

open VaultService

/-- One operation of the service, and what its storage calls meet. -/
inductive VaultCommand
  /-- The app is started again: a new service over the same storage. -/
  | restart
  | initialise (f : Faults) (random : Bytes) (present : Bool)
  | create (f : Faults) (passphrase : JsString) (random : Random)
  | restore (f : Faults) (vaultId : JsString) (wrapped : WrappedMasterKey) (passphrase : JsString)
  | unlock (f : Faults) (passphrase : JsString)
  | lock (fails : Bool)
  | changePassphrase (f : Faults) (passphrase next : JsString) (salt iv : Bytes)
  | destroy (f : Faults)

/-- A service nobody has called yet. -/
def VaultService.fresh : VaultService := ⟨none, .uninitialised, none, none⟩

variable (nfkc : JsString → JsString)

namespace VaultCommand

/-- Run a command. -/
def exec : VaultCommand → VaultM Unit
  | .restart => Failing.change (fun s => { s with vault := VaultService.fresh })
  | .initialise f random present => VaultService.initialise f random present
  | .create f passphrase random => VaultService.create nfkc f passphrase random
  | .restore f vaultId wrapped passphrase => VaultService.restore nfkc f vaultId wrapped passphrase
  | .unlock f passphrase => VaultService.unlock nfkc f passphrase
  | .lock fails => VaultService.lock fails
  | .changePassphrase f passphrase next salt iv => VaultService.changePassphrase nfkc f passphrase next salt iv
  | .destroy f => VaultService.destroy f

/-- The vault id a command gives the service, if it gives one: the new one, the one that is restored, or the one that is
found in storage. -/
def takesUp : VaultCommand → Installation → Option JsString
  | .initialise f _ _, s => if f 0 || f 1 || f 2 then none else s.preferences.vaultId
  | .create f passphrase random, _ => if (nfkc passphrase).length < 8 ∨ (f 0 || f 1) = true then none else some random.uuid
  | .restore f vaultId wrapped passphrase, _ =>
    match unwrapMasterKey nfkc wrapped passphrase with
    | .error _ => none
    | .ok _ => if f 0 || f 1 then none else some vaultId
  | _, _ => none

end VaultCommand

/-- An installation, and the passphrase that was last set successfully, normalised, with the key it stands for. -/
structure Tracked where
  inst : Installation
  secret : Option (JsString × CryptoKey)

/-- The passphrase and key a command sets if it succeeds. -/
def secretAfter (secret : Option (JsString × CryptoKey)) : VaultCommand → Option (JsString × CryptoKey)
  | .create _ passphrase random => some (nfkc passphrase, random.key)
  | .restore _ _ wrapped passphrase =>
    match unwrapMasterKey nfkc wrapped passphrase with
    | .ok key => some (nfkc passphrase, key)
    | .error _ => secret
  | .changePassphrase _ _ next _ _ => secret.map (fun s => (nfkc next, s.2))
  | .destroy _ => none
  | _ => secret

def Tracked.exec (t : Tracked) (c : VaultCommand) : Tracked :=
  match c.exec nfkc t.inst with
  | (.ok _, s) => ⟨s, secretAfter nfkc t.secret c⟩
  | (.error _, s) => ⟨s, t.secret⟩

/-- After the device check was switched. -/
def Tracked.switched (t : Tracked) (fails enabled : Bool) : Tracked :=
  { t with inst := (BiometricService.setEnabled fails enabled t.inst).2 }

/-- An installation nothing has been written to. -/
def Tracked.new (durable : Bool) : Tracked := ⟨⟨⟨none, none, none, false⟩, ⟨durable, none⟩, VaultService.fresh⟩, none⟩

/-- Everything a sequence of commands can reach whose steps meet a condition, with the device check switched at any
time. -/
inductive Reaches (ok : VaultCommand → Installation → Prop) : Tracked → Prop
  | new (durable : Bool) : Reaches ok (Tracked.new durable)
  | step {t : Tracked} (c : VaultCommand) (h : Reaches ok t) (hc : ok c t.inst) : Reaches ok (t.exec nfkc c)
  | switch {t : Tracked} (fails enabled : Bool) (h : Reaches ok t) : Reaches ok (t.switched fails enabled)

/-! ## What is promised -/

/-- What is promised of a state: the status tells whether a key is held, a raw key is stashed in durable stores only, and
exactly the passphrase last set unlocks the vault, to the key it was created with. -/
structure KeyRules (t : Tracked) : Prop where
  unlocked_iff : t.inst.vault.state = .unlocked ↔ t.inst.vault.masterKey.isSome = true
  durable : t.inst.secureStore.masterKey.isSome = true → t.inst.secureStore.durable = true
  unlock_iff : ∀ p, (VaultService.unlock nfkc (fun _ => false) p t.inst).1 = .ok () ↔
    ∃ k, t.secret = some (nfkc p, k)
  unlock_key : ∀ p, (VaultService.unlock nfkc (fun _ => false) p t.inst).1 = .ok () →
    (VaultService.unlock nfkc (fun _ => false) p t.inst).2.vault.masterKey = t.secret.map Prod.snd

/-- A command that fails leaves the persisted vault id and wrapped key, and the status, as they were. -/
def FailsCleanly (c : VaultCommand) (s : Installation) : Prop :=
  (∃ e, (c.exec nfkc s).1 = .error e) →
    (c.exec nfkc s).2.preferences.vaultId = s.preferences.vaultId ∧
    (c.exec nfkc s).2.preferences.wrapped = s.preferences.wrapped ∧
    (c.exec nfkc s).2.vault.state = s.vault.state

/-! ## The condition -/

/-- A new vault is written whole or not at all, and its key is stashed where there is a durable store; or what was
written was there before. -/
def AdoptsWhole (f : Faults) (vaultId : JsString) (wrapped : WrappedMasterKey) (s : Installation) : Prop :=
  ((f 0 = true ∨ f 1 = true) → (f 0 = true ∨ s.preferences.vaultId = some vaultId) ∧
    (f 1 = true ∨ s.preferences.wrapped = some wrapped)) ∧
  (f 0 = false → f 1 = false → s.secureStore.durable = true → f 2 = true →
    s.preferences.vaultId = some vaultId ∧ s.preferences.wrapped = some wrapped ∧ s.vault.state = .unlocked)

/-- The passphrase of a new vault, if it comes to be the one that was set, is told from all others by its bytes. -/
def SetsReadable (f : Faults) (passphrase : JsString) (s : Installation) : Prop :=
  f 0 = false → f 1 = false → (s.secureStore.durable = true → f 2 = false) → Utf16.Readable (nfkc passphrase)

/-- The stashed key is taken up, or an error comes first. -/
def TakesStashed (f : Faults) (present : Bool) (s : Installation) : Prop :=
  f 4 = true ∨ ∃ raw, s.secureStore.masterKey = some raw ∧ raw ≠ [] ∧
    (f 5 = true ∨ s.preferences.biometricLock = false ∨ present = true)

/-- `initialise` fails, or comes to take up the stashed key. -/
def EndsUnclosed (f : Faults) (present : Bool) (s : Installation) : Prop :=
  (f 0 || f 1 || f 2) = true ∨ (s.preferences.deviceId = none ∧ f 3 = true) ∨
    ((truthy s.preferences.vaultId && s.preferences.wrapped.isSome) = true ∧ TakesStashed f present s)

/-- No operation fails half way, the service is initialised when it holds no key, and no passphrase is set that the
encoding confuses with another. -/
def Harmless : VaultCommand → Installation → Prop
  | .restart, _ => True
  | .initialise f _ present, s => s.vault.masterKey.isSome = true → EndsUnclosed f present s
  | .create f passphrase random, s => 8 ≤ (nfkc passphrase).length →
    AdoptsWhole f random.uuid (wrapMasterKey nfkc random.key passphrase random.salt random.iv) s ∧
      SetsReadable nfkc f passphrase s
  | .restore f vaultId wrapped passphrase, s =>
    (∃ k, unwrapMasterKey nfkc wrapped passphrase = .ok k) →
      AdoptsWhole f vaultId wrapped s ∧ SetsReadable nfkc f passphrase s
  | .unlock f passphrase, s => f 0 = false → s.secureStore.durable = true → f 1 = true →
    (∃ w k, s.preferences.wrapped = some w ∧ unwrapMasterKey nfkc w passphrase = .ok k) → s.vault.state = .unlocked
  | .lock fails, s => fails = true → s.vault.state ≠ .unlocked
  | .changePassphrase f passphrase next _ _, s => f 0 = false → f 1 = false →
    (∃ w k, s.preferences.wrapped = some w ∧ unwrapMasterKey nfkc w passphrase = .ok k) → Utf16.Readable (nfkc next)
  | .destroy f, s => (f 0 = true → s.vault.state ≠ .unlocked) ∧
    (f 0 = false → (f 1 = true ∨ f 2 = true) → (f 1 = true ∨ s.preferences.vaultId = none) ∧
      (f 2 = true ∨ s.preferences.wrapped = none) ∧ s.vault.state = closedState s.vault.vaultId)

/-! ## What the operations do -/

section Operations

variable {nfkc} {s : Installation} {f : Faults}

/-- The two writes of a new or destroyed vault. -/
def Installation.written (s : Installation) (fails₀ fails₁ : Bool) (vaultId : Option JsString)
    (wrapped : Option WrappedMasterKey) : Installation :=
  { s with preferences := { s.preferences with
      vaultId := if fails₀ then s.preferences.vaultId else vaultId
      wrapped := if fails₁ then s.preferences.wrapped else wrapped } }

/-- Holding a key that is not stashed yet. -/
def Installation.holding (s : Installation) (key : CryptoKey) : Installation :=
  { s with vault := { s.vault with masterKey := some key } }

/-- Unlocked with a key. -/
def Installation.opened (s : Installation) (key : CryptoKey) : Installation :=
  { s with
    secureStore := if s.secureStore.durable then { s.secureStore with masterKey := some key.raw } else s.secureStore
    vault := { s.vault with masterKey := some key, state := .unlocked } }

theorem guardFault_false : guardFault false s = (.ok (), s) := rfl

theorem writeBoth_run (b₀ b₁ : Bool) (vaultId : Option JsString) (wrapped : Option WrappedMasterKey) :
    writeBoth b₀ b₁ vaultId wrapped s =
      (if b₀ || b₁ then .error .storage else .ok (), s.written b₀ b₁ vaultId wrapped) := by
  cases b₀ <;> cases b₁ <;> rfl

theorem adopt_run (b : Bool) (key : CryptoKey) : adopt b key s =
    if s.secureStore.durable && b then (.error .storage, s.holding key) else (.ok (), s.opened key) := by
  obtain ⟨p, ⟨durable, raw⟩, v⟩ := s
  cases durable <;> cases b <;> rfl

def Installation.named (s : Installation) (vaultId : Option JsString) : Installation :=
  { s with vault := { s.vault with vaultId } }

/-- What `create` and `restore` do once there is a key. -/
theorem takeUp_run (vaultId : JsString) (wrapped : WrappedMasterKey) (key : CryptoKey) :
    (do
      writeBoth (f 0) (f 1) (some vaultId) (some wrapped)
      setVaultId (some vaultId)
      adopt (f 2) key : VaultM Unit) s =
    if f 0 || f 1 then (.error .storage, s.written (f 0) (f 1) (some vaultId) (some wrapped))
    else adopt (f 2) key ((s.written false false (some vaultId) (some wrapped)).named (some vaultId)) := by
  cases h : f 0 || f 1 with
  | true =>
    rw [if_pos rfl]
    refine Failing.bind_error ?_
    rw [writeBoth_run, h]
    rfl
  | false =>
    rw [if_neg Bool.false_ne_true]
    obtain ⟨h0, h1⟩ := Bool.or_eq_false_iff.mp h
    rw [Failing.bind_apply, writeBoth_run, h0, h1]
    rfl

theorem create_run (p : JsString) (r : Random) : VaultService.create nfkc f p r s =
    if (nfkc p).length < 8 then (.error .passphraseTooShort, s)
    else (do
      writeBoth (f 0) (f 1) (some r.uuid) (some (wrapMasterKey nfkc r.key p r.salt r.iv))
      setVaultId (some r.uuid)
      adopt (f 2) r.key : VaultM Unit) s := by
  unfold VaultService.create assertPassphrase
  split_ifs <;> rfl

theorem restore_run (id : JsString) (w : WrappedMasterKey) (p : JsString) : VaultService.restore nfkc f id w p s =
    match unwrapMasterKey nfkc w p with
    | .error e => (.error (.unwrap e), s)
    | .ok key => (do
      writeBoth (f 0) (f 1) (some id) (some w)
      setVaultId (some id)
      adopt (f 2) key : VaultM Unit) s := by
  unfold VaultService.restore unwrap
  cases unwrapMasterKey nfkc w p <;> rfl

/-- Unlocking opens the wrapped key, if there is one and it can be read, and adopts it. -/
theorem unlock_run (p : JsString) : VaultService.unlock nfkc f p s =
    if f 0 then (.error .storage, s)
    else match s.preferences.wrapped with
      | none => (.error .noVault, s)
      | some w =>
        match unwrapMasterKey nfkc w p with
        | .error e => (.error (.unwrap e), s)
        | .ok key => adopt (f 1) key s := by
  unfold VaultService.unlock readWrapped unwrap
  cases f 0 with
  | true => rfl
  | false =>
    cases hw : s.preferences.wrapped with
    | none => simp [Failing.bind_apply, guardFault_false, hw]
    | some w => cases hk : unwrapMasterKey nfkc w p <;> simp [Failing.bind_apply, guardFault_false, hw, hk]

theorem lock_run (fails : Bool) : VaultService.lock fails s =
    if fails then (.error .storage, { s with vault := { s.vault with masterKey := none } })
    else (.ok (), { s with
      secureStore := { s.secureStore with masterKey := none }
      vault := { s.vault with masterKey := none, state := closedState s.vault.vaultId } }) := by
  cases fails <;> rfl

theorem changePassphrase_run (p q : JsString) (salt iv : Bytes) :
    VaultService.changePassphrase nfkc f p q salt iv s =
    if (nfkc q).length < 8 then (.error .passphraseTooShort, s)
    else if f 0 then (.error .storage, s)
    else match s.preferences.wrapped with
      | none => (.error .noVault, s)
      | some w =>
        match unwrapMasterKey nfkc w p with
        | .error e => (.error (.unwrap e), s)
        | .ok key =>
          if f 1 then (.error .storage, s)
          else (.ok (), { s with preferences :=
            { s.preferences with wrapped := some (wrapMasterKey nfkc key q salt iv) } }) := by
  unfold VaultService.changePassphrase assertPassphrase readWrapped unwrap
  by_cases hq : (nfkc q).length < 8
  · rw [if_pos hq, if_pos hq]
    rfl
  · rw [if_neg hq, if_neg hq]
    cases f 0 with
    | true => rfl
    | false =>
      cases hw : s.preferences.wrapped with
      | none => simp [Failing.bind_apply, guardFault_false, hw]
      | some w =>
        cases hk : unwrapMasterKey nfkc w p with
        | error e => simp [Failing.bind_apply, guardFault_false, hw, hk]
        | ok key => cases h1 : f 1 <;> simp [Failing.bind_apply, guardFault, hw, hk]

theorem destroy_run : VaultService.destroy f s =
    if f 0 then (.error .storage, { s with vault := { s.vault with masterKey := none } })
    else if f 1 || f 2 then (.error .storage, { s.written (f 1) (f 2) none none with
      secureStore := { s.secureStore with masterKey := none }
      vault := { s.vault with masterKey := none, state := closedState s.vault.vaultId } })
    else (.ok (), { s.written false false none none with
      secureStore := { s.secureStore with masterKey := none }
      vault := { s.vault with masterKey := none, state := .uninitialised, vaultId := none } }) := by
  unfold VaultService.destroy
  rw [Failing.bind_apply, lock_run]
  cases f 0 with
  | true => rfl
  | false =>
    show (writeBoth (f 1) (f 2) none none >>= _) _ = _
    rw [Failing.bind_apply, writeBoth_run]
    cases f 1 <;> cases f 2 <;> rfl

/-- What `initialise` may do: fail, or close the service, or take up the stashed key. -/
structure Initialised (takes : Prop) (s : Installation) (r : Except VaultError Unit) (s' : Installation) : Prop where
  vaultId : s'.preferences.vaultId = s.preferences.vaultId
  wrapped : s'.preferences.wrapped = s.preferences.wrapped
  secureStore : s'.secureStore = s.secureStore
  outcome : ((∃ e, r = .error e) ∧ s'.vault.state = s.vault.state ∧ s'.vault.masterKey = s.vault.masterKey) ∨
    (¬ takes ∧ r = .ok () ∧ s'.vault.state ≠ .unlocked ∧ s'.vault.masterKey = s.vault.masterKey) ∨
    (r = .ok () ∧ s'.vault.state = .unlocked ∧ s'.vault.masterKey.isSome = true)

theorem takeStashed_cases (present : Bool) :
    Initialised (TakesStashed f present s) s (takeStashed f present s).1 (takeStashed f present s).2 := by
  obtain ⟨⟨id, dev, wrapped, bio⟩, ⟨durable, raw⟩, v⟩ := s
  unfold takeStashed TakesStashed
  cases f 4 with
  | true => exact ⟨rfl, rfl, rfl, Or.inl ⟨⟨_, rfl⟩, rfl, rfl⟩⟩
  | false =>
    cases raw with
    | none => exact ⟨rfl, rfl, rfl, Or.inr (Or.inl ⟨by simp, rfl, VaultState.noConfusion, rfl⟩)⟩
    | some raw =>
      cases raw with
      | nil => exact ⟨rfl, rfl, rfl, Or.inr (Or.inl ⟨by simp, rfl, VaultState.noConfusion, rfl⟩)⟩
      | cons b raw =>
        cases f 5 with
        | true => exact ⟨rfl, rfl, rfl, Or.inl ⟨⟨_, rfl⟩, rfl, rfl⟩⟩
        | false =>
          cases bio <;> cases present
          case true.false => exact ⟨rfl, rfl, rfl, Or.inr (Or.inl ⟨by simp, rfl, VaultState.noConfusion, rfl⟩)⟩
          -- the device check is off, or was passed
          all_goals
            cases hk : importMasterKey (b :: raw) with
            | none => refine ⟨?_, ?_, ?_, Or.inl ⟨⟨.keyLength, ?_⟩, ?_, ?_⟩⟩ <;> simp [Failing.bind_apply, guardFault, hk]
            | some key =>
              refine ⟨?_, ?_, ?_, Or.inr (Or.inr ⟨?_, ?_, ?_⟩)⟩ <;>
                simp [Failing.bind_apply, guardFault, hk, setMasterKey, setState]

/-- The service once it knows its ids. -/
def Installation.identified (s : Installation) (random : Bytes) : Installation :=
  let deviceId := s.preferences.deviceId.getD (deviceIdOf random)
  { s with
    preferences := { s.preferences with deviceId := some deviceId }
    vault := { s.vault with vaultId := s.preferences.vaultId, deviceId := some deviceId } }

theorem initialise_run (random : Bytes) (present : Bool) : VaultService.initialise f random present s =
    if f 0 || f 1 || f 2 then (.error .storage, s)
    else if s.preferences.deviceId.isNone && f 3 then (.error .storage, s.named s.preferences.vaultId)
    else (if truthy s.preferences.vaultId && s.preferences.wrapped.isSome then takeStashed f present
      else setState .uninitialised) (s.identified random) := by
  obtain ⟨⟨id, dev, wrapped, bio⟩, store, v⟩ := s
  unfold VaultService.initialise
  cases f 0 || f 1 || f 2 with
  | true => rfl
  | false =>
    cases dev with
    | some dev => rfl
    | none => cases f 3 <;> rfl

theorem initialise_cases (random : Bytes) (present : Bool) :
    Initialised (EndsUnclosed f present s) s (VaultService.initialise f random present s).1
      (VaultService.initialise f random present s).2 := by
  rw [initialise_run]
  by_cases h012 : (f 0 || f 1 || f 2) = true
  · rw [if_pos h012]
    exact ⟨rfl, rfl, rfl, Or.inl ⟨⟨_, rfl⟩, rfl, rfl⟩⟩
  rw [if_neg h012]
  by_cases h3 : (s.preferences.deviceId.isNone && f 3) = true
  · rw [if_pos h3]
    exact ⟨rfl, rfl, rfl, Or.inl ⟨⟨_, rfl⟩, rfl, rfl⟩⟩
  rw [if_neg h3]
  have hnot : ∀ {P : Prop}, ¬ P →
      ¬ ((f 0 || f 1 || f 2) = true ∨ (s.preferences.deviceId = none ∧ f 3 = true) ∨ P) := by
    rintro P hP (h | ⟨hdev, h⟩ | h)
    · exact h012 h
    · exact h3 (by simp [hdev, h])
    · exact hP h
  by_cases hvault : (truthy s.preferences.vaultId && s.preferences.wrapped.isSome) = true
  · rw [if_pos hvault]
    obtain ⟨hid, hw, hstore, hout⟩ := takeStashed_cases (f := f) (s := s.identified random) present
    exact ⟨hid, hw, hstore, hout.imp_right (Or.imp_left (fun h => ⟨hnot (fun hp => h.1 hp.2), h.2⟩))⟩
  · rw [if_neg hvault]
    exact ⟨rfl, rfl, rfl, Or.inr (Or.inl ⟨hnot (fun hp => hvault hp.1), rfl, VaultState.noConfusion, rfl⟩)⟩

theorem adopt_vaultId (b : Bool) (key : CryptoKey) : (adopt b key s).2.vault.vaultId = s.vault.vaultId := by
  rw [adopt_run]
  split_ifs <;> rfl

theorem takeUp_vaultId (id : JsString) (w : WrappedMasterKey) (key : CryptoKey) :
    ((do
      writeBoth (f 0) (f 1) (some id) (some w)
      setVaultId (some id)
      adopt (f 2) key : VaultM Unit) s).2.vault.vaultId = if f 0 || f 1 then s.vault.vaultId else some id := by
  rw [takeUp_run]
  split_ifs
  · rfl
  · exact adopt_vaultId _ _

theorem takeStashed_vaultId (present : Bool) : (takeStashed f present s).2.vault.vaultId = s.vault.vaultId := by
  obtain ⟨⟨id, dev, wrapped, bio⟩, ⟨durable, raw⟩, v⟩ := s
  unfold takeStashed
  cases f 4 with
  | true => rfl
  | false =>
    cases raw with
    | none => rfl
    | some raw =>
      cases raw with
      | nil => rfl
      | cons b raw =>
        cases f 5 with
        | true => rfl
        | false => cases bio <;> cases present <;> cases hk : importMasterKey (b :: raw) <;>
            simp [Failing.bind_apply, guardFault, setMasterKey, setState, hk]

theorem initialise_vaultId (random : Bytes) (present : Bool) :
    (VaultService.initialise f random present s).2.vault.vaultId =
      if f 0 || f 1 || f 2 then s.vault.vaultId else s.preferences.vaultId := by
  rw [initialise_run]
  split_ifs
  · rfl
  · rfl
  · exact takeStashed_vaultId present
  · rfl

theorem unlock_vaultId (p : JsString) : (VaultService.unlock nfkc f p s).2.vault.vaultId = s.vault.vaultId := by
  rw [unlock_run]
  split_ifs
  · rfl
  · split
    · rfl
    · split
      · rfl
      · exact adopt_vaultId _ _

theorem changePassphrase_vaultId (p q : JsString) (salt iv : Bytes) :
    (VaultService.changePassphrase nfkc f p q salt iv s).2.vault.vaultId = s.vault.vaultId := by
  rw [changePassphrase_run]
  by_cases hq : (nfkc q).length < 8
  · rw [if_pos hq]
  rw [if_neg hq]
  by_cases h0 : f 0 = true
  · rw [if_pos h0]
  rw [if_neg h0]
  split
  · rfl
  · split
    · rfl
    · split_ifs <;> rfl

/-- The vault id of the service is the one a command gives it, or there is none, or it stays. -/
theorem vaultId_exec (c : VaultCommand) {V : JsString} (h : (c.exec nfkc s).2.vault.vaultId = some V) :
    c.takesUp nfkc s = some V ∨ s.vault.vaultId = some V := by
  cases c with
  | restart => cases h
  | initialise f random present =>
    rw [VaultCommand.exec, initialise_vaultId] at h
    rw [VaultCommand.takesUp]
    split_ifs at h ⊢
    · exact Or.inr h
    · exact Or.inl h
  | create f p r =>
    rw [VaultCommand.exec, create_run] at h
    rw [VaultCommand.takesUp]
    by_cases hp : (nfkc p).length < 8
    · rw [if_pos hp] at h
      exact Or.inr h
    · rw [if_neg hp, takeUp_vaultId] at h
      split_ifs at h with hf
      · exact Or.inr h
      · exact Or.inl ((if_neg (by simp [hp, hf])).trans h)
  | restore f id w p =>
    rw [VaultCommand.exec, restore_run] at h
    rw [VaultCommand.takesUp]
    cases hu : unwrapMasterKey nfkc w p with
    | error e =>
      rw [hu] at h
      exact Or.inr h
    | ok key =>
      rw [hu, takeUp_vaultId] at h
      split_ifs at h with hf
      · exact Or.inr h
      · exact Or.inl ((if_neg hf).trans h)
  | unlock f p => exact Or.inr ((unlock_vaultId p).symm.trans h)
  | lock fails => cases fails <;> exact Or.inr h
  | changePassphrase f p q salt iv => exact Or.inr ((changePassphrase_vaultId p q salt iv).symm.trans h)
  | destroy f =>
    rw [VaultCommand.exec, destroy_run] at h
    split_ifs at h
    · exact Or.inr h
    · exact Or.inr h

end Operations

/-! ## The invariant -/

/-- The invariant behind `KeyRules`: the persisted wrapped key opens under the passphrase last set, and no other. -/
structure KeyInv (t : Tracked) : Prop where
  unlocked_iff : t.inst.vault.state = .unlocked ↔ t.inst.vault.masterKey.isSome = true
  durable : t.inst.secureStore.masterKey.isSome = true → t.inst.secureStore.durable = true
  none : t.inst.preferences.wrapped = none → t.secret = none
  some : ∀ w, t.inst.preferences.wrapped = some w → ∃ p k, t.secret = some (p, k) ∧
    ∀ q k', unwrapMasterKey nfkc w q = .ok k' ↔ nfkc q = p ∧ k' = k

section Invariant

variable {nfkc} {t : Tracked} {c : VaultCommand} {s' : Installation}

theorem closedState_ne_unlocked (id : Option JsString) : closedState id ≠ .unlocked := by
  unfold closedState
  split_ifs <;> exact VaultState.noConfusion

section Undisturbed

variable {s : Installation} {p : JsString}

theorem unlock_none (h : s.preferences.wrapped = none) :
    VaultService.unlock nfkc (fun _ => false) p s = (.error .noVault, s) := by
  rw [unlock_run]
  simp [h]

theorem unlock_error {w : WrappedMasterKey} {e : UnwrapError} (h : s.preferences.wrapped = some w)
    (hu : unwrapMasterKey nfkc w p = .error e) :
    VaultService.unlock nfkc (fun _ => false) p s = (.error (.unwrap e), s) := by
  rw [unlock_run]
  simp [h, hu]

theorem unlock_ok {w : WrappedMasterKey} {key : CryptoKey} (h : s.preferences.wrapped = some w)
    (hu : unwrapMasterKey nfkc w p = .ok key) :
    VaultService.unlock nfkc (fun _ => false) p s = (.ok (), s.opened key) := by
  rw [unlock_run]
  simp [h, hu, adopt_run]

end Undisturbed

theorem KeyInv.rules (h : KeyInv nfkc t) : KeyRules nfkc t := by
  refine ⟨h.unlocked_iff, h.durable, fun p => ?_, fun p => ?_⟩
  · cases hw : t.inst.preferences.wrapped with
    | none =>
      rw [unlock_none hw, h.none hw]
      simp
    | some w =>
      obtain ⟨p', k, hs, hopen⟩ := h.some w hw
      cases hu : unwrapMasterKey nfkc w p with
      | error e =>
        have hne : nfkc p ≠ p' := fun hp => by
          rw [(hopen p k).mpr ⟨hp, rfl⟩] at hu
          cases hu
        rw [unlock_error hw hu, hs]
        simp [hne.symm]
      | ok k' =>
        rw [unlock_ok hw hu, hs, ((hopen p k').mp hu).1]
        simp
  · cases hw : t.inst.preferences.wrapped with
    | none =>
      rw [unlock_none hw]
      exact fun h => by cases h
    | some w =>
      obtain ⟨p', k, hs, hopen⟩ := h.some w hw
      cases hu : unwrapMasterKey nfkc w p with
      | error e =>
        rw [unlock_error hw hu]
        exact fun h => by cases h
      | ok k' =>
        intro _
        rw [unlock_ok hw hu, hs, ((hopen p k').mp hu).2]
        rfl

/-- The bytes of a passphrase that was set are those of no other. -/
theorem encodePassphrase_eq_iff {p q : JsString} (h : Utf16.Readable (nfkc p)) :
    encodePassphrase nfkc q = encodePassphrase nfkc p ↔ nfkc q = nfkc p := Utf16.utf8_eq_iff h

/-- A command that succeeds. -/
theorem kept_of_ok (hrun : c.exec nfkc t.inst = (.ok (), s')) (h : KeyInv nfkc ⟨s', secretAfter nfkc t.secret c⟩) :
    KeyInv nfkc (t.exec nfkc c) ∧ FailsCleanly nfkc c t.inst := by
  refine ⟨?_, ?_⟩
  · unfold Tracked.exec
    rw [hrun]
    exact h
  · rintro ⟨e, he⟩
    rw [hrun] at he
    cases he

/-- A command that fails. -/
theorem kept_of_error {e : VaultError} (hrun : c.exec nfkc t.inst = (.error e, s')) (h : KeyInv nfkc ⟨s', t.secret⟩)
    (hid : s'.preferences.vaultId = t.inst.preferences.vaultId)
    (hw : s'.preferences.wrapped = t.inst.preferences.wrapped) (hstate : s'.vault.state = t.inst.vault.state) :
    KeyInv nfkc (t.exec nfkc c) ∧ FailsCleanly nfkc c t.inst := by
  refine ⟨?_, fun _ => ?_⟩
  · unfold Tracked.exec
    rw [hrun]
    exact h
  · rw [hrun]
    exact ⟨hid, hw, hstate⟩

/-- A command that fails before it has done anything. -/
theorem kept_of_refused (hi : KeyInv nfkc t) {e : VaultError} (hrun : c.exec nfkc t.inst = (.error e, t.inst)) :
    KeyInv nfkc (t.exec nfkc c) ∧ FailsCleanly nfkc c t.inst := kept_of_error hrun hi rfl rfl rfl

/-- The invariant where the wrapped key stays. -/
theorem KeyInv.same (hi : KeyInv nfkc t) (hw : s'.preferences.wrapped = t.inst.preferences.wrapped)
    (hk : s'.vault.state = .unlocked ↔ s'.vault.masterKey.isSome = true)
    (hd : s'.secureStore.masterKey.isSome = true → s'.secureStore.durable = true) : KeyInv nfkc ⟨s', t.secret⟩ :=
  ⟨hk, hd, fun h => hi.none (hw.symm.trans h), fun w h => hi.some w (hw.symm.trans h)⟩

/-- A write that failed, or wrote what was there. -/
theorem kept_write {α : Type} {b : Bool} {old new : Option α} (h : b = true ∨ old = new) :
    (if b = true then old else new) = old := by
  split_ifs with hb
  · rfl
  · exact (h.resolve_left hb).symm

theorem opened_durable {s : Installation} {key : CryptoKey}
    (h : s.secureStore.masterKey.isSome = true → s.secureStore.durable = true) :
    (s.opened key).secureStore.masterKey.isSome = true → (s.opened key).secureStore.durable = true := by
  unfold Installation.opened
  by_cases hd : s.secureStore.durable = true
  · simp [hd]
  · simpa [hd] using h

theorem kept_of_takeUp (hi : KeyInv nfkc t) {f : Faults} {id : JsString} {w : WrappedMasterKey} {key : CryptoKey}
    {p : JsString} (hrun : c.exec nfkc t.inst = (do
      writeBoth (f 0) (f 1) (some id) (some w)
      setVaultId (some id)
      adopt (f 2) key : VaultM Unit) t.inst)
    (hsecret : secretAfter nfkc t.secret c = some (nfkc p, key))
    (hopen : ∀ q k', unwrapMasterKey nfkc w q = .ok k' ↔ encodePassphrase nfkc q = encodePassphrase nfkc p ∧ k' = key)
    (hwhole : AdoptsWhole f id w t.inst) (hread : SetsReadable nfkc f p t.inst) :
    KeyInv nfkc (t.exec nfkc c) ∧ FailsCleanly nfkc c t.inst := by
  rw [takeUp_run] at hrun
  cases hf : f 0 || f 1 with
  | true =>
    rw [hf, if_pos rfl] at hrun
    obtain ⟨h0, h1⟩ := hwhole.1 (Bool.or_eq_true_iff.mp hf)
    have hid := kept_write h0
    have hw := kept_write h1
    exact kept_of_error hrun (hi.same hw hi.unlocked_iff hi.durable) hid hw rfl
  | false =>
    obtain ⟨h0, h1⟩ := Bool.or_eq_false_iff.mp hf
    rw [hf, if_neg Bool.false_ne_true, adopt_run] at hrun
    cases hd : t.inst.secureStore.durable && f 2 with
    | true =>
      obtain ⟨hdur, h2⟩ := Bool.and_eq_true_iff.mp hd
      obtain ⟨hid, hw, hstate⟩ := hwhole.2 h0 h1 hdur h2
      rw [if_pos (show (((t.inst.written false false (some id) (some w)).named (some id)).secureStore.durable && f 2) =
        true from hd)] at hrun
      exact kept_of_error hrun (hi.same hw.symm ⟨fun _ => rfl, fun _ => hstate⟩ hi.durable) hid.symm hw.symm rfl
    | false =>
      have hnot : ¬ (t.inst.secureStore.durable && f 2) = true := by rw [hd]; exact Bool.false_ne_true
      rw [if_neg (show ¬ (((t.inst.written false false (some id) (some w)).named (some id)).secureStore.durable && f 2) =
        true from hnot)] at hrun
      refine kept_of_ok hrun ⟨⟨fun _ => rfl, fun _ => rfl⟩, opened_durable hi.durable, ?_, fun w' hw' => ?_⟩
      · intro hn
        cases hn
      · cases hw'
        have hdur : t.inst.secureStore.durable = true → f 2 = false := fun hdur => by simpa [hdur] using hnot
        refine ⟨nfkc p, key, hsecret, fun q k' => ?_⟩
        rw [hopen q k', encodePassphrase_eq_iff (hread h0 h1 hdur)]

theorem kept_initialise (hi : KeyInv nfkc t) {f : Faults} {random : Bytes} {present : Bool}
    (hc : Harmless nfkc (.initialise f random present) t.inst) :
    KeyInv nfkc (t.exec nfkc (.initialise f random present)) ∧ FailsCleanly nfkc (.initialise f random present) t.inst := by
  have hcases := initialise_cases (f := f) (s := t.inst) random present
  obtain ⟨r, s', hrun⟩ : ∃ r s', VaultService.initialise f random present t.inst = (r, s') := ⟨_, _, rfl⟩
  rw [hrun] at hcases
  obtain ⟨hid, hw, hstore, hout⟩ := hcases
  have hd : s'.secureStore.masterKey.isSome = true → s'.secureStore.durable = true := by
    rw [hstore]
    exact hi.durable
  rcases hout with ⟨⟨e, rfl⟩, hstate, hkey⟩ | ⟨hnot, rfl, hstate, hkey⟩ | ⟨rfl, hstate, hkey⟩
  · refine kept_of_error hrun (hi.same hw ?_ hd) hid hw hstate
    rw [hstate, hkey]
    exact hi.unlocked_iff
  · refine kept_of_ok hrun (hi.same hw ⟨fun h => absurd h hstate, fun h => ?_⟩ hd)
    rw [hkey] at h
    exact absurd (hc h) hnot
  · exact kept_of_ok hrun (hi.same hw ⟨fun _ => hkey, fun _ => hstate⟩ hd)

theorem kept_unlock (hi : KeyInv nfkc t) {f : Faults} {p : JsString} (hc : Harmless nfkc (.unlock f p) t.inst) :
    KeyInv nfkc (t.exec nfkc (.unlock f p)) ∧ FailsCleanly nfkc (.unlock f p) t.inst := by
  have hrun : VaultCommand.exec nfkc (.unlock f p) t.inst = _ := unlock_run p
  cases h0 : f 0 with
  | true =>
    rw [h0, if_pos rfl] at hrun
    exact kept_of_refused hi hrun
  | false =>
    rw [h0, if_neg Bool.false_ne_true] at hrun
    cases hw : t.inst.preferences.wrapped with
    | none =>
      simp only [hw] at hrun
      exact kept_of_refused hi hrun
    | some w =>
      cases hu : unwrapMasterKey nfkc w p with
      | error e =>
        simp only [hw, hu] at hrun
        exact kept_of_refused hi hrun
      | ok key =>
        simp only [hw, hu, adopt_run] at hrun
        cases hd : t.inst.secureStore.durable && f 1 with
        | true =>
          obtain ⟨hdur, h1⟩ := Bool.and_eq_true_iff.mp hd
          rw [hd, if_pos rfl] at hrun
          have hstate := hc h0 hdur h1 ⟨w, key, hw, hu⟩
          exact kept_of_error hrun (hi.same rfl ⟨fun _ => rfl, fun _ => hstate⟩ hi.durable) rfl rfl rfl
        | false =>
          rw [hd, if_neg Bool.false_ne_true] at hrun
          exact kept_of_ok hrun (hi.same rfl ⟨fun _ => rfl, fun _ => rfl⟩ (opened_durable hi.durable))

theorem kept_lock (hi : KeyInv nfkc t) {fails : Bool} (hc : Harmless nfkc (.lock fails) t.inst) :
    KeyInv nfkc (t.exec nfkc (.lock fails)) ∧ FailsCleanly nfkc (.lock fails) t.inst := by
  have hrun : VaultCommand.exec nfkc (.lock fails) t.inst = _ := lock_run (s := t.inst) fails
  cases hf : fails with
  | true =>
    rw [hf, if_pos rfl] at hrun
    refine kept_of_error hrun (hi.same rfl ⟨fun h => absurd h (hc hf), fun h => ?_⟩ hi.durable) rfl rfl rfl
    cases h
  | false =>
    rw [hf, if_neg Bool.false_ne_true] at hrun
    refine kept_of_ok hrun (hi.same rfl ⟨fun h => absurd h (closedState_ne_unlocked _), fun h => ?_⟩ fun h => ?_)
    · cases h
    · cases h

theorem kept_changePassphrase (hi : KeyInv nfkc t) {f : Faults} {p q : JsString} {salt iv : Bytes}
    (hc : Harmless nfkc (.changePassphrase f p q salt iv) t.inst) :
    KeyInv nfkc (t.exec nfkc (.changePassphrase f p q salt iv)) ∧
      FailsCleanly nfkc (.changePassphrase f p q salt iv) t.inst := by
  have hrun : VaultCommand.exec nfkc (.changePassphrase f p q salt iv) t.inst = _ :=
    changePassphrase_run p q salt iv
  by_cases hq : (nfkc q).length < 8
  · rw [if_pos hq] at hrun
    exact kept_of_refused hi hrun
  rw [if_neg hq] at hrun
  cases h0 : f 0 with
  | true =>
    rw [h0, if_pos rfl] at hrun
    exact kept_of_refused hi hrun
  | false =>
    rw [h0, if_neg Bool.false_ne_true] at hrun
    cases hw : t.inst.preferences.wrapped with
    | none =>
      simp only [hw] at hrun
      exact kept_of_refused hi hrun
    | some w =>
      obtain ⟨p', k, hs, hopen⟩ := hi.some w hw
      cases hu : unwrapMasterKey nfkc w p with
      | error e =>
        simp only [hw, hu] at hrun
        exact kept_of_refused hi hrun
      | ok key =>
        simp only [hw, hu] at hrun
        cases h1 : f 1 with
        | true =>
          rw [h1, if_pos rfl] at hrun
          exact kept_of_refused hi hrun
        | false =>
          rw [h1, if_neg Bool.false_ne_true] at hrun
          refine kept_of_ok hrun ⟨hi.unlocked_iff, hi.durable, fun h => ?_, fun w' hw' => ?_⟩
          · cases h
          · cases hw'
            refine ⟨nfkc q, key, ?_, fun q' k' => ?_⟩
            · simp only [secretAfter, hs, Option.map_some, ((hopen p key).mp hu).2]
            · rw [unwrapMasterKey_wrapMasterKey, encodePassphrase_eq_iff (hc h0 h1 ⟨w, key, hw, hu⟩)]

theorem kept_destroy (hi : KeyInv nfkc t) {f : Faults} (hc : Harmless nfkc (.destroy f) t.inst) :
    KeyInv nfkc (t.exec nfkc (.destroy f)) ∧ FailsCleanly nfkc (.destroy f) t.inst := by
  have hrun : VaultCommand.exec nfkc (.destroy f) t.inst = _ := destroy_run (f := f) (s := t.inst)
  cases h0 : f 0 with
  | true =>
    rw [h0, if_pos rfl] at hrun
    refine kept_of_error hrun (hi.same rfl ⟨fun h => absurd h (hc.1 h0), fun h => ?_⟩ hi.durable) rfl rfl rfl
    cases h
  | false =>
    rw [h0, if_neg Bool.false_ne_true] at hrun
    cases h12 : f 1 || f 2 with
    | true =>
      rw [h12, if_pos rfl] at hrun
      obtain ⟨h1, h2, hstate⟩ := hc.2 h0 (Bool.or_eq_true_iff.mp h12)
      have hid := kept_write h1
      have hw := kept_write h2
      refine kept_of_error hrun (hi.same hw ⟨fun h => absurd h (closedState_ne_unlocked _), fun h => ?_⟩ fun h => ?_)
        hid hw hstate.symm
      · cases h
      · cases h
    | false =>
      rw [h12, if_neg Bool.false_ne_true] at hrun
      refine kept_of_ok hrun ⟨⟨fun h => ?_, fun h => ?_⟩, fun h => ?_, fun _ => rfl, fun w h => ?_⟩
      all_goals cases h

/-- The step lemma. -/
theorem exec_kept (hi : KeyInv nfkc t) (c : VaultCommand) (hc : Harmless nfkc c t.inst) :
    KeyInv nfkc (t.exec nfkc c) ∧ FailsCleanly nfkc c t.inst := by
  cases c with
  | restart =>
    refine kept_of_ok rfl ⟨⟨fun h => ?_, fun h => ?_⟩, hi.durable, hi.none, hi.some⟩
    · cases h
    · cases h
  | initialise f random present => exact kept_initialise hi hc
  | create f p r =>
    have hrun : VaultCommand.exec nfkc (.create f p r) t.inst = _ := create_run (f := f) (s := t.inst) p r
    by_cases hp : (nfkc p).length < 8
    · rw [if_pos hp] at hrun
      exact kept_of_refused hi hrun
    · rw [if_neg hp] at hrun
      obtain ⟨hwhole, hread⟩ := hc (not_lt.mp hp)
      exact kept_of_takeUp hi hrun rfl (fun q k' => unwrapMasterKey_wrapMasterKey) hwhole hread
  | restore f id w p =>
    have hrun : VaultCommand.exec nfkc (.restore f id w p) t.inst = _ := restore_run (f := f) (s := t.inst) id w p
    cases hu : unwrapMasterKey nfkc w p with
    | error e =>
      rw [hu] at hrun
      exact kept_of_refused hi hrun
    | ok key =>
      rw [hu] at hrun
      have hsecret : secretAfter nfkc t.secret (.restore f id w p) = some (nfkc p, key) := by
        simp only [secretAfter, hu]
      obtain ⟨hwhole, hread⟩ := hc ⟨key, hu⟩
      exact kept_of_takeUp hi hrun hsecret (unwrapMasterKey_unique hu) hwhole hread
  | unlock f p => exact kept_unlock hi hc
  | lock fails => exact kept_lock hi hc
  | changePassphrase f p q salt iv => exact kept_changePassphrase hi hc
  | destroy f => exact kept_destroy hi hc

/-- Switching the device check touches neither key. -/
theorem KeyInv.switched (hi : KeyInv nfkc t) (fails enabled : Bool) : KeyInv nfkc (t.switched fails enabled) := by
  cases fails <;> exact ⟨hi.unlocked_iff, hi.durable, hi.none, hi.some⟩

theorem keyInv_new (durable : Bool) : KeyInv nfkc (Tracked.new durable) := by
  refine ⟨⟨fun h => ?_, fun h => ?_⟩, fun h => ?_, fun _ => rfl, fun w h => ?_⟩
  all_goals cases h

theorem keyInv_of_reaches (h : Reaches nfkc (Harmless nfkc) t) : KeyInv nfkc t := by
  induction h with
  | new durable => exact keyInv_new durable
  | step c _ hc ih => exact (exec_kept ih c hc).1
  | switch fails enabled _ ih => exact ih.switched fails enabled

end Invariant

/-! ## Runs -/

/-- The key, salt, initialisation vector and uuid of one vault. -/
def someRandom : Random := ⟨⟨List.replicate MASTER_KEY_BYTES 7, rfl⟩, [1], [2], js "vault"⟩

/-- No call fails. -/
def noFaults : Faults := fun _ => false

/-- A vault that was created with the device check on, and found locked when the check was not passed. -/
def foundLocked : Tracked :=
  ((((Tracked.new true).exec id (.create noFaults (js "passphrase") someRandom)).switched false true).exec id
    .restart).exec id (.initialise noFaults [0, 0, 0, 0, 0, 0] false)

/-- It is given another passphrase, opened and locked. -/
def createdAndLocked : Tracked :=
  ((foundLocked.exec id (.changePassphrase noFaults (js "passphrase") (js "pass phrase") [3] [4])).exec id
    (.unlock noFaults (js "pass phrase"))).exec id (.lock false)

theorem reaches_foundLocked : Reaches id (Harmless id) foundLocked := by
  refine .step _ (.step _ (.switch false true (.step _ (.new true) fun _ => ⟨⟨fun h => ?_, fun _ _ _ h => ?_⟩, ?_⟩))
    trivial) fun h => ?_
  · cases h <;> contradiction
  · exact absurd h Bool.false_ne_true
  · exact fun _ _ _ => by decide
  · cases h

/-- A vault whose second record could not be written. -/
def halfCreate : VaultCommand := .create (fun n => n == 1) (js "passphrase") someRandom

end EasyDocket
