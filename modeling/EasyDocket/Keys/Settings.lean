import EasyDocket.Keys.Lifecycle

/-!
# Sync settings

`SyncSettingsService` keeps one blob, sealed under the key of the vault that was open when it was saved.  It opens again
exactly under that key, and nothing in the life of a vault removes it.
-/

namespace EasyDocket

/-! ## Settings -/

/-- `SyncTarget`. -/
inductive SyncTarget
  | none (label : JsString)
  | server (label endpoint token : JsString)
  | s3 (label bucket region endpoint accessKeyId secretAccessKey : JsString) (forcePathStyle : Bool)
    (keyPrefix : JsString)
  | git (label repoUrl branch token username corsProxy authorName authorEmail : JsString)
  deriving DecidableEq

/-- `SyncSettings`. -/
structure SyncSettings where
  target : SyncTarget
  intervalMinutes : ℕ
  syncOnReconnect : Bool
  wifiOnly : Bool
  deriving DecidableEq

def DEFAULT_SYNC_SETTINGS : SyncSettings := ⟨.none (js "Not configured"), 15, true, false⟩

/-- What a blob holds; one that an older build wrote may lack fields. -/
structure StoredSettings where
  target : Option SyncTarget
  intervalMinutes : Option ℕ
  syncOnReconnect : Option Bool
  wifiOnly : Option Bool

/-- `{ ...DEFAULT_SYNC_SETTINGS, ...value }`. -/
def StoredSettings.merged (value : StoredSettings) : SyncSettings where
  target := value.target.getD DEFAULT_SYNC_SETTINGS.target
  intervalMinutes := value.intervalMinutes.getD DEFAULT_SYNC_SETTINGS.intervalMinutes
  syncOnReconnect := value.syncOnReconnect.getD DEFAULT_SYNC_SETTINGS.syncOnReconnect
  wifiOnly := value.wifiOnly.getD DEFAULT_SYNC_SETTINGS.wifiOnly

def SyncSettings.stored (settings : SyncSettings) : StoredSettings :=
  ⟨some settings.target, some settings.intervalMinutes, some settings.syncOnReconnect, some settings.wifiOnly⟩

@[simp] theorem merged_stored (settings : SyncSettings) : settings.stored.merged = settings := rfl

/-- The header of a settings blob. -/
structure SettingsHeader where
  v : JsString
  d : JsString
  h : JsString
  t : JsString
  deriving DecidableEq

/-- A sealed settings blob: the header in the clear, and bound to the ciphertext. -/
structure SettingsBlob where
  header : SettingsHeader
  iv : Bytes
  payload : Ciphertext CryptoKey SettingsHeader StoredSettings

/-- The vault service, the `sync.settings` row and the settings in use. -/
structure AppState where
  inst : Installation
  row : Option SettingsBlob
  settings : SyncSettings

inductive SettingsError
  | locked
  | noVault
  | noDevice
  | decryption
  deriving DecidableEq

abbrev SettingsM := Failing AppState SettingsError

namespace SyncSettingsService

open Failing

/-- `requireKey`. -/
def requireKey : SettingsM CryptoKey := do
  let s ← current
  match s.inst.vault.masterKey with
  | some key => pure key
  | none => fail .locked

/-- `requireVaultId` and `requireDeviceId`. -/
def requireId (id : VaultService → Option JsString) (e : SettingsError) : SettingsM JsString := do
  let s ← current
  match id s.inst.vault with
  | some (c :: cs) => pure (c :: cs)
  | _ => fail e

/-- `load`. -/
def load : SettingsM SyncSettings := do
  let s ← current
  match s.row with
  | none => do
    change (fun s => { s with settings := DEFAULT_SYNC_SETTINGS })
    pure DEFAULT_SYNC_SETTINGS
  | some row => do
    let key ← requireKey
    match decrypt key row.iv row.header row.payload with
    | none => fail .decryption
    | some value => do
      change (fun s => { s with settings := value.merged })
      pure value.merged

/-- `save`; `iv` is the initialisation vector it draws. -/
def save (settings : SyncSettings) (iv : Bytes) : SettingsM Unit := do
  let key ← requireKey
  let v ← requireId VaultService.vaultId .noVault
  let d ← requireId VaultService.deviceId .noDevice
  let header : SettingsHeader := ⟨v, d, [], js "settings"⟩
  change (fun s => { s with row := some ⟨header, iv, key, iv, header, settings.stored⟩, settings })

end SyncSettingsService

/-! ## Runs -/

/-- A step of the app: an operation of the vault, the switch of the device check, or settings that are saved. -/
inductive AppCommand
  | vault (c : VaultCommand)
  | switch (fails enabled : Bool)
  | save (settings : SyncSettings) (iv : Bytes)

/-- The app, and every save that succeeded with the key it was made under, newest first. -/
structure SavedRun where
  app : AppState
  saves : List (CryptoKey × SyncSettings)

section Runs

variable (nfkc : JsString → JsString)

def SavedRun.exec (r : SavedRun) : AppCommand → SavedRun
  | .vault c => { r with app := { r.app with inst := (c.exec nfkc r.app.inst).2 } }
  | .switch fails enabled =>
    { r with app := { r.app with inst := (BiometricService.setEnabled fails enabled r.app.inst).2 } }
  | .save settings iv =>
    match SyncSettingsService.save settings iv r.app with
    | (.ok _, app) => ⟨app, (r.app.inst.vault.masterKey.map (fun key => (key, settings))).toList ++ r.saves⟩
    | (.error _, app) => ⟨app, r.saves⟩

/-- An app that has just been installed. -/
def SavedRun.new (durable : Bool) : SavedRun := ⟨⟨(Tracked.new durable).inst, none, DEFAULT_SYNC_SETTINGS⟩, []⟩

/-- Everything a sequence of steps can reach. -/
inductive SavedRun.Reached : SavedRun → Prop
  | new (durable : Bool) : Reached (SavedRun.new durable)
  | step {r : SavedRun} (c : AppCommand) (h : Reached r) : Reached (r.exec nfkc c)

/-- The settings last saved under a key, or the defaults. -/
def SavedRun.savedUnder (r : SavedRun) (key : CryptoKey) : SyncSettings :=
  match r.saves.find? (fun s => s.1 = key) with
  | some s => s.2
  | none => DEFAULT_SYNC_SETTINGS

/-- Loading gives the settings of the open vault. -/
def LoadsOwn (r : SavedRun) (key : CryptoKey) : Prop :=
  (SyncSettingsService.load r.app).1 = .ok (r.savedUnder key)

/-- The last save, if there was one, was made under the key. -/
def LastSavedUnder (r : SavedRun) (key : CryptoKey) : Prop := ∀ s, r.saves.head? = some s → s.1 = key

/-- Whether an operation leaves a vault open if it succeeds. -/
def VaultCommand.Opens : VaultCommand → Prop
  | .create .. => True
  | .restore .. => True
  | .unlock .. => True
  | _ => False

/-! ## What the operations do -/

section Operations

variable {nfkc} {app : AppState} {s : Installation} {f : Faults}

theorem adopt_masterKey (b : Bool) (key : CryptoKey) : (VaultService.adopt b key s).2.vault.masterKey = some key := by
  rw [adopt_run]
  split_ifs <;> rfl

theorem takeUp_masterKey {id : JsString} {w : WrappedMasterKey} {key : CryptoKey}
    (h : ((do
      VaultService.writeBoth (f 0) (f 1) (some id) (some w)
      VaultService.setVaultId (some id)
      VaultService.adopt (f 2) key : VaultM Unit) s).1 = .ok ()) :
    ((do
      VaultService.writeBoth (f 0) (f 1) (some id) (some w)
      VaultService.setVaultId (some id)
      VaultService.adopt (f 2) key : VaultM Unit) s).2.vault.masterKey = some key := by
  rw [takeUp_run] at h ⊢
  split_ifs at h ⊢ with hf
  exact adopt_masterKey _ _

/-- A vault that was opened holds a key. -/
theorem masterKey_of_opens {c : VaultCommand} (hc : c.Opens) (hok : (c.exec nfkc s).1 = .ok ()) :
    ∃ key, (c.exec nfkc s).2.vault.masterKey = some key := by
  cases c with
  | create f p r =>
    have hrun : VaultCommand.exec nfkc (.create f p r) s = _ := create_run p r
    rw [hrun] at hok ⊢
    split_ifs at hok ⊢ with hp
    exact ⟨r.key, takeUp_masterKey hok⟩
  | restore f id w p =>
    have hrun : VaultCommand.exec nfkc (.restore f id w p) s = _ := restore_run id w p
    rw [hrun] at hok ⊢
    cases hu : unwrapMasterKey nfkc w p with
    | error e =>
      simp only [hu] at hok
      cases hok
    | ok key =>
      simp only [hu] at hok ⊢
      exact ⟨key, takeUp_masterKey hok⟩
  | unlock f p =>
    have hrun : VaultCommand.exec nfkc (.unlock f p) s = _ := unlock_run p
    rw [hrun] at hok ⊢
    split_ifs at hok ⊢ with h0
    cases hw : s.preferences.wrapped with
    | none =>
      simp only [hw] at hok
      cases hok
    | some w =>
      cases hu : unwrapMasterKey nfkc w p with
      | error e =>
        simp only [hw, hu] at hok
        cases hok
      | ok key =>
        simp only [hu]
        exact ⟨key, adopt_masterKey _ _⟩
  | _ => exact hc.elim

/-- Saving fails and changes nothing, or seals the settings under the key that is held. -/
theorem save_cases (settings : SyncSettings) (iv : Bytes) :
    (∃ e, SyncSettingsService.save settings iv app = (.error e, app)) ∨
    ∃ key header, app.inst.vault.masterKey = some key ∧ SyncSettingsService.save settings iv app =
      (.ok (), { app with row := some ⟨header, iv, key, iv, header, settings.stored⟩, settings }) := by
  obtain ⟨⟨p, st, ⟨key, state, id, dev⟩⟩, row, cur⟩ := app
  match key, id, dev with
  | none, _, _ => exact Or.inl ⟨_, rfl⟩
  | some _, none, _ => exact Or.inl ⟨_, rfl⟩
  | some _, some [], _ => exact Or.inl ⟨_, rfl⟩
  | some _, some (_ :: _), none => exact Or.inl ⟨_, rfl⟩
  | some _, some (_ :: _), some [] => exact Or.inl ⟨_, rfl⟩
  | some key, some (c :: cs), some (e :: es) => exact Or.inr ⟨key, _, rfl, rfl⟩

theorem load_none (h : app.row = none) : (SyncSettingsService.load app).1 = .ok DEFAULT_SYNC_SETTINGS := by
  unfold SyncSettingsService.load
  simp [Failing.bind_apply, h]

theorem load_some {row : SettingsBlob} {key : CryptoKey} (h : app.row = some row)
    (hk : app.inst.vault.masterKey = some key) : (SyncSettingsService.load app).1 =
      match decrypt key row.iv row.header row.payload with
      | none => .error .decryption
      | some value => .ok value.merged := by
  unfold SyncSettingsService.load SyncSettingsService.requireKey
  cases hd : decrypt key row.iv row.header row.payload <;> simp [Failing.bind_apply, h, hk, hd]

end Operations

/-! ## The invariant -/

/-- The stored blob is the last save, sealed under the key it was made under. -/
structure RowIsLastSave (r : SavedRun) : Prop where
  none : r.app.row = none → r.saves = []
  some : ∀ row, r.app.row = some row → ∃ settings rest, r.saves = (row.payload.key, settings) :: rest ∧
    row.payload.iv = row.iv ∧ row.payload.aad = row.header ∧ row.payload.plaintext.merged = settings

variable {nfkc} {r : SavedRun}

theorem RowIsLastSave.exec (h : RowIsLastSave r) (c : AppCommand) : RowIsLastSave (r.exec nfkc c) := by
  cases c with
  | vault c => exact ⟨h.none, h.some⟩
  | switch fails enabled => exact ⟨h.none, h.some⟩
  | save settings iv =>
    unfold SavedRun.exec
    rcases @save_cases r.app settings iv with ⟨e, he⟩ | ⟨key, header, hk, hok⟩
    · simp only [he]
      exact ⟨h.none, h.some⟩
    · simp only [hok, hk]
      refine ⟨fun hn => ?_, fun row hrow => ?_⟩
      · cases hn
      · cases hrow
        exact ⟨settings, r.saves, rfl, rfl, rfl, rfl⟩

theorem rowIsLastSave_of_reached (h : r.Reached nfkc) : RowIsLastSave r := by
  induction h with
  | new durable => exact ⟨fun _ => rfl, fun row hrow => by cases hrow⟩
  | step c _ ih => exact ih.exec c

theorem RowIsLastSave.loadsOwn_iff (h : RowIsLastSave r) {key : CryptoKey}
    (hk : r.app.inst.vault.masterKey = Option.some key) : LoadsOwn r key ↔ LastSavedUnder r key := by
  unfold LoadsOwn LastSavedUnder SavedRun.savedUnder
  cases hrow : r.app.row with
  | none =>
    rw [load_none hrow, h.none hrow]
    simp
  | some row =>
    obtain ⟨settings, rest, hs, hiv, haad, hvalue⟩ := h.some row hrow
    rw [load_some hrow hk, hs]
    by_cases hkey : row.payload.key = key
    · rw [decrypt_eq_some.mpr ⟨⟨hkey, hiv, haad⟩, rfl⟩]
      simp [hkey, hvalue]
    · have hfail : decrypt key row.iv row.header row.payload = Option.none := if_neg (fun hd => hkey hd.1)
      rw [hfail]
      simp [hkey]

/-- After a vault was opened, its settings load exactly if no other vault's were saved last. -/
theorem loadsOwn_iff_lastSavedUnder (h : r.Reached nfkc) {c : VaultCommand} (hc : c.Opens)
    (hok : (c.exec nfkc r.app.inst).1 = .ok ()) :
    ∃ key, (r.exec nfkc (.vault c)).app.inst.vault.masterKey = some key ∧
      (LoadsOwn (r.exec nfkc (.vault c)) key ↔ LastSavedUnder (r.exec nfkc (.vault c)) key) := by
  obtain ⟨key, hk⟩ := masterKey_of_opens hc hok
  exact ⟨key, hk, ((rowIsLastSave_of_reached h).exec (.vault c)).loadsOwn_iff hk⟩

end Runs

/-! ## Two vaults on one device -/

/-- The first vault of a device, with settings of its own. -/
def savedFirst : SavedRun :=
  (((SavedRun.new false).exec id (.vault (.initialise (fun _ => false) [1, 2, 3, 4, 5, 6] true))).exec id
    (.vault (.create (fun _ => false) (js "passphrase") someRandom))).exec id
      (.save { DEFAULT_SYNC_SETTINGS with wifiOnly := true } [3])

theorem reached_savedFirst : savedFirst.Reached id := (((SavedRun.Reached.new false).step _).step _).step _

theorem loadsOwn_savedFirst : ∃ key,
    (savedFirst.exec id (.vault (.unlock (fun _ => false) (js "passphrase")))).app.inst.vault.masterKey = some key ∧
      (LoadsOwn (savedFirst.exec id (.vault (.unlock (fun _ => false) (js "passphrase")))) key ↔
        LastSavedUnder (savedFirst.exec id (.vault (.unlock (fun _ => false) (js "passphrase")))) key) :=
  loadsOwn_iff_lastSavedUnder reached_savedFirst (c := .unlock (fun _ => false) (js "passphrase")) trivial (by decide)

/-- The first vault was erased. -/
def erasedFirst : SavedRun := savedFirst.exec id (.vault (.destroy (fun _ => false)))

/-- The second vault of the device. -/
def createSecond : VaultCommand :=
  .create (fun _ => false) (js "passphrase") ⟨⟨List.replicate MASTER_KEY_BYTES 8, rfl⟩, [4], [5], js "second"⟩

/-- A vault that was just created may fail to load its settings. -/
theorem exists_not_loadsOwn : ∃ r c, SavedRun.Reached id r ∧ VaultCommand.Opens c ∧
    (c.exec id r.app.inst).1 = .ok () ∧ ∀ key, ¬ LoadsOwn (r.exec id (.vault c)) key := by
  refine ⟨erasedFirst, createSecond, reached_savedFirst.step _, trivial, rfl, fun key h => ?_⟩
  have hfail : (SyncSettingsService.load (erasedFirst.exec id (.vault createSecond)).app).1 = .error .decryption := rfl
  rw [LoadsOwn, hfail] at h
  cases h

end EasyDocket
