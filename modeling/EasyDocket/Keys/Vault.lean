import EasyDocket.Keys.Crypto
import EasyDocket.Lib.Failing
import Mathlib.Logic.Relation

/-!
# The vault service

`VaultService` over `Preferences` and a `SecureStore`, both of which may fail at any call.  A failed call has no effect;
two calls that are awaited together run to their own ends, whatever becomes of the other.
-/

namespace EasyDocket

inductive VaultState
  | uninitialised
  | locked
  | unlocked
  deriving DecidableEq

inductive VaultError
  | passphraseTooShort
  | noVault
  | unwrap (e : UnwrapError)
  | keyLength
  | storage
  deriving DecidableEq

/-- The entries of `Preferences` the service works on. -/
structure Preferences where
  /-- `docket.vaultId` -/
  vaultId : Option JsString
  /-- `docket.deviceId` -/
  deviceId : Option JsString
  /-- `docket.wrappedMasterKey` -/
  wrapped : Option WrappedMasterKey
  /-- `docket.biometricLock` -/
  biometricLock : Bool

/-- A `SecureStore`, and the raw key it holds under `docket.masterKey`. -/
structure SecureStore where
  durable : Bool
  masterKey : Option Bytes

/-- The fields of a `VaultService`. -/
structure VaultService where
  masterKey : Option CryptoKey
  state : VaultState
  vaultId : Option JsString
  deviceId : Option JsString

/-- The service and what it persists. -/
structure Installation where
  preferences : Preferences
  secureStore : SecureStore
  vault : VaultService

/-- Which calls of an operation fail; the calls are counted from zero. -/
abbrev Faults := ℕ → Bool

abbrev VaultM := Failing Installation VaultError

/-- Whether JavaScript takes a string or `null` for true. -/
def truthy : Option JsString → Bool
  | some (_ :: _) => true
  | _ => false

namespace VaultService

open Failing

/-! ## Storage -/

def guardFault (fails : Bool) : VaultM Unit := if fails then fail .storage else pure ()

/-- `write` of two entries, awaited together. -/
def writeBoth (fails₀ fails₁ : Bool) (vaultId : Option JsString) (wrapped : Option WrappedMasterKey) : VaultM Unit := do
  change (fun s => if fails₀ then s else { s with preferences := { s.preferences with vaultId } })
  change (fun s => if fails₁ then s else { s with preferences := { s.preferences with wrapped } })
  guardFault (fails₀ || fails₁)

def setState (state : VaultState) : VaultM Unit := change (fun s => { s with vault := { s.vault with state } })

def setVaultId (vaultId : Option JsString) : VaultM Unit :=
  change (fun s => { s with vault := { s.vault with vaultId } })

def setDeviceId (deviceId : JsString) : VaultM Unit :=
  change (fun s => { s with vault := { s.vault with deviceId := some deviceId } })

def setMasterKey (masterKey : Option CryptoKey) : VaultM Unit :=
  change (fun s => { s with vault := { s.vault with masterKey } })

def stash (masterKey : Option Bytes) : VaultM Unit :=
  change (fun s => { s with secureStore := { s.secureStore with masterKey } })

/-! ## Operations -/

/-- `assertPassphrase`. -/
def assertPassphrase (nfkc : JsString → JsString) (passphrase : JsString) : VaultM Unit :=
  if (nfkc passphrase).length < 8 then fail .passphraseTooShort else pure ()

/-- The text a device id is made of: six random bytes in base64, letters and digits only. -/
def deviceIdOf (random : Bytes) : JsString :=
  ((toBase64 random).filter (fun c => (unit 'a' ≤ c && c ≤ unit 'z') || (unit 'A' ≤ c && c ≤ unit 'Z') ||
    (unit '0' ≤ c && c ≤ unit '9'))).take 8

/-- `mintDeviceId`. -/
def mintDeviceId (fails : Bool) (random : Bytes) : VaultM JsString := do
  guardFault fails
  change (fun s => { s with preferences := { s.preferences with deviceId := some (deviceIdOf random) } })
  pure (deviceIdOf random)

/-- `adopt`. -/
def adopt (fails : Bool) (masterKey : CryptoKey) : VaultM Unit := do
  setMasterKey (some masterKey)
  let s ← current
  if s.secureStore.durable then
    guardFault fails
    stash (some masterKey.raw)
  setState .unlocked

/-- `initialise` once a vault was found: take up the stashed key, if the device check allows. -/
def takeStashed (f : Faults) (present : Bool) : VaultM Unit := do
  guardFault (f 4)
  let s ← current
  match s.secureStore.masterKey with
  | none => setState .locked
  | some [] => setState .locked
  | some stashed => do
    guardFault (f 5)
    if s.preferences.biometricLock && !present then setState .locked
    else
      match importMasterKey stashed with
      | none => fail .keyLength
      | some key => do
        setMasterKey (some key)
        setState .unlocked

/-- `initialise`: `random` is what a device id is minted from, `present` the outcome of the device check. -/
def initialise (f : Faults) (random : Bytes) (present : Bool) : VaultM Unit := do
  guardFault (f 0 || f 1 || f 2)
  let s ← current
  setVaultId s.preferences.vaultId
  let deviceId ← match s.preferences.deviceId with
    | some deviceId => pure deviceId
    | none => mintDeviceId (f 3) random
  setDeviceId deviceId
  if truthy s.preferences.vaultId && s.preferences.wrapped.isSome then takeStashed f present
  else setState .uninitialised

/-- What `create` draws at random. -/
structure Random where
  key : CryptoKey
  salt : Bytes
  iv : Bytes
  uuid : JsString

variable (nfkc : JsString → JsString)

/-- `create`. -/
def create (f : Faults) (passphrase : JsString) (random : Random) : VaultM Unit := do
  assertPassphrase nfkc passphrase
  let wrapped := wrapMasterKey nfkc random.key passphrase random.salt random.iv
  writeBoth (f 0) (f 1) (some random.uuid) (some wrapped)
  setVaultId (some random.uuid)
  adopt (f 2) random.key

def unwrap (wrapped : WrappedMasterKey) (passphrase : JsString) : VaultM CryptoKey :=
  match unwrapMasterKey nfkc wrapped passphrase with
  | .ok key => pure key
  | .error e => fail (.unwrap e)

/-- `restore`. -/
def restore (f : Faults) (vaultId : JsString) (wrapped : WrappedMasterKey) (passphrase : JsString) : VaultM Unit := do
  let masterKey ← unwrap nfkc wrapped passphrase
  writeBoth (f 0) (f 1) (some vaultId) (some wrapped)
  setVaultId (some vaultId)
  adopt (f 2) masterKey

def readWrapped (fails : Bool) : VaultM WrappedMasterKey := do
  guardFault fails
  let s ← current
  match s.preferences.wrapped with
  | some wrapped => pure wrapped
  | none => fail .noVault

/-- `unlock`. -/
def unlock (f : Faults) (passphrase : JsString) : VaultM Unit := do
  let wrapped ← readWrapped (f 0)
  let masterKey ← unwrap nfkc wrapped passphrase
  adopt (f 1) masterKey

/-- The state a service without a key is in. -/
def closedState (vaultId : Option JsString) : VaultState := if truthy vaultId then .locked else .uninitialised

/-- `lock`. -/
def lock (fails : Bool) : VaultM Unit := do
  setMasterKey none
  guardFault fails
  stash none
  let s ← current
  setState (closedState s.vault.vaultId)

/-- `changePassphrase`, with the salt and initialisation vector the new wrap draws. -/
def changePassphrase (f : Faults) (passphrase next : JsString) (salt iv : Bytes) : VaultM Unit := do
  assertPassphrase nfkc next
  let wrapped ← readWrapped (f 0)
  let masterKey ← unwrap nfkc wrapped passphrase
  guardFault (f 1)
  change (fun s => { s with preferences :=
    { s.preferences with wrapped := some (wrapMasterKey nfkc masterKey next salt iv) } })

/-- `destroy`. -/
def destroy (f : Faults) : VaultM Unit := do
  lock (f 0)
  writeBoth (f 1) (f 2) none none
  setVaultId none
  setState .uninitialised

end VaultService

/-- `BiometricService.setEnabled`. -/
def BiometricService.setEnabled (fails enabled : Bool) : VaultM Unit := do
  VaultService.guardFault fails
  Failing.change (fun s => { s with preferences := { s.preferences with biometricLock := enabled } })

end EasyDocket
