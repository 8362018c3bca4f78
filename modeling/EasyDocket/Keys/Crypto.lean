import EasyDocket.JsString
import EasyDocket.Lib.Utf16

/-!
# Cryptography

`CryptoService` over ideal primitives: what PBKDF2 derives is told apart by the bytes of the passphrase, salt and
iteration count, and an AES-GCM ciphertext opens under the key, the initialisation vector and the additional data it was
sealed under, and under no others.  Base64 texts stand for the bytes they encode.
-/

namespace EasyDocket

abbrev Byte := Fin 256

abbrev Bytes := List Byte

/-! ## Base64 -/

/-- The digit of a base64 text. -/
def base64Digit (n : ℕ) : CodeUnit :=
  (js "ABCDEFGHIJKLMNOPQRSTUVWXYZabcdefghijklmnopqrstuvwxyz0123456789+/").getD n (unit '=')

/-- `toBase64`. -/
def toBase64 : Bytes → JsString
  | [] => []
  | [a] => [base64Digit (a / 4), base64Digit (a % 4 * 16), unit '=', unit '=']
  | [a, b] =>
    [base64Digit (a / 4), base64Digit (a % 4 * 16 + b / 16), base64Digit (b % 16 * 4), unit '=']
  | a :: b :: c :: rest =>
    base64Digit (a / 4) :: base64Digit (a % 4 * 16 + b / 16) :: base64Digit (b % 16 * 4 + c / 64) ::
      base64Digit (c % 64) :: toBase64 rest

example : toBase64 [77, 97, 110, 255] = js "TWFu/w==" := by decide

/-! ## Ideal encryption -/

/-- An AES-GCM ciphertext. -/
structure Ciphertext (κ ω α : Type) where
  key : κ
  iv : Bytes
  aad : ω
  plaintext : α

variable {κ ω α : Type} [DecidableEq κ] [DecidableEq ω]

def decrypt (key : κ) (iv : Bytes) (aad : ω) (c : Ciphertext κ ω α) : Option α :=
  if c.key = key ∧ c.iv = iv ∧ c.aad = aad then some c.plaintext else none

theorem decrypt_eq_some {key : κ} {iv : Bytes} {aad : ω} {c : Ciphertext κ ω α} {x : α} :
    decrypt key iv aad c = some x ↔ (c.key = key ∧ c.iv = iv ∧ c.aad = aad) ∧ c.plaintext = x := by
  unfold decrypt
  split_ifs with h
  · simp [h]
  · simp [h]

/-! ## Keys -/

/-- The length of a raw master key, `MASTER_KEY_BITS / 8`. -/
def MASTER_KEY_BYTES : ℕ := 256 / 8

/-- A master key. -/
structure CryptoKey where
  raw : Bytes
  length_eq : raw.length = MASTER_KEY_BYTES
  deriving DecidableEq

/-- `importMasterKey`. -/
def importMasterKey (raw : Bytes) : Option CryptoKey :=
  if h : raw.length = MASTER_KEY_BYTES then some ⟨raw, h⟩ else none

@[simp] theorem importMasterKey_raw (key : CryptoKey) : importMasterKey key.raw = some key := by
  unfold importMasterKey
  rw [dif_pos key.length_eq]

theorem importMasterKey_eq_some {raw : Bytes} {key : CryptoKey} : importMasterKey raw = some key ↔ raw = key.raw := by
  constructor
  · intro h
    unfold importMasterKey at h
    split_ifs at h
    cases h
    rfl
  · rintro rfl
    exact importMasterKey_raw key

/-- A key-encryption key: what PBKDF2 derives from the bytes of a normalised passphrase. -/
structure Kek where
  passphrase : List UInt8
  salt : Bytes
  iterations : ℕ
  deriving DecidableEq

/-- `WrappedMasterKey`. -/
structure WrappedMasterKey where
  version : ℕ
  kdf : JsString
  iterations : ℕ
  salt : Bytes
  iv : Bytes
  key : Ciphertext Kek JsString Bytes

def PBKDF2_ITERATIONS : ℕ := 650000

/-- `WRAP_AAD`, which sets wrapped keys apart from payloads. -/
def WRAP_AAD : JsString := js "easy-docket/wrap/v1"

def KDF_NAME : JsString := js "PBKDF2-SHA256"

section Wrap

-- `normalize('NFKC')`; nothing depends on what it does
variable (nfkc : JsString → JsString)

/-- `new TextEncoder().encode(passphrase.normalize('NFKC'))`: a surrogate without its other half is encoded like
U+FFFD. -/
def encodePassphrase (passphrase : JsString) : List UInt8 := Utf16.utf8 (nfkc passphrase)

/-- `deriveKek`; PBKDF2 refuses an iteration count of zero. -/
def deriveKek (passphrase : JsString) (salt : Bytes) (iterations : ℕ) : Option Kek :=
  if iterations = 0 then none else some ⟨encodePassphrase nfkc passphrase, salt, iterations⟩

/-- `wrapMasterKey`, with the random salt and initialisation vector it draws. -/
def wrapMasterKey (masterKey : CryptoKey) (passphrase : JsString) (salt iv : Bytes) : WrappedMasterKey :=
  ⟨1, KDF_NAME, PBKDF2_ITERATIONS, salt, iv,
    ⟨⟨encodePassphrase nfkc passphrase, salt, PBKDF2_ITERATIONS⟩, iv, WRAP_AAD, masterKey.raw⟩⟩

/-- Why a key could not be unwrapped. -/
inductive UnwrapError
  | unsupported
  | derivation
  | incorrectPassphrase
  | keyLength
  deriving DecidableEq

/-- `unwrapMasterKey`. -/
def unwrapMasterKey (wrapped : WrappedMasterKey) (passphrase : JsString) : Except UnwrapError CryptoKey :=
  if wrapped.version ≠ 1 ∨ wrapped.kdf ≠ KDF_NAME then .error .unsupported
  else
    match deriveKek nfkc passphrase wrapped.salt wrapped.iterations with
    | none => .error .derivation
    | some kek =>
      match decrypt kek wrapped.iv WRAP_AAD wrapped.key with
      | none => .error .incorrectPassphrase
      | some raw =>
        match importMasterKey raw with
        | none => .error .keyLength
        | some key => .ok key

variable {nfkc}

theorem deriveKek_eq_some {p : JsString} {salt : Bytes} {n : ℕ} {kek : Kek} :
    deriveKek nfkc p salt n = some kek ↔ n ≠ 0 ∧ (⟨encodePassphrase nfkc p, salt, n⟩ : Kek) = kek := by
  unfold deriveKek
  split_ifs with h
  · simp [h]
  · simp [h]

/-- When a wrapped key opens, and what it opens to. -/
theorem unwrapMasterKey_eq_ok {w : WrappedMasterKey} {p : JsString} {k : CryptoKey} :
    unwrapMasterKey nfkc w p = .ok k ↔ (w.version = 1 ∧ w.kdf = KDF_NAME ∧ w.iterations ≠ 0) ∧
      w.key.key = ⟨encodePassphrase nfkc p, w.salt, w.iterations⟩ ∧ w.key.iv = w.iv ∧ w.key.aad = WRAP_AAD ∧ w.key.plaintext = k.raw := by
  constructor
  · intro h
    unfold unwrapMasterKey at h
    split at h
    · cases h
    rename_i hformat
    push Not at hformat
    split at h
    · cases h
    rename_i kek hkek
    split at h
    · cases h
    rename_i raw hraw
    split at h
    · cases h
    rename_i key hkey
    cases h
    obtain ⟨hit, rfl⟩ := deriveKek_eq_some.mp hkek
    obtain ⟨⟨hk, hiv, haad⟩, hplain⟩ := decrypt_eq_some.mp hraw
    exact ⟨⟨hformat.1, hformat.2, hit⟩, hk, hiv, haad, hplain.trans (importMasterKey_eq_some.mp hkey)⟩
  · rintro ⟨⟨hv, hkdf, hit⟩, hk, hiv, haad, hplain⟩
    unfold unwrapMasterKey
    rw [if_neg (by simp [hv, hkdf])]
    simp only [deriveKek_eq_some.mpr ⟨hit, rfl⟩, decrypt_eq_some.mpr ⟨⟨hk, hiv, haad⟩, hplain⟩, importMasterKey_raw]

/-- A wrapped key opens under the passphrase it was wrapped under, whatever its spelling, and under what has the same
bytes. -/
theorem unwrapMasterKey_wrapMasterKey {k k' : CryptoKey} {p q : JsString} {salt iv : Bytes} :
    unwrapMasterKey nfkc (wrapMasterKey nfkc k p salt iv) q = .ok k' ↔
      encodePassphrase nfkc q = encodePassphrase nfkc p ∧ k' = k := by
  have hraw : k.raw = k'.raw ↔ k' = k := by
    cases k
    cases k'
    simp [eq_comm]
  rw [unwrapMasterKey_eq_ok]
  simp [wrapMasterKey, PBKDF2_ITERATIONS, hraw, eq_comm]

/-- A wrapped key opens under the bytes of one passphrase only, and to one key. -/
theorem unwrapMasterKey_unique {w : WrappedMasterKey} {p : JsString} {k : CryptoKey}
    (h : unwrapMasterKey nfkc w p = .ok k) (q : JsString) (k' : CryptoKey) :
    unwrapMasterKey nfkc w q = .ok k' ↔ encodePassphrase nfkc q = encodePassphrase nfkc p ∧ k' = k := by
  rw [unwrapMasterKey_eq_ok] at h
  obtain ⟨hformat, hkey, hiv, haad, hraw⟩ := h
  have heq : k.raw = k'.raw ↔ k' = k := by
    cases k
    cases k'
    simp [eq_comm]
  rw [unwrapMasterKey_eq_ok, hkey, hraw, heq]
  simp [hformat, hiv, haad, eq_comm]

end Wrap

end EasyDocket
