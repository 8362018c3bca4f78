import EasyDocket.Keys.Crypto
import Mathlib.Data.Set.Basic
import Mathlib.Tactic.Common

/-!
# Envelopes

The container of every byte that leaves a device: a magic, a version, an algorithm, the length of the header, the
initialisation vector, the header and the ciphertext.  What is parsed tiles the bytes exactly (`layout`), and the header
bytes are the ones that were authenticated.
-/

namespace EasyDocket

/-! ## Base64 texts -/

def isAsciiWhitespace (c : CodeUnit) : Bool := c = 9 || c = 10 || c = 12 || c = 13 || c = 32

/-- The value of a base64 digit. -/
def base64Value (c : CodeUnit) : Option ℕ := (List.range 64).find? (fun n => base64Digit n = c)

/-- At most two `=` at the end are padding. -/
def stripPadding (text : JsString) : JsString :=
  text.take (text.length - min 2 (text.reverse.takeWhile (fun c => c = unit '=')).length)

def byte (n : ℕ) : Byte := Fin.ofNat 256 n

/-- Groups of four base64 digits as bytes; bits that do not fill a byte are dropped. -/
def sextetBytes : List ℕ → Bytes
  | a :: b :: c :: d :: rest =>
    byte (a * 4 + b / 16) :: byte (b % 16 * 16 + c / 4) :: byte (c % 4 * 64 + d) :: sextetBytes rest
  | [a, b, c] => [byte (a * 4 + b / 16), byte (b % 16 * 16 + c / 4)]
  | [a, b] => [byte (a * 4 + b / 16)]
  | _ => []

/-- `fromBase64`; `atob` throws on what is not base64. -/
def fromBase64 (value : JsString) : Option Bytes :=
  let text := value.filter (fun c => !isAsciiWhitespace c)
  let body := if text.length % 4 = 0 then stripPadding text else text
  if body.length % 4 = 1 then none else (body.mapM base64Value).map sextetBytes

/-- The digits of a base64 text, as numbers. -/
def sextets : Bytes → List ℕ
  | [] => []
  | [a] => [a / 4, a % 4 * 16]
  | [a, b] => [a / 4, a % 4 * 16 + b / 16, b % 16 * 4]
  | a :: b :: c :: rest => a / 4 :: (a % 4 * 16 + b / 16) :: (b % 16 * 4 + c / 64) :: c % 64 :: sextets rest

/-- How much padding follows the digits. -/
def padding : Bytes → ℕ
  | [] => 0
  | [_] => 2
  | [_, _] => 1
  | _ :: _ :: _ :: rest => padding rest

theorem toBase64_eq (bytes : Bytes) :
    toBase64 bytes = (sextets bytes).map base64Digit ++ List.replicate (padding bytes) (unit '=') := by
  induction bytes using toBase64.induct with
  | case1 => rfl
  | case2 a => rfl
  | case3 a b => rfl
  | case4 a b c rest ih =>
    rw [toBase64, ih]
    rfl

theorem sextets_lt (bytes : Bytes) : ∀ n ∈ sextets bytes, n < 64 := by
  induction bytes using toBase64.induct with
  | case1 => simp [sextets]
  | case2 a =>
    simp only [sextets, List.forall_mem_cons]
    refine ⟨by omega, by omega, by simp⟩
  | case3 a b =>
    simp only [sextets, List.forall_mem_cons]
    refine ⟨by omega, by omega, by omega, by simp⟩
  | case4 a b c rest ih =>
    simp only [sextets, List.forall_mem_cons]
    exact ⟨by omega, by omega, by omega, by omega, ih⟩

/-- Digits and padding together come in groups of four, the digits alone never leave one over. -/
theorem sextets_length (bytes : Bytes) : ((sextets bytes).length + padding bytes) % 4 = 0 ∧ padding bytes ≤ 2 := by
  induction bytes using toBase64.induct with
  | case1 => simp [sextets, padding]
  | case2 a => simp [sextets, padding]
  | case3 a b => simp [sextets, padding]
  | case4 a b c rest ih =>
    simp only [sextets, padding, List.length_cons]
    omega

theorem sextetBytes_sextets (bytes : Bytes) : sextetBytes (sextets bytes) = bytes := by
  have hbyte : ∀ {n : ℕ} {a : Byte}, n = a → byte n = a := by
    rintro n a rfl
    exact Fin.ext (Nat.mod_eq_of_lt a.isLt)
  induction bytes using toBase64.induct with
  | case1 => rfl
  | case2 a =>
    simp only [sextets, sextetBytes, List.cons.injEq, and_true]
    exact hbyte (by omega)
  | case3 a b =>
    simp only [sextets, sextetBytes, List.cons.injEq, and_true]
    exact ⟨hbyte (by omega), hbyte (by omega)⟩
  | case4 a b c rest ih =>
    simp only [sextets, sextetBytes, ih, List.cons.injEq, and_true]
    exact ⟨hbyte (by omega), hbyte (by omega), hbyte (by omega)⟩

theorem base64Value_digit : ∀ n < 64, base64Value (base64Digit n) = some n := by decide +kernel

theorem base64Digit_plain : ∀ n < 64, isAsciiWhitespace (base64Digit n) = false ∧ base64Digit n ≠ unit '=' := by
  decide +kernel

theorem mapM_base64Value {l : List ℕ} (h : ∀ n ∈ l, n < 64) : (l.map base64Digit).mapM base64Value = some l := by
  induction l with
  | nil => rfl
  | cons n l ih =>
    rw [List.forall_mem_cons] at h
    rw [List.map_cons, List.mapM_cons, base64Value_digit n h.1, ih h.2]
    rfl

/-- Padding is stripped from digits, none of which is an `=`. -/
theorem stripPadding_append {digits : JsString} {k : ℕ} (h : ∀ c ∈ digits, c ≠ unit '=') (hk : k ≤ 2) :
    stripPadding (digits ++ List.replicate k (unit '=')) = digits := by
  have hrev : (digits ++ List.replicate k (unit '=')).reverse = List.replicate k (unit '=') ++ digits.reverse := by
    rw [List.reverse_append, List.reverse_replicate]
  have hnone : digits.reverse.takeWhile (fun c => c = unit '=') = [] := by
    cases hd : digits.reverse with
    | nil => rfl
    | cons c cs =>
      have hc : c ∈ digits := List.mem_reverse.mp (hd ▸ List.mem_cons_self)
      exact List.takeWhile_cons_of_neg (by simpa using h c hc)
  have hcount : ((digits ++ List.replicate k (unit '=')).reverse.takeWhile (fun c => c = unit '=')).length = k := by
    rw [hrev, List.takeWhile_append_of_pos (by simp), hnone, List.append_nil, List.length_replicate]
  unfold stripPadding
  rw [hcount, List.length_append, List.length_replicate, min_eq_right hk, Nat.add_sub_cancel, List.take_left']
  rfl

theorem fromBase64_toBase64 (bytes : Bytes) : fromBase64 (toBase64 bytes) = some bytes := by
  obtain ⟨hfour, hpad⟩ := sextets_length bytes
  have hdigits : ∀ c ∈ (sextets bytes).map base64Digit, isAsciiWhitespace c = false ∧ c ≠ unit '=' := by
    intro c hc
    obtain ⟨n, hn, rfl⟩ := List.mem_map.mp hc
    exact base64Digit_plain n (sextets_lt bytes n hn)
  have htext : (toBase64 bytes).filter (fun c => !isAsciiWhitespace c) = toBase64 bytes := by
    refine List.filter_eq_self.mpr (fun c hc => ?_)
    rw [toBase64_eq] at hc
    rcases List.mem_append.mp hc with hc | hc
    · rw [(hdigits c hc).1]
      rfl
    · rw [(List.mem_replicate.mp hc).2]
      decide
  have hlength : (toBase64 bytes).length % 4 = 0 := by
    rw [toBase64_eq, List.length_append, List.length_map, List.length_replicate]
    exact hfour
  have hbody : stripPadding (toBase64 bytes) = (sextets bytes).map base64Digit := by
    rw [toBase64_eq]
    exact stripPadding_append (fun c hc => (hdigits c hc).2) hpad
  have hone : ¬ (sextets bytes).length % 4 = 1 := by omega
  unfold fromBase64
  simp only [htext, if_pos hlength, hbody, List.length_map, if_neg hone]
  rw [mapM_base64Value (sextets_lt bytes)]
  exact congrArg some (sextetBytes_sextets bytes)

example : fromBase64 (js " TWFu\n/w==") = some [77, 97, 110, 255] := by decide +kernel

namespace Container

/-! ## The container -/

/-- "EDCK". -/
def ENVELOPE_MAGIC : Bytes := [0x45, 0x44, 0x43, 0x4b]

def ENVELOPE_VERSION : Byte := 1

def ALG_AES_256_GCM : Byte := 1

def IV_LENGTH : ℕ := 12

def HEADER_OFFSET : ℕ := 20

/-- Why an envelope could not be written, read or opened. -/
inductive EnvelopeError
  /-- `EnvelopeFormatError`. -/
  | format (message : JsString)
  /-- `RangeError`: bytes outside of an array were written or read. -/
  | range
  /-- `DecryptionError`. -/
  | decryption
  deriving DecidableEq

structure ParsedEnvelope (η : Type) where
  header : η
  iv : Bytes
  payload : Bytes
  /-- The exact bytes that were authenticated as additional data. -/
  aad : Bytes

/-- `out.set(bytes, offset)`. -/
def set (out bytes : Bytes) (offset : ℕ) : Except EnvelopeError Bytes :=
  if out.length < offset + bytes.length then .error .range
  else .ok (out.take offset ++ bytes ++ out.drop (offset + bytes.length))

/-- A 16-bit number, big-endian. -/
def uint16 (n : ℕ) : Bytes := [byte (n / 256), byte n]

/-- `view.getUint16(offset)`. -/
def getUint16 (bytes : Bytes) (offset : ℕ) : Except EnvelopeError ℕ :=
  match bytes[offset]?, bytes[offset + 1]? with
  | some a, some b => .ok (a * 256 + b)
  | _, _ => .error .range

/-- `bytes.slice(start, stop)`, which stops at the end of the array. -/
def slice (bytes : Bytes) (start stop : ℕ) : Bytes := (bytes.take stop).drop start

section Format

-- a header is a JSON value; `encode` is its text in UTF-8 and `decode` reads one back
variable {η : Type} (encode : η → Bytes) (decode : Bytes → Option η)

def serialiseEnvelope (header : η) (iv payload : Bytes) : Except EnvelopeError Bytes :=
  if iv.length ≠ IV_LENGTH then
    .error (.format (js "IV must be " ++ js (toString IV_LENGTH) ++ js " bytes, got " ++ js (toString iv.length)))
  else
    let headerBytes := encode header
    if headerBytes.length > 0xffff then .error (.format (js "Envelope header exceeds 64 KiB"))
    else do
      let out := List.replicate (HEADER_OFFSET + headerBytes.length + payload.length) 0
      let out ← set out ENVELOPE_MAGIC 0
      let out ← set out [ENVELOPE_VERSION] 4
      let out ← set out [ALG_AES_256_GCM] 5
      let out ← set out (uint16 headerBytes.length) 6
      let out ← set out iv 8
      let out ← set out headerBytes HEADER_OFFSET
      set out payload (HEADER_OFFSET + headerBytes.length)

def parseEnvelope (bytes : Bytes) : Except EnvelopeError (ParsedEnvelope η) :=
  if bytes.length < HEADER_OFFSET then .error (.format (js "Envelope truncated before header"))
  else if (List.range ENVELOPE_MAGIC.length).any (fun i => bytes[i]? ≠ ENVELOPE_MAGIC[i]?) then
    .error (.format (js "Not an Easy Docket envelope"))
  else if bytes[4]? ≠ some ENVELOPE_VERSION then
    .error (.format (js "Unsupported envelope version " ++ js (toString (bytes.getD 4 0).val)))
  else if bytes[5]? ≠ some ALG_AES_256_GCM then
    .error (.format (js "Unsupported algorithm " ++ js (toString (bytes.getD 5 0).val)))
  else do
    let headerLen ← getUint16 bytes 6
    let payloadStart := HEADER_OFFSET + headerLen
    if bytes.length < payloadStart then .error (.format (js "Envelope truncated inside header"))
    else
      let iv := slice bytes 8 (8 + IV_LENGTH)
      let aad := slice bytes HEADER_OFFSET payloadStart
      match decode aad with
      | none => .error (.format (js "Envelope header is not valid JSON"))
      | some header => .ok ⟨header, iv, slice bytes payloadStart bytes.length, aad⟩

end Format

/-! ## Layout -/

/-- The bytes of an envelope. -/
def layout (iv aad payload : Bytes) : Bytes :=
  ENVELOPE_MAGIC ++ [ENVELOPE_VERSION, ALG_AES_256_GCM] ++ uint16 aad.length ++ iv ++ aad ++ payload

/-- The first eight bytes, which fix where the header ends. -/
def preamble (headerLen : ℕ) : Bytes := ENVELOPE_MAGIC ++ [ENVELOPE_VERSION, ALG_AES_256_GCM] ++ uint16 headerLen

variable {η : Type} {encode : η → Bytes} {decode : Bytes → Option η} {header : η} {iv aad payload bytes : Bytes}

theorem layout_eq : layout iv aad payload = preamble aad.length ++ (iv ++ (aad ++ payload)) := by
  unfold layout preamble
  simp only [List.append_assoc]

@[simp] theorem preamble_length (n : ℕ) : (preamble n).length = 8 := rfl

theorem getUint16_preamble {n : ℕ} (h : n ≤ 0xffff) (rest : Bytes) : getUint16 (preamble n ++ rest) 6 = .ok n := by
  show Except.ok ((byte (n / 256) : ℕ) * 256 + (byte n : ℕ)) = .ok n
  have hhi : (byte (n / 256) : ℕ) = n / 256 := Nat.mod_eq_of_lt (by omega)
  have hlo : (byte n : ℕ) = n % 256 := rfl
  rw [hhi, hlo]
  exact congrArg Except.ok (by omega)

/-- A write that goes on where the last one ended. -/
theorem set_next {α : Type} {offset : ℕ} (done new : Bytes) (r : ℕ) (h : offset = done.length)
    (f : Bytes → Except EnvelopeError α) :
    (set (done ++ List.replicate (new.length + r) 0) new offset >>= f) = f ((done ++ new) ++ List.replicate r 0) := by
  have hset : set (done ++ List.replicate (new.length + r) 0) new offset =
      .ok ((done ++ new) ++ List.replicate r 0) := by
    unfold set
    rw [if_neg (by simp [h]), h, List.take_left, ← List.drop_drop, List.drop_left, List.drop_replicate,
      Nat.add_sub_cancel_left]
  rw [hset]
  rfl

/-- The writes of `serialiseEnvelope` tile the array. -/
theorem serialiseEnvelope_eq (payload : Bytes) (hiv : iv.length = IV_LENGTH) (hheader : (encode header).length ≤ 0xffff) :
    serialiseEnvelope encode header iv payload = .ok (layout iv (encode header) payload) := by
  have hsize : HEADER_OFFSET + (encode header).length + payload.length =
      4 + (1 + (1 + (2 + (iv.length + ((encode header).length + (payload.length + 0)))))) := by
    rw [hiv]
    unfold HEADER_OFFSET IV_LENGTH
    omega
  have hlast : ∀ out offset, set out payload offset = (set out payload offset >>= Except.ok) := by
    intro out offset
    cases set out payload offset <;> rfl
  unfold serialiseEnvelope
  rw [if_neg (not_not.mpr hiv)]
  dsimp only
  rw [if_neg (not_lt.mpr hheader), hsize]
  refine (set_next [] ENVELOPE_MAGIC _ rfl _).trans ?_
  refine (set_next ENVELOPE_MAGIC [ENVELOPE_VERSION] _ rfl _).trans ?_
  refine (set_next _ [ALG_AES_256_GCM] _ rfl _).trans ?_
  refine (set_next _ (uint16 (encode header).length) _ rfl _).trans ?_
  refine (set_next _ iv _ rfl _).trans ?_
  refine (set_next _ (encode header) _ ?_ _).trans ?_
  · rw [List.length_append, hiv]
    rfl
  rw [hlast]
  refine (set_next _ payload 0 ?_ _).trans ?_
  · rw [List.length_append, List.length_append, hiv]
    rfl
  · rw [List.replicate_zero, List.append_nil]
    rfl

/-! ## Reading -/

section Reading

variable (hiv : iv.length = IV_LENGTH) (haad : aad.length ≤ 0xffff)
include hiv

theorem layout_length : (layout iv aad payload).length = HEADER_OFFSET + aad.length + payload.length := by
  rw [layout_eq]
  simp only [List.length_append, preamble_length, hiv, HEADER_OFFSET, IV_LENGTH]
  omega

theorem slice_iv : slice (layout iv aad payload) 8 (8 + IV_LENGTH) = iv := by
  unfold slice
  have hlength : (preamble aad.length ++ iv).length = 8 + IV_LENGTH := by rw [List.length_append, hiv, preamble_length]
  rw [layout_eq, ← List.append_assoc, List.take_left' hlength,
    List.drop_left' (preamble_length aad.length)]

theorem drop_header : (layout iv aad payload).drop HEADER_OFFSET = aad ++ payload := by
  have hlength : (preamble aad.length ++ iv).length = HEADER_OFFSET := by rw [List.length_append, hiv, preamble_length]; rfl
  rw [layout_eq, ← List.append_assoc, List.drop_left' hlength]

theorem slice_aad : slice (layout iv aad payload) HEADER_OFFSET (HEADER_OFFSET + aad.length) = aad := by
  unfold slice
  rw [List.drop_take, drop_header hiv, Nat.add_sub_cancel_left, List.take_left]

theorem slice_payload :
    slice (layout iv aad payload) (HEADER_OFFSET + aad.length) (layout iv aad payload).length = payload := by
  unfold slice
  rw [List.take_length, ← List.drop_drop, drop_header hiv, List.drop_left]

include haad in
/-- What was laid out is read back. -/
theorem parseEnvelope_layout (hheader : decode aad = some header) :
    parseEnvelope decode (layout iv aad payload) = .ok ⟨header, iv, payload, aad⟩ := by
  have hlength := @layout_length iv aad payload hiv
  have hlen : getUint16 (layout iv aad payload) 6 = .ok aad.length := by
    rw [layout_eq]
    exact getUint16_preamble haad _
  unfold parseEnvelope
  rw [if_neg (by rw [hlength]; omega), if_neg (by rw [layout_eq]; exact Bool.false_ne_true), if_neg (by rw [layout_eq]; exact not_not.mpr rfl),
    if_neg (by rw [layout_eq]; exact not_not.mpr rfl), hlen]
  show (if _ then _ else _) = _
  rw [if_neg (by rw [hlength]; omega), slice_iv hiv, slice_aad hiv, slice_payload hiv, hheader]

end Reading

/-- What the checks of magic, version and algorithm let through. -/
theorem preamble_of_checks (hlength : 8 ≤ bytes.length)
    (hmagic : ¬ (List.range ENVELOPE_MAGIC.length).any (fun i => bytes[i]? ≠ ENVELOPE_MAGIC[i]?) = true)
    (hversion : ¬ bytes[4]? ≠ some ENVELOPE_VERSION) (halg : ¬ bytes[5]? ≠ some ALG_AES_256_GCM) :
    ∃ n ≤ 0xffff, getUint16 bytes 6 = .ok n ∧ bytes.take 8 = preamble n := by
  match bytes, hlength with
  | b₀ :: b₁ :: b₂ :: b₃ :: b₄ :: b₅ :: b₆ :: b₇ :: rest, _ =>
    have hmagic : b₀ = 0x45 ∧ b₁ = 0x44 ∧ b₂ = 0x43 ∧ b₃ = 0x4b := by
      simpa [ENVELOPE_MAGIC, List.range_succ] using hmagic
    have hbyte : ∀ {n : ℕ} {a : Byte}, n % 256 = a → byte n = a := fun h => Fin.ext h
    refine ⟨b₆ * 256 + b₇, by omega, rfl, ?_⟩
    have hhi : byte ((b₆ * 256 + b₇ : ℕ) / 256) = b₆ := hbyte (by omega)
    have hlo : byte (b₆ * 256 + b₇ : ℕ) = b₇ := hbyte (by omega)
    obtain ⟨rfl, rfl, rfl, rfl⟩ := hmagic
    obtain rfl : b₄ = ENVELOPE_VERSION := Option.some.inj (not_not.mp hversion)
    obtain rfl : b₅ = ALG_AES_256_GCM := Option.some.inj (not_not.mp halg)
    unfold preamble uint16
    rw [hhi, hlo]
    rfl

/-- Bytes with a preamble, cut where it says, are laid out. -/
theorem layout_of_preamble {n : ℕ} (hpre : bytes.take 8 = preamble n) (hn : HEADER_OFFSET + n ≤ bytes.length) :
    (slice bytes 8 (8 + IV_LENGTH)).length = IV_LENGTH ∧ (slice bytes HEADER_OFFSET (HEADER_OFFSET + n)).length = n ∧
    bytes = layout (slice bytes 8 (8 + IV_LENGTH)) (slice bytes HEADER_OFFSET (HEADER_OFFSET + n))
      (slice bytes (HEADER_OFFSET + n) bytes.length) := by
  have hslice : ∀ start stop, stop ≤ bytes.length → (slice bytes start stop).length = stop - start := by
    intro start stop hstop
    unfold slice
    rw [List.length_drop, List.length_take, min_eq_left hstop]
  have hiv := hslice 8 (8 + IV_LENGTH) (le_trans (Nat.le_add_right HEADER_OFFSET n) hn)
  have haad := hslice HEADER_OFFSET (HEADER_OFFSET + n) hn
  rw [Nat.add_sub_cancel_left] at hiv haad
  refine ⟨hiv, haad, ?_⟩
  have hcut : ∀ start stop, start ≤ stop → bytes.drop start = slice bytes start stop ++ bytes.drop stop := by
    intro start stop hle
    unfold slice
    rw [List.drop_take]
    have hdrop : bytes.drop stop = (bytes.drop start).drop (stop - start) := by
      rw [List.drop_drop, Nat.add_sub_cancel' hle]
    rw [hdrop, List.take_append_drop]
  have hrest : slice bytes (HEADER_OFFSET + n) bytes.length = bytes.drop (HEADER_OFFSET + n) := by
    unfold slice
    rw [List.take_length]
  calc bytes = bytes.take 8 ++ bytes.drop 8 := (List.take_append_drop 8 bytes).symm
    _ = preamble n ++ (slice bytes 8 HEADER_OFFSET ++ bytes.drop HEADER_OFFSET) := by
      rw [hpre, hcut 8 HEADER_OFFSET (by decide)]
    _ = layout (slice bytes 8 (8 + IV_LENGTH)) (slice bytes HEADER_OFFSET (HEADER_OFFSET + n))
        (slice bytes (HEADER_OFFSET + n) bytes.length) := by
      rw [layout_eq, haad, hcut HEADER_OFFSET (HEADER_OFFSET + n) (Nat.le_add_right _ _), hrest]
      rfl

/-- What was parsed is what the bytes consist of. -/
structure Tiles (bytes : Bytes) (p : ParsedEnvelope η) : Prop where
  iv : p.iv.length = IV_LENGTH
  aad : p.aad.length ≤ 0xffff
  bytes : bytes = layout p.iv p.aad p.payload

/-- Parsing throws an `EnvelopeFormatError`, or cuts the bytes up. -/
theorem parseEnvelope_cases (bytes : Bytes) : (∃ message, parseEnvelope decode bytes = .error (.format message)) ∨
    ∃ p, parseEnvelope decode bytes = .ok p ∧ Tiles bytes p ∧ decode p.aad = some p.header := by
  unfold parseEnvelope
  split_ifs with hlength hmagic hversion halg
  · exact Or.inl ⟨_, rfl⟩
  · exact Or.inl ⟨_, rfl⟩
  · exact Or.inl ⟨_, rfl⟩
  · exact Or.inl ⟨_, rfl⟩
  · have height : 8 ≤ bytes.length := le_trans (by decide) (not_lt.mp hlength)
    obtain ⟨n, hn, hread, hpre⟩ := preamble_of_checks height hmagic hversion halg
    rw [hread]
    dsimp only [Bind.bind, Except.bind]
    split_ifs with hinside
    · exact Or.inl ⟨_, rfl⟩
    · obtain ⟨hiv, haad, hbytes⟩ := layout_of_preamble hpre (not_lt.mp hinside)
      cases hheader : decode (slice bytes HEADER_OFFSET (HEADER_OFFSET + n)) with
      | none => exact Or.inl ⟨_, rfl⟩
      | some header => exact Or.inr ⟨_, rfl, ⟨hiv, haad.le.trans hn, hbytes⟩, hheader⟩

theorem tiles_of_parsed {p : ParsedEnvelope η} (h : parseEnvelope decode bytes = .ok p) :
    Tiles bytes p ∧ decode p.aad = some p.header := by
  rcases parseEnvelope_cases bytes with ⟨message, herror⟩ | ⟨p', hp', htiles⟩
  · rw [h] at herror
    cases herror
  · rw [h] at hp'
    cases hp'
    exact htiles

/-! ## Sealing and opening -/

/-- AES-GCM. -/
structure Aead (κ : Type) where
  encrypt (key : κ) (iv additionalData plaintext : Bytes) : Bytes
  decrypt (key : κ) (iv additionalData ciphertext : Bytes) : Option Bytes

/-- An ideal cipher, `made` being what has been encrypted under initialisation vectors that are never reused with a key:
it decrypts that and nothing else, and no two of its ciphertexts are the same. -/
structure Aead.Ideal {κ : Type} (A : Aead κ) (made : Set (κ × Bytes × Bytes × Bytes)) : Prop where
  decrypts : ∀ key iv aad ciphertext plaintext, A.decrypt key iv aad ciphertext = some plaintext ↔
    (key, iv, aad, plaintext) ∈ made ∧ A.encrypt key iv aad plaintext = ciphertext
  fresh : ∀ key iv aad aad' plaintext plaintext', (key, iv, aad, plaintext) ∈ made →
    (key, iv, aad', plaintext') ∈ made → aad = aad' ∧ plaintext = plaintext'
  distinct : ∀ key iv iv' aad aad' plaintext plaintext', (key, iv, aad, plaintext) ∈ made →
    (key, iv', aad', plaintext') ∈ made →
    A.encrypt key iv aad plaintext = A.encrypt key iv' aad' plaintext' → iv = iv'

section Sealing

variable {κ : Type} (A : Aead κ) (encode : η → Bytes) (decode : Bytes → Option η)

/-- `seal`, with the random initialisation vector it draws. -/
def sealEnvelope (key : κ) (header : η) (plaintext iv : Bytes) : Except EnvelopeError Bytes :=
  let aad := encode header
  let ciphertext := A.encrypt key iv aad plaintext
  serialiseEnvelope encode header iv ciphertext

/-- `open`. -/
def openEnvelope (key : κ) (bytes : Bytes) : Except EnvelopeError (η × Bytes) := do
  let envelope ← parseEnvelope decode bytes
  match A.decrypt key envelope.iv envelope.aad envelope.payload with
  | none => .error .decryption
  | some plaintext => .ok (envelope.header, plaintext)

end Sealing

variable {κ : Type} {A : Aead κ} {made : Set (κ × Bytes × Bytes × Bytes)} {key : κ} {plaintext : Bytes}

/-- What opens is an envelope that was sealed. -/
theorem sealed_of_opened (hA : A.Ideal made) {opened : η × Bytes} (h : openEnvelope A decode key bytes = .ok opened) :
    ∃ iv aad, iv.length = IV_LENGTH ∧ aad.length ≤ 0xffff ∧ (key, iv, aad, opened.2) ∈ made ∧
      decode aad = some opened.1 ∧ bytes = layout iv aad (A.encrypt key iv aad opened.2) := by
  unfold openEnvelope at h
  cases hparse : parseEnvelope decode bytes with
  | error e =>
    rw [hparse] at h
    cases h
  | ok p =>
    obtain ⟨htiles, hheader⟩ := tiles_of_parsed hparse
    rw [hparse] at h
    dsimp only [Bind.bind, Except.bind] at h
    cases hdecrypt : A.decrypt key p.iv p.aad p.payload with
    | none =>
      rw [hdecrypt] at h
      cases h
    | some plaintext =>
      rw [hdecrypt] at h
      obtain rfl := Except.ok.inj h
      obtain ⟨hmade, hcipher⟩ := (hA.decrypts _ _ _ _ _).mp hdecrypt
      exact ⟨p.iv, p.aad, htiles.iv, htiles.aad, hmade, hheader, hcipher.symm ▸ htiles.bytes⟩

theorem openEnvelope_layout (hA : A.Ideal made) (hiv : iv.length = IV_LENGTH) (haad : aad.length ≤ 0xffff)
    (hheader : decode aad = some header) (hmade : (key, iv, aad, plaintext) ∈ made) :
    openEnvelope A decode key (layout iv aad (A.encrypt key iv aad plaintext)) = .ok (header, plaintext) := by
  unfold openEnvelope
  rw [parseEnvelope_layout hiv haad hheader]
  dsimp only [Bind.bind, Except.bind]
  rw [(hA.decrypts _ _ _ _ _).mpr ⟨hmade, rfl⟩]

/-- A change outside of the initialisation vector leaves it as it is. -/
theorem slice_iv_of_set {i : ℕ} {b : Byte} (h : i < 8 ∨ HEADER_OFFSET ≤ i) :
    slice (bytes.set i b) 8 (8 + IV_LENGTH) = slice bytes 8 (8 + IV_LENGTH) := by
  unfold slice
  rw [List.take_set]
  rcases h with h | h
  · rw [List.drop_set_of_lt h]
  · have hout : (bytes.take (8 + IV_LENGTH)).length ≤ i := le_trans (List.length_take_le _ _) h
    rw [List.set_eq_of_length_le hout]

/-- An envelope that was sealed is not the change of one byte away from another one. -/
theorem sealed_of_set {iv' aad' : Bytes} {plaintext' : Bytes} {i : ℕ} {b : Byte} (hA : A.Ideal made)
    (hiv : iv.length = IV_LENGTH) (hiv' : iv'.length = IV_LENGTH) (haad : aad.length ≤ 0xffff) (haad' : aad'.length ≤ 0xffff)
    (hmade : (key, iv, aad, plaintext) ∈ made) (hmade' : (key, iv', aad', plaintext') ∈ made)
    (h : (layout iv aad (A.encrypt key iv aad plaintext)).set i b = layout iv' aad' (A.encrypt key iv' aad' plaintext')) :
    layout iv' aad' (A.encrypt key iv' aad' plaintext') = layout iv aad (A.encrypt key iv aad plaintext) := by
  have hsame : iv = iv' := by
    by_cases hi : i < 8 ∨ HEADER_OFFSET ≤ i
    · have hslice := @slice_iv_of_set (layout iv aad (A.encrypt key iv aad plaintext)) i b hi
      rw [h, slice_iv hiv, slice_iv hiv'] at hslice
      exact hslice.symm
    · -- the change is to the initialisation vector: header and ciphertext are the same
      push Not at hi
      have hread : getUint16 (layout iv' aad' (A.encrypt key iv' aad' plaintext')) 6 =
          getUint16 (layout iv aad (A.encrypt key iv aad plaintext)) 6 := by
        rw [← h]
        unfold getUint16
        rw [List.getElem?_set_ne (by omega), List.getElem?_set_ne (by omega)]
      rw [layout_eq, layout_eq, getUint16_preamble haad', getUint16_preamble haad] at hread
      have hlength : aad'.length = aad.length := Except.ok.inj hread
      have hrest := congrArg (List.drop HEADER_OFFSET) h
      rw [List.drop_set_of_lt hi.2, drop_header hiv, drop_header hiv'] at hrest
      obtain ⟨-, hcipher⟩ := List.append_inj hrest hlength.symm
      exact hA.distinct key iv iv' aad aad' plaintext plaintext' hmade hmade' hcipher
  subst hsame
  obtain ⟨rfl, rfl⟩ := hA.fresh key iv aad aad' plaintext plaintext' hmade hmade'
  rfl

/-- The codec of envelopes: writing and reading are inverse, reading throws or tiles the bytes, base64 is read back, and
opening is inverse to sealing and refuses whatever was not sealed. -/
theorem envelope_codec (encode : η → Bytes) (decode : Bytes → Option η) (hA : A.Ideal made) :
    (∀ header iv payload, decode (encode header) = some header → (encode header).length ≤ 0xffff →
      iv.length = IV_LENGTH → ∃ bytes, serialiseEnvelope encode header iv payload = .ok bytes ∧
          parseEnvelope decode bytes = .ok ⟨header, iv, payload, encode header⟩) ∧
    (∀ bytes, (∃ message, parseEnvelope decode bytes = .error (.format message)) ∨
      ∃ p, parseEnvelope decode bytes = .ok p ∧ Tiles bytes p) ∧
    (∀ bytes, fromBase64 (toBase64 bytes) = some bytes) ∧
    (∀ key header iv plaintext, decode (encode header) = some header → (encode header).length ≤ 0xffff →
      iv.length = IV_LENGTH → (key, iv, encode header, plaintext) ∈ made →
      ∃ bytes, sealEnvelope A encode key header plaintext iv = .ok bytes ∧
        openEnvelope A decode key bytes = .ok (header, plaintext) ∧
        ∀ i b, bytes.set i b ≠ bytes → ∃ e, openEnvelope A decode key (bytes.set i b) = .error e) ∧
    ∀ key bytes opened, openEnvelope A decode key bytes = .ok opened →
      ∃ iv aad, (key, iv, aad, opened.2) ∈ made ∧ bytes = layout iv aad (A.encrypt key iv aad opened.2) := by
  refine ⟨fun header iv payload hjson hheader hiv => ?_, fun bytes => ?_, fromBase64_toBase64,
    fun key header iv plaintext hjson hheader hiv hmade => ?_, fun key bytes opened h => ?_⟩
  · exact ⟨_, serialiseEnvelope_eq payload hiv hheader, parseEnvelope_layout hiv hheader hjson⟩
  · exact (parseEnvelope_cases bytes).imp_right (fun ⟨p, hp, htiles, _⟩ => ⟨p, hp, htiles⟩)
  · refine ⟨_, serialiseEnvelope_eq _ hiv hheader, openEnvelope_layout hA hiv hheader hjson hmade, fun i b hne => ?_⟩
    cases hopen : openEnvelope A decode key ((layout iv (encode header) (A.encrypt key iv (encode header) plaintext)).set i b) with
    | error e => exact ⟨e, rfl⟩
    | ok opened =>
      obtain ⟨iv', aad', hiv', haad', hmade', -, hbytes⟩ := sealed_of_opened hA hopen
      exact absurd (hbytes.trans (sealed_of_set hA hiv hiv' hheader haad' hmade hmade' hbytes)) hne
  · obtain ⟨iv, aad, -, -, hmade, -, hbytes⟩ := sealed_of_opened hA h
    exact ⟨iv, aad, hmade, hbytes⟩

/-- `EnvelopeHeader`. -/
structure EnvelopeHeader where
  v : JsString
  d : JsString
  h : JsString
  t : JsString
  deriving DecidableEq

/-- The JSON text of a header that needs no escapes. -/
def plainText (header : EnvelopeHeader) : Bytes :=
  (js "\x7b\"v\":\"" ++ header.v ++ js "\",\"d\":\"" ++ header.d ++ js "\",\"h\":\"" ++ header.h ++
    js "\",\"t\":\"" ++ header.t ++ js "\"\x7d").map (fun c => byte c)

def sampleHeader : EnvelopeHeader := ⟨js "v", js "a", [], js "ops"⟩

def sampleIv : Bytes := List.replicate 12 9

/-- What AES-256-GCM makes of the bytes 1, 2, 3 under the zero key. -/
def sampleCiphertext : Bytes :=
  [249, 17, 32, 133, 224, 225, 165, 151, 231, 12, 71, 233, 131, 225, 182, 197, 37, 99, 48]

/-- AES-256-GCM under the zero key, as far as the sample goes. -/
def sampleAead : Aead Unit where
  encrypt := fun _ iv aad plaintext =>
    if iv = sampleIv ∧ aad = plainText sampleHeader ∧ plaintext = [1, 2, 3] then sampleCiphertext else []
  decrypt := fun _ iv aad ciphertext =>
    if iv = sampleIv ∧ aad = plainText sampleHeader ∧ ciphertext = sampleCiphertext then some [1, 2, 3] else none

theorem sampleAead_ideal : sampleAead.Ideal {((), sampleIv, plainText sampleHeader, [1, 2, 3])} where
  decrypts := by
    intro key iv aad ciphertext plaintext
    rw [Set.mem_singleton_iff]
    simp only [sampleAead, Option.ite_none_right_eq_some, Option.some.injEq, Prod.mk.injEq, true_and]
    constructor
    · rintro ⟨⟨rfl, rfl, rfl⟩, rfl⟩
      exact ⟨⟨rfl, rfl, rfl⟩, if_pos ⟨rfl, rfl, rfl⟩⟩
    · rintro ⟨⟨rfl, rfl, rfl⟩, hcipher⟩
      rw [if_pos ⟨rfl, rfl, rfl⟩] at hcipher
      exact ⟨⟨rfl, rfl, hcipher.symm⟩, rfl⟩
  fresh := by
    intro key iv aad aad' plaintext plaintext' h h'
    cases h
    cases h'
    exact ⟨rfl, rfl⟩
  distinct := by
    intro key iv iv' aad aad' plaintext plaintext' h h' _
    cases h
    cases h'
    rfl

/-- The sample is sealed, opened, and refused once a byte of it is changed. -/
theorem envelope_codec_sample : ∃ bytes, bytes.length = 73 ∧
    sealEnvelope sampleAead plainText () sampleHeader [1, 2, 3] sampleIv = .ok bytes ∧
    openEnvelope sampleAead (fun text => if text = plainText sampleHeader then some sampleHeader else none) () bytes =
      .ok (sampleHeader, [1, 2, 3]) ∧
    ∀ i b, bytes.set i b ≠ bytes → ∃ e, openEnvelope sampleAead
      (fun text => if text = plainText sampleHeader then some sampleHeader else none) () (bytes.set i b) = .error e := by
  obtain ⟨bytes, hseal, hopen, hchange⟩ := (envelope_codec plainText
    (fun text => if text = plainText sampleHeader then some sampleHeader else none) sampleAead_ideal).2.2.2.1
      () sampleHeader sampleIv [1, 2, 3] (if_pos rfl) (by decide +kernel) rfl rfl
  have hlength : (sealEnvelope sampleAead plainText () sampleHeader [1, 2, 3] sampleIv).toOption.map List.length =
      some 73 := by decide +kernel
  rw [hseal] at hlength
  exact ⟨bytes, Option.some.inj hlength, hseal, hopen, hchange⟩

end Container

end EasyDocket
