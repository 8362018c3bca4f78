import EasyDocket.JsString
import EasyDocket.Lib.Numeral
import Mathlib.Data.Int.Log
import Mathlib.Data.Rat.Floor
import Mathlib.Algebra.Order.Ring.Rat
import Mathlib.Tactic.Linarith

/-!
# JavaScript numbers

Numbers as they are read from texts and written to texts, by `Number`, `parseInt` and `String`.  Their arithmetic is
exact: nothing is rounded, and there is one zero.
-/

namespace EasyDocket

open Numeral

/-- A number, or none. -/
inductive JsNumber
  | nan
  | infinity (negative : Bool)
  | exact (x : ℚ)
  deriving DecidableEq

namespace JsNumber

def ofNat (n : ℕ) : JsNumber := .exact n

/-! ## Arithmetic -/

/-- `a < b`. -/
def lt : JsNumber → JsNumber → Bool
  | .exact x, .exact y => x < y
  | .infinity m, .exact _ => m
  | .exact _, .infinity m => !m
  | .infinity m, .infinity n => m && !n
  | _, _ => false

/-- `a === b`. -/
def strictEq : JsNumber → JsNumber → Bool
  | .nan, _ => false
  | a, b => a = b

/-- `a - b`. -/
def sub : JsNumber → JsNumber → JsNumber
  | .exact x, .exact y => .exact (x - y)
  | .infinity m, .exact _ => .infinity m
  | .exact _, .infinity m => .infinity (!m)
  | .infinity m, .infinity n => if m = n then .nan else .infinity m
  | _, _ => .nan

/-- `a + 1`. -/
def succ : JsNumber → JsNumber
  | .exact x => .exact (x + 1)
  | a => a

/-- `Math.max(a, b)`. -/
def max : JsNumber → JsNumber → JsNumber
  | .nan, _ => .nan
  | _, .nan => .nan
  | a, b => if a.lt b then b else a

@[simp] theorem lt_ofNat (n m : ℕ) : (ofNat n).lt (ofNat m) = decide (n < m) := by
  simp [ofNat, lt]

@[simp] theorem strictEq_ofNat (n m : ℕ) : (ofNat n).strictEq (ofNat m) = decide (n = m) := by
  simp [ofNat, strictEq]

@[simp] theorem succ_ofNat (n : ℕ) : (ofNat n).succ = ofNat (n + 1) := by
  simp [ofNat, succ]

@[simp] theorem max_ofNat (n m : ℕ) : (ofNat n).max (ofNat m) = ofNat (Nat.max n m) := by
  show (if (ofNat n).lt (ofNat m) then ofNat m else ofNat n) = _
  rw [lt_ofNat]
  by_cases h : n < m
  · rw [decide_eq_true h, if_pos rfl]
    exact congrArg ofNat (Nat.max_eq_right h.le).symm
  · rw [decide_eq_false h, if_neg Bool.false_ne_true]
    exact congrArg ofNat (Nat.max_eq_left (not_lt.mp h)).symm

/-- How far one number is ahead of another. -/
theorem lt_sub_ofNat (k n m : ℕ) : (ofNat k).lt ((ofNat n).sub (ofNat m)) = decide (k < n - m) := by
  have h : ((k : ℚ) < n - m) ↔ k < n - m := by
    rw [lt_sub_iff_add_lt, ← Nat.cast_add, Nat.cast_lt]
    omega
  simp only [ofNat, sub, lt, h]

/-! ## Digits -/

/-- A digit, of `0` to `9` and `a` to `z`. -/
def digitText (d : ℕ) : CodeUnit := Fin.ofNat 65536 (if d < 10 then d + 48 else d + 87)

/-- The value of a digit, in upper or lower case. -/
def digitOf (c : CodeUnit) : Option ℕ :=
  if 48 ≤ c.val ∧ c.val ≤ 57 then some (c.val - 48)
  else if 97 ≤ c.val ∧ c.val ≤ 122 then some (c.val - 87)
  else if 65 ≤ c.val ∧ c.val ≤ 90 then some (c.val - 55)
  else none

def isDigitIn (radix : ℕ) (c : CodeUnit) : Bool :=
  match digitOf c with
  | some d => d < radix
  | none => false

/-- The number that digits stand for. -/
def valueIn (radix : ℕ) (s : JsString) : ℕ := value radix (s.map (fun c => (digitOf c).getD 0))

/-- The number that a text consisting of digits stands for. -/
def digitsIn (radix : ℕ) (s : JsString) : Option ℕ :=
  if s ≠ [] ∧ s.all (isDigitIn radix) then some (valueIn radix s) else none

/-! ## Reading numbers -/

/-- White space and line terminators. -/
def isStrWhiteSpace (c : CodeUnit) : Bool :=
  [9, 10, 11, 12, 13, 32, 160, 5760, 8232, 8233, 8239, 8287, 12288, 65279].contains c.val ||
    (8192 ≤ c.val && c.val ≤ 8202)

def trimStart (s : JsString) : JsString := s.dropWhile isStrWhiteSpace

def trim (s : JsString) : JsString := (trimStart (trimStart s).reverse).reverse

/-- A sign, and what follows it. -/
def splitSign (s : JsString) : Bool × JsString :=
  match s with
  | c :: rest => if c = unit '-' then (true, rest) else if c = unit '+' then (false, rest) else (false, s)
  | [] => (false, [])

def isExponentMark (c : CodeUnit) : Bool := c = unit 'e' || c = unit 'E'

/-- The exponent of a literal, from the mark on. -/
def exponentOf (s : JsString) : Option ℤ :=
  match s with
  | [] => some 0
  | _ :: rest =>
    match digitsIn 10 (splitSign rest).2 with
    | some n => some (if (splitSign rest).1 then -n else n)
    | none => none

/-- An unsigned decimal literal. -/
def unsignedDecimal (s : JsString) : Option ℚ :=
  let mantissa := s.takeWhile (fun c => !isExponentMark c)
  let whole := mantissa.takeWhile (fun c => c ≠ unit '.')
  let fraction := (mantissa.dropWhile (fun c => c ≠ unit '.')).drop 1
  match exponentOf (s.dropWhile (fun c => !isExponentMark c)), digitsIn 10 (whole ++ fraction) with
  | some e, some n => some (n * 10 ^ (e - fraction.length))
  | _, _ => none

/-- A decimal literal, or `Infinity`. -/
def decimalLiteral (s : JsString) : JsNumber :=
  if (splitSign s).2 = js "Infinity" then .infinity (splitSign s).1
  else
    match unsignedDecimal (splitSign s).2 with
    | some x => .exact (if (splitSign s).1 then -x else x)
    | none => .nan

/-- The radix that a prefix such as `0x` stands for. -/
def radixOf (s : JsString) : Option ℕ :=
  match s with
  | c :: d :: _ =>
    if c ≠ unit '0' then none
    else if d = unit 'x' ∨ d = unit 'X' then some 16
    else if d = unit 'o' ∨ d = unit 'O' then some 8
    else if d = unit 'b' ∨ d = unit 'B' then some 2
    else none
  | _ => none

/-- `Number(s)`. -/
def number (s : JsString) : JsNumber :=
  let text := trim s
  if text = [] then .exact 0
  else
    match radixOf text with
    | some radix => ((digitsIn radix (text.drop 2)).map ofNat).getD .nan
    | none => decimalLiteral text

/-- `parseInt(s, 16)`: what follows the first digits is ignored. -/
def parseHex (s : JsString) : JsNumber :=
  let body := (splitSign (trimStart s)).2
  let rest := if radixOf body = some 16 then body.drop 2 else body
  match digitsIn 16 (rest.takeWhile (isDigitIn 16)) with
  | some n => .exact (if (splitSign (trimStart s)).1 then -n else n)
  | none => .nan

/-! ## Writing numbers -/

/-- The digits of a fraction. -/
def fractionDigits (radix : ℕ) : ℕ → ℚ → List ℕ
  | 0, _ => []
  | fuel + 1, x => if x = 0 then [] else ⌊x * radix⌋₊ :: fractionDigits radix fuel (Int.fract (x * radix))

/-- A number that is not negative, written out. -/
def positional (radix : ℕ) (x : ℚ) : JsString :=
  (numeral radix ⌊x⌋₊).map digitText ++
    if Int.fract x = 0 then []
    else unit '.' :: (fractionDigits radix (x.den.log2 + 1) (Int.fract x)).map digitText

/-- A number that is not negative; decimals that are very large or very small have an exponent. -/
def magnitude (radix : ℕ) (x : ℚ) : JsString :=
  if radix = 10 ∧ (10 ^ 21 ≤ x ∨ 0 < x ∧ x < 1 / 10 ^ 6) then
    positional 10 (x / 10 ^ Int.log 10 x) ++ unit 'e' :: (if Int.log 10 x < 0 then unit '-' else unit '+') ::
      (numeral 10 (Int.log 10 x).natAbs).map digitText
  else positional radix x

/-- `x.toString(radix)`. -/
def toText (radix : ℕ) : JsNumber → JsString
  | .nan => js "NaN"
  | .infinity m => if m then js "-Infinity" else js "Infinity"
  | .exact x => if x < 0 then unit '-' :: magnitude radix (-x) else magnitude radix x

example : number (js " 0x1F ") = .exact 31 ∧ number (js "-1.5e2") = .exact (-150) ∧ number (js "1-") = .nan := by
  decide +kernel

example : toText 10 (.exact (3 / 4)) = js "0.75" ∧ parseHex (js "0fg") = .exact 15 := by decide +kernel

/-! ## Texts of digits -/

/-- `c` is one of the first `b` of `0` to `9` and `a` to `z`. -/
def isLowerDigit (b : ℕ) (c : CodeUnit) : Bool := (List.range b).any (fun d => digitText d = c)

variable {b n : ℕ} {s : JsString} {c : CodeUnit}

theorem isLowerDigit_iff : isLowerDigit b c = true ↔ ∃ d < b, digitText d = c := by
  simp [isLowerDigit]

theorem digitOf_digitText : ∀ d < 36, digitOf (digitText d) = some d := by decide +kernel

theorem digitText_lt_iff : ∀ d < 36, ∀ e < 36, digitText d < digitText e ↔ d < e := by decide +kernel

/-- A text of digits is one of numbers below the base. -/
theorem exists_digits (h : ∀ c ∈ s, isLowerDigit b c = true) : ∃ ds : List ℕ, (∀ d ∈ ds, d < b) ∧ s = ds.map digitText := by
  induction s with
  | nil => exact ⟨[], by simp, rfl⟩
  | cons c s ih =>
    rw [List.forall_mem_cons] at h
    obtain ⟨d, hd, hc⟩ := isLowerDigit_iff.mp h.1
    obtain ⟨ds, hds, hs⟩ := ih h.2
    exact ⟨d :: ds, List.forall_mem_cons.mpr ⟨hd, hds⟩, by rw [List.map_cons, hc, ← hs]⟩

theorem isLowerDigit_of_digits {ds : List ℕ} (h : ∀ d ∈ ds, d < b) : ∀ c ∈ ds.map digitText, isLowerDigit b c = true := by
  intro c hc
  obtain ⟨d, hd, rfl⟩ := List.mem_map.mp hc
  exact isLowerDigit_iff.mpr ⟨d, h d hd, rfl⟩

theorem valueIn_digits (hb : b ≤ 36) {ds : List ℕ} (h : ∀ d ∈ ds, d < b) : valueIn b (ds.map digitText) = value b ds := by
  unfold valueIn
  rw [List.map_map]
  refine congrArg (value b) ?_
  conv_rhs => rw [← List.map_id ds]
  refine List.map_congr_left (fun d hd => ?_)
  rw [Function.comp_apply, digitOf_digitText d (lt_of_lt_of_le (h d hd) hb)]
  rfl

theorem isDigitIn_of_lower (hb : b ≤ 36) (h : isLowerDigit b c = true) : isDigitIn b c = true := by
  obtain ⟨d, hd, rfl⟩ := isLowerDigit_iff.mp h
  unfold isDigitIn
  rw [digitOf_digitText d (by omega)]
  exact decide_eq_true hd

theorem digitsIn_of_lower (hb : b ≤ 36) (hs : s ≠ []) (h : ∀ c ∈ s, isLowerDigit b c = true) :
    digitsIn b s = some (valueIn b s) :=
  if_pos ⟨hs, List.all_eq_true.mpr (fun c hc => isDigitIn_of_lower hb (h c hc))⟩

/-- A digit is none of the marks that numbers have besides. -/
theorem plain_of_lower : ∀ d < 16, isStrWhiteSpace (digitText d) = false ∧ digitText d ≠ unit '-' ∧
    digitText d ≠ unit '+' ∧ digitText d ≠ unit '.' ∧ digitText d ≠ unit 'x' ∧ digitText d ≠ unit 'X' ∧
    digitText d ≠ unit 'o' ∧ digitText d ≠ unit 'O' ∧ digitText d ≠ unit 'I' := by decide +kernel

theorem plain_of_decimal : ∀ d < 10, digitText d ≠ unit 'b' ∧ digitText d ≠ unit 'B' ∧
    isExponentMark (digitText d) = false := by decide +kernel

theorem trimStart_of_forall (h : ∀ c ∈ s, isStrWhiteSpace c = false) : trimStart s = s := by
  cases s with
  | nil => rfl
  | cons c s => exact List.dropWhile_cons_of_neg (by rw [h c List.mem_cons_self]; exact Bool.false_ne_true)

/-- A text without white space is not trimmed. -/
theorem trim_of_forall (h : ∀ c ∈ s, isStrWhiteSpace c = false) : trim s = s := by
  unfold trim
  rw [trimStart_of_forall h, trimStart_of_forall (fun c hc => h c (List.mem_reverse.mp hc)), List.reverse_reverse]

theorem space_of_lower (hb : b ≤ 16) (h : ∀ c ∈ s, isLowerDigit b c = true) : ∀ c ∈ s, isStrWhiteSpace c = false := by
  intro c hc
  obtain ⟨d, hd, rfl⟩ := isLowerDigit_iff.mp (h c hc)
  exact (plain_of_lower d (by omega)).1

theorem trimStart_of_lower (hb : b ≤ 16) (h : ∀ c ∈ s, isLowerDigit b c = true) : trimStart s = s :=
  trimStart_of_forall (space_of_lower hb h)

theorem trim_of_lower (hb : b ≤ 16) (h : ∀ c ∈ s, isLowerDigit b c = true) : trim s = s :=
  trim_of_forall (space_of_lower hb h)

theorem splitSign_of_lower (hb : b ≤ 16) (h : ∀ c ∈ s, isLowerDigit b c = true) : splitSign s = (false, s) := by
  cases s with
  | nil => rfl
  | cons c s =>
    obtain ⟨d, hd, rfl⟩ := isLowerDigit_iff.mp (h c List.mem_cons_self)
    obtain ⟨-, hminus, hplus, -⟩ := plain_of_lower d (by omega)
    unfold splitSign
    simp only [if_neg hminus, if_neg hplus]

/-- Digits have no prefix; of hexadecimal ones, none that stands for base 16. -/
theorem radixOf_of_lower (h : ∀ c ∈ s, isLowerDigit 16 c = true) : radixOf s ≠ some 16 := by
  match s, h with
  | [], _ => exact fun h => nomatch h
  | [_], _ => exact fun h => nomatch h
  | c :: x :: rest, h =>
    obtain ⟨d, hd, rfl⟩ := isLowerDigit_iff.mp (h x (by simp))
    obtain ⟨-, -, -, -, hx, hX, -⟩ := plain_of_lower d hd
    unfold radixOf
    simp only [hx, hX, or_self, if_false]
    split_ifs <;> simp

theorem radixOf_of_decimal (h : ∀ c ∈ s, isLowerDigit 10 c = true) : radixOf s = none := by
  match s, h with
  | [], _ => rfl
  | [_], _ => rfl
  | c :: x :: rest, h =>
    obtain ⟨d, hd, rfl⟩ := isLowerDigit_iff.mp (h x (by simp))
    obtain ⟨-, -, -, -, hx, hX, ho, hO, -⟩ := plain_of_lower d (by omega)
    obtain ⟨hb, hB, -⟩ := plain_of_decimal d hd
    unfold radixOf
    simp only [hx, hX, ho, hO, hb, hB, or_self, if_false, ite_self]

/-- `Number` of decimal digits. -/
theorem number_of_digits (hs : s ≠ []) (h : ∀ c ∈ s, isLowerDigit 10 c = true) : number s = ofNat (valueIn 10 s) := by
  have hmark : ∀ c ∈ s, isExponentMark c = false ∧ c ≠ unit '.' ∧ c ≠ unit 'I' := by
    intro c hc
    obtain ⟨d, hd, rfl⟩ := isLowerDigit_iff.mp (h c hc)
    obtain ⟨-, -, -, hdot, -, -, -, -, hI⟩ := plain_of_lower d (by omega)
    exact ⟨(plain_of_decimal d hd).2.2, hdot, hI⟩
  have hmantissa : s.takeWhile (fun c => !isExponentMark c) = s :=
    List.takeWhile_eq_self_iff.mpr (fun c hc => by rw [(hmark c hc).1]; rfl)
  have hexponent : s.dropWhile (fun c => !isExponentMark c) = [] :=
    List.dropWhile_eq_nil_iff.mpr (fun c hc => by rw [(hmark c hc).1]; rfl)
  have hwhole : s.takeWhile (fun c => c ≠ unit '.') = s :=
    List.takeWhile_eq_self_iff.mpr (fun c hc => decide_eq_true (hmark c hc).2.1)
  have hfraction : s.dropWhile (fun c => c ≠ unit '.') = [] :=
    List.dropWhile_eq_nil_iff.mpr (fun c hc => decide_eq_true (hmark c hc).2.1)
  have hunsigned : unsignedDecimal s = some (valueIn 10 s : ℚ) := by
    unfold unsignedDecimal
    simp only [hmantissa, hexponent, hwhole, hfraction, List.drop_nil, List.append_nil,
      digitsIn_of_lower (by decide : (10 : ℕ) ≤ 36) hs h, exponentOf]
    simp
  have hinfinity : s ≠ js "Infinity" := by
    rintro rfl
    exact (hmark (unit 'I') (by decide)).2.2 rfl
  unfold number decimalLiteral
  simp only [trim_of_lower (by decide : (10 : ℕ) ≤ 16) h, if_neg hs, radixOf_of_decimal h,
    splitSign_of_lower (by decide : (10 : ℕ) ≤ 16) h, if_neg hinfinity, hunsigned]
  rfl

/-- `parseInt` of hexadecimal digits. -/
theorem parseHex_of_digits (hs : s ≠ []) (h : ∀ c ∈ s, isLowerDigit 16 c = true) :
    parseHex s = ofNat (valueIn 16 s) := by
  have hall : s.takeWhile (isDigitIn 16) = s :=
    List.takeWhile_eq_self_iff.mpr (fun c hc => isDigitIn_of_lower (by decide) (h c hc))
  unfold parseHex
  simp only [trimStart_of_lower (le_refl 16) h, splitSign_of_lower (le_refl 16) h, if_neg (radixOf_of_lower h), hall,
    digitsIn_of_lower (by decide : (16 : ℕ) ≤ 36) hs h]
  simp [ofNat]

/-- `String` of a natural number that needs no exponent. -/
theorem toText_ofNat {radix : ℕ} (h : radix = 10 → n < 10 ^ 21) :
    toText radix (ofNat n) = (numeral radix n).map digitText := by
  have hfloor : ⌊(n : ℚ)⌋₊ = n := Nat.floor_natCast n
  have hfract : Int.fract (n : ℚ) = 0 := Int.fract_natCast n
  have hplain : ¬ (radix = 10 ∧ ((10 : ℚ) ^ 21 ≤ n ∨ 0 < (n : ℚ) ∧ (n : ℚ) < 1 / 10 ^ 6)) := by
    rintro ⟨hradix, hlarge | ⟨hpos, hsmall⟩⟩
    · have hlt := h hradix
      have hle : 10 ^ 21 ≤ n := by exact_mod_cast hlarge
      omega
    · have hone : (1 : ℚ) ≤ n := by exact_mod_cast hpos
      linarith
  show (if (n : ℚ) < 0 then unit '-' :: magnitude radix (-n) else magnitude radix n) = _
  rw [if_neg (not_lt.mpr (Nat.cast_nonneg n))]
  unfold magnitude
  rw [if_neg hplain]
  unfold positional
  rw [hfloor, if_pos hfract, List.append_nil]

end JsNumber

end EasyDocket
