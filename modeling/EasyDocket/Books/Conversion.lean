import EasyDocket.JsString
import Mathlib.Algebra.Order.Round
import Mathlib.Data.Rat.Floor
import Mathlib.Tactic.Common

/-!
# Converting between currencies

Amounts are integers in the minor unit of a currency, and rates are exact.  A conversion rounds once, at the end.
-/

namespace EasyDocket

namespace Books

/-- What the code takes from the language: `toUpperCase` and `localeCompare`. -/
structure Text where
  toUpperCase : JsString → JsString
  localeCompare : JsString → JsString → ℤ

/-- The text of samples: letters are ASCII, and compared by their codes. -/
def ascii : Text where
  toUpperCase s := s.map (fun c => if unit 'a' ≤ c ∧ c ≤ unit 'z' then c - 32 else c)
  localeCompare a b := if a < b then -1 else if b < a then 1 else 0

/-- An amount in minor units. -/
abbrev Minor := ℤ

/-- The error that is thrown for a rate that is not positive. -/
structure RateError where
  rate : ℚ
  deriving DecidableEq

section Conversion

variable (T : Text)

/-- Currencies whose minor unit is not 1/100. -/
def EXPONENTS : List (JsString × ℤ) :=
  [(js "JPY", 0), (js "KRW", 0), (js "VND", 0), (js "CLP", 0), (js "ISK", 0), (js "BHD", 3), (js "KWD", 3), (js "OMR", 3),
    (js "TND", 3), (js "JOD", 3)]

def minorUnitExponent (currency : JsString) : ℤ := (EXPONENTS.lookup (T.toUpperCase currency)).getD 2

/-- Whether two currency codes mean the same currency. -/
def sameCurrency (a b : JsString) : Bool := T.toUpperCase a = T.toUpperCase b

/-- `Math.round`. -/
def mathRound (x : ℚ) : ℤ := ⌊x + 1 / 2⌋

/-- Decimal places kept before the final rounding. -/
def PRECISION : ℚ := 10 ^ 9

def roundHalfAwayFromZero (value : ℚ) : ℤ :=
  let snapped := mathRound (value * PRECISION) / PRECISION
  if snapped < 0 then -mathRound (-snapped) else mathRound snapped

/-- Minor units of `dest` that one minor unit of `src` makes at a rate. -/
def factor (rate : ℚ) (src dest : JsString) : ℚ := rate * 10 ^ (minorUnitExponent T dest - minorUnitExponent T src)

/-- `convert`: minor units of `src` into minor units of `dest`. -/
def convert (amount : Minor) (rate : ℚ) (src dest : JsString) : Except RateError Minor :=
  if rate ≤ 0 then .error ⟨rate⟩
  else if sameCurrency T src dest then .ok amount
  else .ok (roundHalfAwayFromZero (amount * factor T rate src dest))

/-- What a figure is worth in a currency: the parts of a transaction that `inReporting` reads. -/
def inReporting (amount : Minor) (currency : JsString) (rate : Option ℚ) (reporting : JsString) :
    Except RateError (Option Minor) :=
  if sameCurrency T currency reporting then .ok (some amount)
  else
    match rate with
    | none => .ok none
    | some rate => (convert T amount rate currency reporting).map some

/-- What a figure is worth in a currency, at a rate that is positive. -/
def worth (amount : Minor) (currency : JsString) (rate : Option ℚ) (reporting : JsString) : Option Minor :=
  if sameCurrency T currency reporting then some amount
  else rate.map (fun rate => roundHalfAwayFromZero (amount * factor T rate currency reporting))

variable {T} {a b c : JsString} {amount : Minor} {rate : ℚ}

theorem sameCurrency_iff : sameCurrency T a b = true ↔ T.toUpperCase a = T.toUpperCase b := decide_eq_true_iff

@[simp] theorem sameCurrency_self (a : JsString) : sameCurrency T a a = true := sameCurrency_iff.mpr rfl

theorem convert_of_pos (hrate : 0 < rate) (h : sameCurrency T a b = false) :
    convert T amount rate a b = .ok (roundHalfAwayFromZero (amount * factor T rate a b)) := by
  unfold convert
  rw [if_neg (not_le.mpr hrate), h]
  rfl

/-- Conversions at positive rates do not fail. -/
theorem inReporting_eq {rate : Option ℚ} (h : ∀ r, rate = some r → 0 < r) :
    inReporting T amount a rate b = .ok (worth T amount a rate b) := by
  unfold inReporting worth
  by_cases hs : sameCurrency T a b = true
  · rw [if_pos hs, if_pos hs]
  · rw [if_neg hs, if_neg hs]
    cases rate with
    | none => rfl
    | some r =>
      simp only [convert_of_pos (h r rfl) (Bool.eq_false_iff.mpr hs)]
      rfl

/-- Whatever converts without failing is what it is worth. -/
theorem worth_of_inReporting {rate : Option ℚ} {x : Option Minor} (h : inReporting T amount a rate b = .ok x) :
    x = worth T amount a rate b := by
  unfold inReporting at h
  unfold worth
  split_ifs at h ⊢
  · exact (Except.ok.inj h).symm
  · cases rate with
    | none => exact (Except.ok.inj h).symm
    | some r =>
      simp only [convert] at h
      split_ifs at h
      · cases h
      · exact (Except.ok.inj h).symm

end Conversion

end Books

end EasyDocket
