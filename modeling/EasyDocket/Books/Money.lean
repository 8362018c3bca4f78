import EasyDocket.Books.Conversion
import EasyDocket.Books.Dates
import EasyDocket.JsNumberText

/-!
# Money

Amounts as they are entered and shown.  `parseAmount` reads a decimal in minor units, cut off after the last one, and
refuses what is out of range; what `formatAmount` shows is read back (`amounts_lawful`).
-/

namespace EasyDocket

namespace Books

open Numeral JsNumber

/-! ## Entering amounts -/

def MAX_SAFE_INTEGER : ℕ := 2 ^ 53 - 1

/-- A number of which `Number.isSafeInteger` holds; what `Number` would round is out of range before and after. -/
def safeInteger : JsNumber → Option ℤ
  | .exact x => if x.den = 1 ∧ x.num.natAbs ≤ MAX_SAFE_INTEGER then some x.num else none
  | _ => none

/-- `/^-?\d*\.?\d*$/`, for texts of a length. -/
def amountPattern (length : ℕ) : Pattern CodeUnit :=
  [⟨(· = dash), 0, 1⟩, ⟨isDigit, 0, length⟩, ⟨(· = unit '.'), 0, 1⟩, ⟨isDigit, 0, length⟩]

/-- An amount without white space, and with a point for a comma. -/
def cleaned (input : JsString) : JsString :=
  replaceFirst ((trim input).filter (fun c => !isStrWhiteSpace c)) (unit ',') (unit '.')

/-- `s.padEnd(w, c)`. -/
def padEnd (w : ℕ) (pad : CodeUnit) (s : JsString) : JsString := s ++ List.replicate (w - s.length) pad

section Money

variable (T : Text)

/-- Digits after the point. -/
def decimals (currency : JsString) : ℕ := (minorUnitExponent T currency).toNat

/-- `parseAmount`: user input into minor units. -/
def parseAmount (input currency : JsString) : Except JsString Minor :=
  let exponent := decimals T currency
  let text := cleaned input
  if text = [] ∨ (amountPattern text.length).isMatch text = false then
    .error (js "\"" ++ input ++ js "\" is not a valid amount")
  else
    let negative := text.head? = some dash
    let parts := (text.erase dash).splitOn (unit '.')
    let whole := parts.getD 0 []
    let fraction := parts.getD 1 []
    -- Padded or cut off to the precision of the currency, and not rounded.
    let scaled := (if whole = [] then js "0" else whole) ++ (padEnd exponent (unit '0') fraction).take exponent
    match safeInteger (number scaled) with
    | none => .error (js "\"" ++ input ++ js "\" is out of range")
    | some value => .ok (if negative then -value else value)

/-- `formatAmount`: minor units as a plain decimal. -/
def formatAmount (amount : Minor) (currency : JsString) : JsString :=
  let exponent := decimals T currency
  let digits := padStart (exponent + 1) (unit '0') (toText 10 (.exact amount.natAbs))
  let whole := digits.take (digits.length - exponent)
  let fraction := if exponent = 0 then [] else unit '.' :: digits.drop (digits.length - exponent)
  (if amount < 0 then js "-" else []) ++ (if whole = [] then js "0" else whole) ++ fraction

end Money

example : parseAmount ascii (js " -1 234,567 ") (js "EUR") = .ok (-123456) ∧ parseAmount ascii (js ".5") (js "BHD") = .ok 500 ∧
    formatAmount ascii (-5) (js "EUR") = js "-0.05" := by
  decide +kernel

/-! ## Decimals -/

/-- A decimal as it is written: digits before and after a point, either of which may be missing. -/
structure Decimal where
  negative : Bool
  whole : List ℕ
  point : Bool
  fraction : List ℕ
  whole_lt : ∀ d ∈ whole, d < 10
  fraction_lt : ∀ d ∈ fraction, d < 10
  none_after : point = false → fraction = []

namespace Decimal

variable {d : Decimal} {e : ℕ}

/-- The decimal without its sign. -/
def figures (d : Decimal) : JsString :=
  d.whole.map digitText ++ if d.point then unit '.' :: d.fraction.map digitText else []

def text (d : Decimal) : JsString := (if d.negative then [dash] else []) ++ d.figures

/-- The number that is written. -/
def magnitude (d : Decimal) : ℚ := value 10 d.whole + value 10 d.fraction / 10 ^ d.fraction.length

def number (d : Decimal) : ℚ := if d.negative then -d.magnitude else d.magnitude

/-- The minor units of the decimal, cut off, without its sign. -/
def units (d : Decimal) (e : ℕ) : ℕ := value 10 (d.whole ++ (d.fraction ++ List.replicate (e - d.fraction.length) 0).take e)

theorem units_bounds (d : Decimal) (e : ℕ) :
    (d.units e : ℚ) ≤ d.magnitude * 10 ^ e ∧ d.magnitude * 10 ^ e < d.units e + 1 := by
  have hpos : ∀ k : ℕ, (0 : ℚ) < 10 ^ k := fun k => pow_pos (by norm_num) k
  unfold units magnitude
  by_cases hle : d.fraction.length ≤ e
  · -- nothing is cut off
    obtain ⟨k, rfl⟩ := Nat.exists_eq_add_of_le hle
    have htake : (d.fraction ++ List.replicate (d.fraction.length + k - d.fraction.length) 0).take (d.fraction.length + k) =
        d.fraction ++ List.replicate k 0 := by
      rw [Nat.add_sub_cancel_left]
      exact List.take_of_length_le (by simp)
    have hexact : ((value 10 (d.whole ++ (d.fraction ++ List.replicate k 0)) : ℕ) : ℚ) =
        (value 10 d.whole + value 10 d.fraction / 10 ^ d.fraction.length) * 10 ^ (d.fraction.length + k) := by
      rw [value_concat, value_concat, value_zeros, List.length_append, List.length_replicate]
      push_cast
      rw [add_mul, pow_add, ← mul_assoc (_ / _), div_mul_cancel₀ _ (hpos _).ne']
      ring
    rw [htake, hexact]
    exact ⟨le_rfl, lt_add_one _⟩
  · -- digits are cut off, and what they stand for is less than one
    have hlt : e ≤ d.fraction.length := (not_le.mp hle).le
    have htake : (d.fraction ++ List.replicate (e - d.fraction.length) 0).take e = d.fraction.take e := by
      rw [Nat.sub_eq_zero_of_le hlt, List.replicate_zero, List.append_nil]
    have hsplit : value 10 d.fraction =
        value 10 (d.fraction.take e) * 10 ^ (d.fraction.length - e) + value 10 (d.fraction.drop e) := by
      conv_lhs => rw [← List.take_append_drop e d.fraction]
      rw [value_concat, List.length_drop]
    have hrest : value 10 (d.fraction.drop e) < 10 ^ (d.fraction.length - e) :=
      value_lt _ _ List.length_drop (fun c hc => d.fraction_lt c (List.mem_of_mem_drop hc))
    have hpow : (10 : ℚ) ^ d.fraction.length = 10 ^ (d.fraction.length - e) * 10 ^ e := by
      rw [← pow_add, Nat.sub_add_cancel hlt]
    have hvalue : (value 10 d.whole + value 10 d.fraction / 10 ^ d.fraction.length : ℚ) * 10 ^ e =
        value 10 d.whole * 10 ^ e + value 10 (d.fraction.take e) +
          value 10 (d.fraction.drop e) / 10 ^ (d.fraction.length - e) := by
      have hne := (hpos (d.fraction.length - e)).ne'
      have hne' := (hpos e).ne'
      rw [hsplit, hpow]
      push_cast
      field_simp
      ring
    have hfraction : (0 : ℚ) ≤ value 10 (d.fraction.drop e) / 10 ^ (d.fraction.length - e) ∧
        (value 10 (d.fraction.drop e) / 10 ^ (d.fraction.length - e) : ℚ) < 1 := by
      refine ⟨div_nonneg (Nat.cast_nonneg _) (hpos _).le, (div_lt_one (hpos _)).mpr ?_⟩
      exact_mod_cast hrest
    have hunits : ((value 10 (d.whole ++ d.fraction.take e) : ℕ) : ℚ) =
        value 10 d.whole * 10 ^ e + value 10 (d.fraction.take e) := by
      rw [value_concat, List.length_take, Nat.min_eq_left hlt]
      push_cast
      ring
    rw [htake, hvalue, hunits]
    constructor <;> linarith

end Decimal

/-- A number cut off at its point. -/
def truncate (x : ℚ) : ℤ := if x < 0 then -⌊-x⌋ else ⌊x⌋

theorem Decimal.truncate_number (d : Decimal) (e : ℕ) :
    truncate (d.number * 10 ^ e) = if d.negative then -(d.units e : ℤ) else d.units e := by
  obtain ⟨hle, hlt⟩ := d.units_bounds e
  have hnonneg : 0 ≤ d.magnitude * 10 ^ e := (Nat.cast_nonneg _).trans hle
  have hfloor : ⌊d.magnitude * 10 ^ e⌋ = d.units e := Int.floor_eq_iff.mpr ⟨by exact_mod_cast hle, by exact_mod_cast hlt⟩
  unfold truncate Decimal.number
  cases d.negative with
  | false =>
    rw [if_neg Bool.false_ne_true, if_neg Bool.false_ne_true, if_neg (not_lt.mpr hnonneg), hfloor]
  | true =>
    rw [if_pos rfl, if_pos rfl, neg_mul, neg_neg, hfloor]
    rcases hnonneg.eq_or_lt with hzero | hpos
    · rw [← hzero, neg_zero, if_neg (lt_irrefl 0), Int.floor_zero]
      rw [← hzero, Int.floor_zero] at hfloor
      rw [← hfloor, neg_zero]
    · rw [if_pos (neg_lt_zero.mpr hpos)]

/-! ## What is accepted -/

theorem isDigit_digitText {d : ℕ} (h : d < 10) : isDigit (digitText d) = true := by
  have hall : ∀ d < 10, isDigit (digitText d) = true := by decide
  exact hall d h

theorem exists_digits_of_isDigit {s : JsString} (h : ∀ c ∈ s, isDigit c = true) :
    ∃ ds : List ℕ, (∀ d ∈ ds, d < 10) ∧ s = ds.map digitText := by
  refine exists_digits (fun c hc => isLowerDigit_iff.mpr ?_)
  have hdigit := h c hc
  have hlow : (unit '0').val = 48 := rfl
  have hhigh : (unit '9').val = 57 := rfl
  unfold isDigit at hdigit
  simp only [Bool.and_eq_true, decide_eq_true_eq, Fin.le_def] at hdigit
  refine ⟨c.val - 48, by omega, Fin.ext ?_⟩
  unfold digitText
  rw [Fin.val_ofNat, if_pos (by omega), Nat.mod_eq_of_lt (by omega)]
  omega

theorem isDigit_of_digits {ds : List ℕ} (h : ∀ d ∈ ds, d < 10) : ∀ c ∈ ds.map digitText, isDigit c = true := by
  intro c hc
  obtain ⟨d, hd, rfl⟩ := List.mem_map.mp hc
  exact isDigit_digitText (h d hd)

/-- An optional character. -/
theorem optional_iff {c : CodeUnit} {s : JsString} :
    (0 ≤ s.length ∧ s.length ≤ 1 ∧ ∀ x ∈ s, decide (x = c) = true) ↔ s = [] ∨ s = [c] := by
  constructor
  · rintro ⟨-, hle, hall⟩
    match s, hle, hall with
    | [], _, _ => exact Or.inl rfl
    | [x], _, hall => exact Or.inr (by rw [of_decide_eq_true (hall x List.mem_cons_self)])
  · rintro (rfl | rfl)
    · exact ⟨le_rfl, Nat.zero_le _, fun x hx => absurd hx List.not_mem_nil⟩
    · exact ⟨Nat.zero_le _, le_rfl, fun x hx => decide_eq_true (List.mem_singleton.mp hx)⟩

/-- The pattern accepts decimals. -/
theorem amountPattern_iff {s : JsString} : (amountPattern s.length).isMatch s = true ↔ ∃ d : Decimal, d.text = s := by
  unfold amountPattern
  simp only [Pattern.isMatch_cons, Pattern.isMatch_nil]
  constructor
  · rintro ⟨sign, s₁, hs, h0, h1, hsign, whole, s₂, rfl, -, -, hwhole, mark, s₃, rfl, h2, h3, hmark, fraction, s₄, rfl, -, -,
      hfraction, rfl⟩
    obtain ⟨ws, hws, rfl⟩ := exists_digits_of_isDigit hwhole
    obtain ⟨fs, hfs, rfl⟩ := exists_digits_of_isDigit hfraction
    have hsign' := optional_iff.mp ⟨h0, h1, hsign⟩
    rw [hs]
    rcases optional_iff.mp ⟨h2, h3, hmark⟩ with rfl | rfl
    · refine ⟨⟨decide (sign = [dash]), ws ++ fs, false, [], ?_, by simp, fun _ => rfl⟩, ?_⟩
      · intro d hd
        exact (List.mem_append.mp hd).elim (hws d) (hfs d)
      · rcases hsign' with rfl | rfl <;> simp [Decimal.text, Decimal.figures]
    · refine ⟨⟨decide (sign = [dash]), ws, true, fs, hws, hfs, fun h => nomatch h⟩, ?_⟩
      rcases hsign' with rfl | rfl <;> simp [Decimal.text, Decimal.figures]
  · rintro ⟨d, rfl⟩
    have hlen : d.text.length = (if d.negative then [dash] else []).length + (d.whole.length +
        (if d.point then unit '.' :: d.fraction.map digitText else []).length) := by
      unfold Decimal.text Decimal.figures
      simp only [List.length_append, List.length_map]
    have hsign : (if d.negative then [dash] else []) = [] ∨ (if d.negative then [dash] else []) = [dash] := by
      cases d.negative <;> simp
    obtain ⟨h0, h1, h2⟩ := optional_iff.mpr hsign
    refine ⟨_, _, rfl, h0, h1, h2, d.whole.map digitText, _, rfl, Nat.zero_le _, ?_, isDigit_of_digits d.whole_lt, ?_⟩
    · rw [List.length_map]
      omega
    · cases hpoint : d.point with
      | false =>
        rw [if_neg Bool.false_ne_true]
        refine ⟨[], [], rfl, Nat.zero_le _, Nat.zero_le _, by simp, [], [], rfl, Nat.zero_le _, Nat.zero_le _, by simp, rfl⟩
      | true =>
        rw [hpoint, if_pos rfl, List.length_cons, List.length_map] at hlen
        rw [if_pos rfl]
        refine ⟨[unit '.'], _, rfl, Nat.zero_le _, le_rfl, by simp, d.fraction.map digitText, [], by simp, Nat.zero_le _, ?_,
          isDigit_of_digits d.fraction_lt, rfl⟩
        rw [List.length_map]
        omega

/-! ## What is read -/

section Reading

variable {T : Text} {input currency : JsString} {d : Decimal}

theorem Decimal.figures_notMem_dash (d : Decimal) : dash ∉ d.figures := by
  have hdigits : ∀ ds : List ℕ, (∀ x ∈ ds, x < 10) → dash ∉ ds.map digitText := by
    intro ds hds hin
    have hdash : isDigit dash = false := by decide
    rw [isDigit_of_digits hds dash hin] at hdash
    cases hdash
  unfold Decimal.figures
  intro hin
  rcases List.mem_append.mp hin with hin | hin
  · exact hdigits _ d.whole_lt hin
  · split at hin
    · rcases List.mem_cons.mp hin with h | hin
      · exact absurd h (by decide)
      · exact hdigits _ d.fraction_lt hin
    · exact absurd hin List.not_mem_nil

/-- The sign is told by the first character, and taken away. -/
theorem Decimal.text_sign (d : Decimal) : (d.text.head? = some dash ↔ d.negative = true) ∧ d.text.erase dash = d.figures := by
  have hdash := d.figures_notMem_dash
  unfold Decimal.text
  cases d.negative with
  | true => exact ⟨iff_of_true rfl rfl, by simp⟩
  | false =>
    refine ⟨iff_of_false (fun hhead => hdash (List.mem_of_mem_head? hhead)) Bool.false_ne_true, ?_⟩
    exact List.erase_of_not_mem hdash

/-- The figures are split at the point. -/
theorem Decimal.figures_split (d : Decimal) : (d.figures.splitOn (unit '.')).getD 0 [] = d.whole.map digitText ∧
    (d.figures.splitOn (unit '.')).getD 1 [] = d.fraction.map digitText := by
  have hpoint : ∀ ds : List ℕ, (∀ x ∈ ds, x < 10) → unit '.' ∉ ds.map digitText := by
    intro ds hds hin
    have hmark : isDigit (unit '.') = false := by decide
    rw [isDigit_of_digits hds _ hin] at hmark
    cases hmark
  unfold Decimal.figures
  cases h : d.point with
  | false =>
    rw [if_neg Bool.false_ne_true, List.append_nil, List.splitOn_eq_singleton (hpoint _ d.whole_lt), d.none_after h]
    exact ⟨rfl, rfl⟩
  | true =>
    rw [if_pos rfl, List.splitOn_append_cons_self, List.splitOn_eq_singleton (hpoint _ d.whole_lt),
      List.splitOn_eq_singleton (hpoint _ d.fraction_lt)]
    exact ⟨rfl, rfl⟩

theorem safeInteger_ofNat (n : ℕ) : safeInteger (ofNat n) = if n ≤ MAX_SAFE_INTEGER then some (n : ℤ) else none := by
  have hden : ((n : ℚ)).den = 1 := Rat.den_natCast n
  have hnum : ((n : ℚ)).num = n := Rat.num_natCast n
  show (if (n : ℚ).den = 1 ∧ (n : ℚ).num.natAbs ≤ MAX_SAFE_INTEGER then some (n : ℚ).num else none) = _
  rw [hden, hnum, Int.natAbs_natCast]
  exact if_congr (and_iff_right rfl) rfl rfl

/-- The digits that `Number` is given. -/
theorem number_scaled (d : Decimal) (e : ℕ) :
    JsNumber.number ((if d.whole.map digitText = [] then js "0" else d.whole.map digitText) ++
      (padEnd e (unit '0') (d.fraction.map digitText)).take e) = ofNat (d.units e) := by
  have hzero : js "0" = [0].map digitText := by decide
  have hpad : (padEnd e (unit '0') (d.fraction.map digitText)).take e =
      ((d.fraction ++ List.replicate (e - d.fraction.length) 0).take e).map digitText := by
    unfold padEnd
    rw [List.map_take, List.map_append, List.map_replicate, List.length_map]
    rfl
  have hwhole : (if d.whole.map digitText = [] then js "0" else d.whole.map digitText) =
      (if d.whole = [] then [0] else d.whole).map digitText := by
    by_cases h : d.whole = []
    · rw [if_pos (by rw [h]; rfl), if_pos h, hzero]
    · rw [if_neg (by simpa using h), if_neg h]
  have hne : (if d.whole = [] then [0] else d.whole) ≠ [] := by
    split_ifs with h
    · exact List.cons_ne_nil _ _
    · exact h
  have hlt : ∀ x ∈ (if d.whole = [] then [0] else d.whole) ++
      (d.fraction ++ List.replicate (e - d.fraction.length) 0).take e, x < 10 := by
    intro x hx
    rcases List.mem_append.mp hx with hx | hx
    · split_ifs at hx with h
      · rw [List.mem_singleton.mp hx]
        decide
      · exact d.whole_lt x hx
    · rcases List.mem_append.mp (List.mem_of_mem_take hx) with hx | hx
      · exact d.fraction_lt x hx
      · rw [List.eq_of_mem_replicate hx]
        decide
  have hvalue : value 10 ((if d.whole = [] then [0] else d.whole) ++
      (d.fraction ++ List.replicate (e - d.fraction.length) 0).take e) = d.units e := by
    unfold Decimal.units
    split_ifs with h
    · rw [h, value_concat, value_concat]
      rfl
    · rfl
  rw [hwhole, hpad, ← List.map_append, number_of_digits (by simp [hne]) (isLowerDigit_of_digits hlt),
    valueIn_digits (by decide) hlt, hvalue]

/-- A decimal is read in minor units, cut off, or refused. -/
theorem parseAmount_of_text (h : d.text = cleaned input) (hne : cleaned input ≠ []) : parseAmount T input currency =
    if (truncate (d.number * 10 ^ decimals T currency)).natAbs ≤ MAX_SAFE_INTEGER then
      .ok (truncate (d.number * 10 ^ decimals T currency))
    else .error (js "\"" ++ input ++ js "\" is out of range") := by
  have hmatch : ¬ (d.text = [] ∨ (amountPattern d.text.length).isMatch d.text = false) := by
    rw [amountPattern_iff.mpr ⟨d, rfl⟩]
    exact not_or.mpr ⟨h ▸ hne, fun hfalse => Bool.false_ne_true hfalse.symm⟩
  obtain ⟨hsign, herase⟩ := d.text_sign
  obtain ⟨hwhole, hfraction⟩ := d.figures_split
  have habs : (truncate (d.number * 10 ^ decimals T currency)).natAbs = d.units (decimals T currency) := by
    rw [d.truncate_number]
    split_ifs <;> simp
  unfold parseAmount
  simp only [← h, if_neg hmatch, hsign, herase, hwhole, hfraction, number_scaled, safeInteger_ofNat]
  rw [habs, d.truncate_number]
  by_cases hrange : d.units (decimals T currency) ≤ MAX_SAFE_INTEGER
  · rw [if_pos hrange, if_pos hrange]
  · rw [if_neg hrange, if_neg hrange]

end Reading

/-! ## What is shown -/

section Showing

variable {T : Text} {amount : Minor} {currency : JsString} {e : ℕ}

/-- The digits of an amount, padded to one before the point. -/
def shownDigits (amount : Minor) (e : ℕ) : List ℕ := padStart (e + 1) 0 (numeral 10 amount.natAbs)

theorem shownDigits_lt : ∀ d ∈ shownDigits amount e, d < 10 := by
  intro d hd
  unfold shownDigits padStart at hd
  rcases List.mem_append.mp hd with hd | hd
  · rw [List.eq_of_mem_replicate hd]
    decide
  · exact mem_numeral (by decide) d hd

theorem lt_length_shownDigits (amount : Minor) (e : ℕ) : e < (shownDigits amount e).length := by
  unfold shownDigits padStart
  rw [List.length_append, List.length_replicate]
  omega

theorem value_shownDigits (amount : Minor) (e : ℕ) : value 10 (shownDigits amount e) = amount.natAbs := by
  unfold shownDigits padStart
  rw [value_concat, value_zeros, value_numeral, Nat.zero_mul, Nat.zero_add]

/-- The decimal that an amount is shown as. -/
def shown (amount : Minor) (e : ℕ) : Decimal where
  negative := amount < 0
  whole := (shownDigits amount e).take ((shownDigits amount e).length - e)
  point := e ≠ 0
  fraction := (shownDigits amount e).drop ((shownDigits amount e).length - e)
  whole_lt := fun d hd => shownDigits_lt d (List.mem_of_mem_take hd)
  fraction_lt := fun d hd => shownDigits_lt d (List.mem_of_mem_drop hd)
  none_after := by
    intro h
    have he : e = 0 := by simpa using h
    rw [he, Nat.sub_zero, List.drop_length]

theorem length_fraction_shown (amount : Minor) (e : ℕ) : (shown amount e).fraction.length = e := by
  have hlt := lt_length_shownDigits amount e
  show ((shownDigits amount e).drop _).length = e
  rw [List.length_drop]
  omega

theorem value_shown (amount : Minor) (e : ℕ) :
    value 10 ((shown amount e).whole ++ (shown amount e).fraction) = amount.natAbs := by
  show value 10 (List.take _ _ ++ List.drop _ _) = _
  rw [List.take_append_drop, value_shownDigits]

theorem units_shown (amount : Minor) (e : ℕ) : (shown amount e).units e = amount.natAbs := by
  have hlen := length_fraction_shown amount e
  unfold Decimal.units
  rw [hlen, Nat.sub_self, List.replicate_zero, List.append_nil, List.take_of_length_le hlen.le, value_shown]

theorem truncate_shown (amount : Minor) (e : ℕ) : truncate ((shown amount e).number * 10 ^ e) = amount := by
  rw [Decimal.truncate_number, units_shown]
  show (if decide (amount < 0) = true then -(amount.natAbs : ℤ) else (amount.natAbs : ℤ)) = amount
  by_cases h : amount < 0
  · rw [if_pos (decide_eq_true h), Int.ofNat_natAbs_of_nonpos h.le, neg_neg]
  · rw [if_neg (by simpa using h)]
    exact Int.natAbs_of_nonneg (not_lt.mp h)

theorem whole_shown_ne_nil (amount : Minor) (e : ℕ) : (shown amount e).whole ≠ [] := by
  have hlt := lt_length_shownDigits amount e
  intro hnil
  have hlen : ((shownDigits amount e).take ((shownDigits amount e).length - e)).length = 0 := congrArg List.length hnil
  rw [List.length_take] at hlen
  omega

/-- An amount that is written without an exponent. -/
theorem formatAmount_eq (h : amount.natAbs < 10 ^ 21) :
    formatAmount T amount currency = (shown amount (decimals T currency)).text := by
  have hdigits : padStart (decimals T currency + 1) (unit '0') (toText 10 (.exact (amount.natAbs : ℚ))) =
      (shownDigits amount (decimals T currency)).map digitText := by
    have htext : toText 10 (.exact (amount.natAbs : ℚ)) = (numeral 10 amount.natAbs).map digitText :=
      toText_ofNat (fun _ => h)
    unfold shownDigits
    rw [htext, padStart_map]
    rfl
  have hne : (shown amount (decimals T currency)).whole.map digitText ≠ [] := by simpa using whole_shown_ne_nil amount _
  have hwhole : ((shownDigits amount (decimals T currency)).take
      ((shownDigits amount (decimals T currency)).length - decimals T currency)).map digitText =
        (shown amount (decimals T currency)).whole.map digitText := rfl
  unfold formatAmount Decimal.text Decimal.figures
  simp only [hdigits, List.length_map, ← List.map_take, ← List.map_drop, hwhole, if_neg hne]
  rw [List.append_assoc]
  refine congrArg₂ _ ?_ (congrArg _ ?_)
  · by_cases hneg : amount < 0
    · rw [if_pos hneg, show (shown amount (decimals T currency)).negative = true from decide_eq_true hneg]
      rfl
    · rw [if_neg hneg, show (shown amount (decimals T currency)).negative = false from decide_eq_false hneg]
      rfl
  · by_cases he : decimals T currency = 0
    · rw [if_pos he, show (shown amount (decimals T currency)).point = false from decide_eq_false (not_not.mpr he)]
      rfl
    · rw [if_neg he, show (shown amount (decimals T currency)).point = true from decide_eq_true he]
      rfl

theorem notMem_digits {mark : CodeUnit} (hmark : isDigit mark = false) {ds : List ℕ} (hds : ∀ x ∈ ds, x < 10) :
    mark ∉ ds.map digitText := by
  intro hc
  rw [isDigit_of_digits hds _ hc] at hmark
  cases hmark

/-- What an amount entry has: digits, a sign and a point. -/
theorem Decimal.text_marks (d : Decimal) : ∀ c ∈ d.text, isStrWhiteSpace c = false ∧ c ≠ unit ',' := by
  have hdigits : ∀ ds : List ℕ, (∀ x ∈ ds, x < 10) → ∀ c ∈ ds.map digitText, isStrWhiteSpace c = false ∧ c ≠ unit ',' :=
    fun ds hds c hc => ⟨space_of_lower (by decide) (isLowerDigit_of_digits hds) c hc,
      ne_of_mem_of_not_mem hc (notMem_digits (by decide) hds)⟩
  intro c hc
  unfold Decimal.text Decimal.figures at hc
  rcases List.mem_append.mp hc with hc | hc
  · split at hc
    · rw [List.mem_singleton.mp hc]
      exact ⟨by decide, by decide⟩
    · exact absurd hc List.not_mem_nil
  · rcases List.mem_append.mp hc with hc | hc
    · exact hdigits _ d.whole_lt c hc
    · split at hc
      · rcases List.mem_cons.mp hc with rfl | hc
        · exact ⟨by decide, by decide⟩
        · exact hdigits _ d.fraction_lt c hc
      · exact absurd hc List.not_mem_nil

/-- A decimal with a point is clean. -/
theorem Decimal.cleaned_text (d : Decimal) : cleaned d.text = d.text := by
  have hmarks := d.text_marks
  have hfilter : d.text.filter (fun c => !isStrWhiteSpace c) = d.text :=
    List.filter_eq_self.mpr (fun c hc => by rw [(hmarks c hc).1]; rfl)
  have hcomma : unit ',' ∉ d.text := fun hin => (hmarks _ hin).2 rfl
  unfold cleaned
  rw [trim_of_forall (fun c hc => (hmarks c hc).1), hfilter, replaceFirst_of_notMem hcomma]

end Showing

/-! ## What is entered -/

section Entering

variable {input : JsString} {d : Decimal}

/-- The decimal with a mark for its point. -/
def Decimal.written (d : Decimal) (mark : CodeUnit) : JsString :=
  (if d.negative then [dash] else []) ++ (d.whole.map digitText ++ if d.point then mark :: d.fraction.map digitText else [])

/-- A text is a decimal: white space may stand anywhere in it, and a comma for the point. -/
def Enters (input : JsString) (d : Decimal) : Prop :=
  ∃ mark ∈ [unit '.', unit ','], input.filter (fun c => !isStrWhiteSpace c) = d.written mark

/-- To take white space away everywhere takes it away at the ends. -/
theorem filter_trim (s : JsString) : (trim s).filter (fun c => !isStrWhiteSpace c) = s.filter (fun c => !isStrWhiteSpace c) := by
  have hstart : ∀ t : JsString, (trimStart t).filter (fun c => !isStrWhiteSpace c) = t.filter (fun c => !isStrWhiteSpace c) := by
    intro t
    have hnone : (t.takeWhile isStrWhiteSpace).filter (fun c => !isStrWhiteSpace c) = [] :=
      List.filter_eq_nil_iff.mpr (fun c hc => by rw [List.mem_takeWhile_imp hc]; exact Bool.false_ne_true)
    conv_rhs => rw [← @List.takeWhile_append_dropWhile _ isStrWhiteSpace t, List.filter_append, hnone]
    rfl
  unfold trim
  rw [List.filter_reverse, hstart, List.filter_reverse, List.reverse_reverse, hstart]

/-- The digits before the point, and the sign, have no mark. -/
theorem notMem_front {mark : CodeUnit} (hdigit : isDigit mark = false) (hdash : mark ≠ dash) (d : Decimal) :
    mark ∉ (if d.negative then [dash] else []) ++ d.whole.map digitText := by
  intro hin
  rcases List.mem_append.mp hin with hin | hin
  · split at hin
    · exact hdash (List.mem_singleton.mp hin)
    · exact List.not_mem_nil hin
  · exact notMem_digits hdigit d.whole_lt hin

theorem written_point (h : d.point = true) (mark : CodeUnit) : d.written mark =
    ((if d.negative then [dash] else []) ++ d.whole.map digitText) ++ mark :: d.fraction.map digitText := by
  unfold Decimal.written
  rw [if_pos h, List.append_assoc]

/-- A decimal splits at its point only. -/
theorem split_at_point {front back : JsString} (h : d.text = front ++ unit '.' :: back) : d.point = true ∧
    (if d.negative then [dash] else []) ++ d.whole.map digitText = front ∧ d.fraction.map digitText = back := by
  have hfront : unit '.' ∉ (if d.negative then [dash] else []) ++ d.whole.map digitText :=
    notMem_front (by decide) (by decide) d
  have hfraction : unit '.' ∉ d.fraction.map digitText := notMem_digits (by decide) d.fraction_lt
  cases hpoint : d.point with
  | false =>
    unfold Decimal.text Decimal.figures at h
    rw [hpoint, if_neg Bool.false_ne_true, List.append_nil] at h
    exact absurd (h ▸ List.mem_append_right _ List.mem_cons_self) hfront
  | true =>
    have htext : d.text = _ := written_point hpoint (unit '.')
    rw [htext] at h
    generalize (if d.negative then [dash] else []) ++ d.whole.map digitText = start at h hfront ⊢
    have hcount := congrArg (List.count (unit '.')) h
    rw [List.count_append, List.count_append, List.count_cons_self, List.count_cons_self, List.count_eq_zero.mpr hfront,
      List.count_eq_zero.mpr hfraction] at hcount
    have hnone : unit '.' ∉ front := List.count_eq_zero.mp (by omega)
    exact ⟨rfl, split_at_mark hfront hnone h⟩

/-- What is entered is the decimal that is left when it is cleaned. -/
theorem enters_iff : Enters input d ↔ d.text = cleaned input := by
  unfold Enters cleaned
  rw [filter_trim]
  generalize input.filter (fun c => !isStrWhiteSpace c) = s
  have hcomma : unit ',' ∉ d.text := fun hin => (d.text_marks _ hin).2 rfl
  constructor
  · rintro ⟨mark, hmark, rfl⟩
    simp only [List.mem_cons, List.not_mem_nil, or_false] at hmark
    rcases hmark with rfl | rfl
    · exact (replaceFirst_of_notMem hcomma _).symm
    · cases hpoint : d.point with
      | false =>
        have htext : d.written (unit ',') = d.text := by
          unfold Decimal.written Decimal.text Decimal.figures
          rw [hpoint, if_neg Bool.false_ne_true, if_neg Bool.false_ne_true]
        rw [htext, replaceFirst_of_notMem hcomma]
      | true =>
        rw [written_point hpoint, replaceFirst_append (notMem_front (by decide) (by decide) d)]
        exact written_point hpoint (unit '.')
  · intro htext
    by_cases hin : unit ',' ∈ s
    · obtain ⟨front, back, rfl, hfront⟩ := List.eq_append_cons_of_mem hin
      rw [replaceFirst_append hfront] at htext
      obtain ⟨hpoint, hpart, hrest⟩ := split_at_point htext
      refine ⟨unit ',', List.mem_cons_of_mem _ List.mem_cons_self, ?_⟩
      rw [written_point hpoint, hpart, hrest]
    · rw [replaceFirst_of_notMem hin] at htext
      exact ⟨unit '.', List.mem_cons_self, htext.symm⟩

end Entering

/-- Amounts that are shown are entered again as they were; what is accepted is the decimal that is written, cut off after
the last minor unit, and what is out of range is refused. -/
theorem amounts_lawful (T : Text) (currency : JsString) :
    (∀ amount : Minor, amount.natAbs ≤ MAX_SAFE_INTEGER →
      parseAmount T (formatAmount T amount currency) currency = .ok amount) ∧
    (∀ (input : JsString) (amount : Minor), parseAmount T input currency = .ok amount →
      ∃ d : Decimal, Enters input d ∧ amount = truncate (d.number * 10 ^ decimals T currency)) ∧
    ∀ (input : JsString) (d : Decimal), Enters input d → d.text ≠ [] →
      parseAmount T input currency =
        if (truncate (d.number * 10 ^ decimals T currency)).natAbs ≤ MAX_SAFE_INTEGER then
          .ok (truncate (d.number * 10 ^ decimals T currency))
        else .error (js "\"" ++ input ++ js "\" is out of range") := by
  refine ⟨fun amount hsafe => ?_, fun input amount hok => ?_, fun input d h hne => ?_⟩
  · have hsmall : amount.natAbs < 10 ^ 21 := lt_of_le_of_lt hsafe (by decide)
    have hne : (shown amount (decimals T currency)).text ≠ [] := by
      unfold Decimal.text Decimal.figures
      simp [whole_shown_ne_nil]
    rw [formatAmount_eq hsmall, parseAmount_of_text (Decimal.cleaned_text _).symm (by rwa [Decimal.cleaned_text]), truncate_shown,
      if_pos hsafe]
  · have hvalid : ¬ (cleaned input = [] ∨ (amountPattern (cleaned input).length).isMatch (cleaned input) = false) := by
      intro h
      unfold parseAmount at hok
      simp only [if_pos h] at hok
      cases hok
    obtain ⟨hne, hmatch⟩ := not_or.mp hvalid
    obtain ⟨d, hd⟩ := amountPattern_iff.mp ((Bool.not_eq_false _).mp hmatch)
    refine ⟨d, enters_iff.mpr hd, ?_⟩
    rw [parseAmount_of_text hd hne] at hok
    split_ifs at hok
    exact (Except.ok.inj hok).symm
  · have hd := enters_iff.mp h
    exact parseAmount_of_text hd (hd ▸ hne)

end Books

end EasyDocket
