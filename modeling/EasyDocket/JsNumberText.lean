import EasyDocket.JsNumber
import Mathlib.Data.Nat.Factorization.Basic
import Mathlib.Tactic.FieldSimp

/-!
# Integers as texts

`Number` reads every integer as `String` writes it (`number_toText`), whether it has an exponent or not; so different
integers have different texts.
-/

namespace EasyDocket

open Numeral

namespace JsNumber

variable {s t : JsString} {n k : ℕ} {x : ℚ}

/-! ## Fractions -/

/-- What divides a power of a number divides the power by its own length. -/
theorem dvd_pow_log2 {d m : ℕ} (hd : d ≠ 0) (h : d ∣ m ^ k) : d ∣ m ^ (d.log2 + 1) := by
  rw [Nat.dvd_iff_prime_pow_dvd_dvd]
  intro p j hp hj
  cases j with
  | zero => exact one_dvd _
  | succ j =>
    have hm : p ∣ m := hp.dvd_of_dvd_pow (((dvd_pow_self p (Nat.succ_ne_zero j)).trans hj).trans h)
    have hle : j + 1 ≤ d.log2 := by
      rw [Nat.le_log2 hd]
      exact (Nat.pow_le_pow_left hp.two_le _).trans (Nat.le_of_dvd (Nat.pos_of_ne_zero hd) hj)
    exact (pow_dvd_pow_of_dvd hm _).trans (pow_dvd_pow m (by omega))

/-- The digits of a fraction that has enough of them; by recursion on how many there may be. -/
theorem value_fractionDigits : ∀ {fuel : ℕ} {x : ℚ} (ws : List ℕ), 0 ≤ x → x < 1 → (∃ m : ℕ, x * 10 ^ fuel = m) →
    (value 10 (ws ++ fractionDigits 10 fuel x) : ℚ) = (value 10 ws + x) * 10 ^ (fractionDigits 10 fuel x).length
  | 0, x, ws, hpos, hlt, ⟨m, hm⟩ => by
    rw [pow_zero, mul_one] at hm
    have hzero : m = 0 := by
      rw [hm] at hlt
      exact Nat.lt_one_iff.mp (by exact_mod_cast hlt)
    rw [hm, hzero]
    simp [fractionDigits]
  | fuel + 1, x, ws, hpos, hlt, ⟨m, hm⟩ => by
    unfold fractionDigits
    by_cases hx : x = 0
    · rw [if_pos hx, hx]
      simp
    · have hten : (0 : ℚ) ≤ x * 10 := by linarith
      have hfloor : ((⌊x * 10⌋₊ : ℕ) : ℚ) = ((⌊x * 10⌋ : ℤ) : ℚ) := by
        rw [← Int.floor_toNat]
        exact_mod_cast congrArg (fun z : ℤ => (z : ℚ)) (Int.toNat_of_nonneg (Int.floor_nonneg.mpr hten))
      have hsplit : Int.fract (x * 10) = x * 10 - (⌊x * 10⌋₊ : ℕ) := by rw [hfloor]; rfl
      have hnext : ∃ m' : ℕ, Int.fract (x * 10) * 10 ^ fuel = m' := by
        have hle : ⌊x * 10⌋₊ * 10 ^ fuel ≤ m := by
          have hfl : ((⌊x * 10⌋₊ : ℕ) : ℚ) ≤ x * 10 := Nat.floor_le hten
          have hmul : ((⌊x * 10⌋₊ : ℕ) : ℚ) * 10 ^ fuel ≤ x * 10 * 10 ^ fuel :=
            mul_le_mul_of_nonneg_right hfl (by positivity)
          rw [mul_assoc, ← pow_succ', hm] at hmul
          exact_mod_cast hmul
        refine ⟨m - ⌊x * 10⌋₊ * 10 ^ fuel, ?_⟩
        rw [Nat.cast_sub hle, ← hm, hsplit]
        push_cast
        ring
      have ih := value_fractionDigits (ws ++ [⌊x * 10⌋₊]) (Int.fract_nonneg _) (Int.fract_lt_one _) hnext
      rw [value_append, List.append_assoc, List.singleton_append] at ih
      rw [if_neg hx, List.length_cons]
      show (value 10 (ws ++ ⌊x * 10⌋₊ :: fractionDigits 10 fuel (Int.fract (x * 10))) : ℚ) = _
      rw [ih]
      push_cast
      rw [hsplit, pow_succ]
      show (10 * (value 10 ws : ℚ) + _ + _) * _ = _ * (_ * 10)
      ring

theorem mem_fractionDigits : ∀ {fuel : ℕ} {x : ℚ}, 0 ≤ x → x < 1 → ∀ d ∈ fractionDigits 10 fuel x, d < 10
  | 0, _, _, _, _, h => absurd h List.not_mem_nil
  | fuel + 1, x, hpos, hlt, d, h => by
    unfold fractionDigits at h
    by_cases hx : x = 0
    · rw [if_pos hx] at h
      exact absurd h List.not_mem_nil
    · rw [if_neg hx] at h
      rcases List.mem_cons.mp h with rfl | h
      · exact (Nat.floor_lt (by positivity)).mpr (by push_cast; linarith)
      · exact mem_fractionDigits (Int.fract_nonneg _) (Int.fract_lt_one _) d h

/-! ## The parts of a text -/

/-- A digit, or one of the marks of a number. -/
def isMark (c : CodeUnit) : Bool :=
  isLowerDigit 10 c || c = unit '.' || c = unit 'e' || c = unit '+' || c = unit '-'

/-- What no text of a number has. -/
structure Plain (c : CodeUnit) : Prop where
  space : isStrWhiteSpace c = false
  bar : c ≠ unit '|'
  infinity : c ≠ unit 'I'
  hexadecimal : ¬ (c = unit 'x' ∨ c = unit 'X')
  octal : ¬ (c = unit 'o' ∨ c = unit 'O')
  binary : ¬ (c = unit 'b' ∨ c = unit 'B')

theorem Plain.of_mark {c : CodeUnit} (h : isMark c = true) : Plain c := by
  have hdigit : ∀ d < 10, isStrWhiteSpace (digitText d) = false ∧ digitText d ≠ unit '|' ∧ digitText d ≠ unit 'I' ∧
      ¬ (digitText d = unit 'x' ∨ digitText d = unit 'X') ∧ ¬ (digitText d = unit 'o' ∨ digitText d = unit 'O') ∧
      ¬ (digitText d = unit 'b' ∨ digitText d = unit 'B') := by decide +kernel
  unfold isMark at h
  simp only [Bool.or_eq_true, decide_eq_true_eq] at h
  rcases h with (((h | rfl) | rfl) | rfl) | rfl
  · obtain ⟨d, hd, rfl⟩ := isLowerDigit_iff.mp h
    obtain ⟨hspace, hbar, hinfinity, hx, ho, hb⟩ := hdigit d hd
    exact ⟨hspace, hbar, hinfinity, hx, ho, hb⟩
  all_goals exact ⟨by decide +kernel, by decide, by decide, by decide, by decide, by decide⟩

theorem isMark_of_digits {ds : List ℕ} (h : ∀ d ∈ ds, d < 10) : ∀ c ∈ ds.map digitText, isMark c = true := by
  intro c hc
  unfold isMark
  rw [isLowerDigit_of_digits h c hc]
  rfl

/-- The digits before the point, and those after it; no point stands before no digits. -/
def decimalText (whole fraction : List ℕ) : JsString :=
  whole.map digitText ++ if fraction = [] then [] else unit '.' :: fraction.map digitText

theorem decimalText_marks {whole fraction : List ℕ} (hwhole : ∀ d ∈ whole, d < 10) (hfraction : ∀ d ∈ fraction, d < 10) :
    ∀ c ∈ decimalText whole fraction, isMark c = true ∧ isExponentMark c = false := by
  have hdigits : ∀ ds : List ℕ, (∀ d ∈ ds, d < 10) → ∀ c ∈ ds.map digitText, isMark c = true ∧ isExponentMark c = false := by
    intro ds hds c hc
    refine ⟨isMark_of_digits hds c hc, ?_⟩
    obtain ⟨d, hd, rfl⟩ := List.mem_map.mp hc
    exact (plain_of_decimal d (hds d hd)).2.2
  intro c hc
  unfold decimalText at hc
  rcases List.mem_append.mp hc with hc | hc
  · exact hdigits whole hwhole c hc
  · split at hc
    · exact absurd hc List.not_mem_nil
    · rcases List.mem_cons.mp hc with rfl | hc
      · exact ⟨by decide, by decide⟩
      · exact hdigits fraction hfraction c hc

/-- The digits of a number, written out. -/
theorem positional_text (x : ℚ) : positional 10 x =
    decimalText (numeral 10 ⌊x⌋₊) (fractionDigits 10 (x.den.log2 + 1) (Int.fract x)) := by
  unfold positional decimalText
  refine congrArg (_ ++ ·) ?_
  by_cases hzero : Int.fract x = 0
  · rw [if_pos hzero, hzero, if_pos]
    show (if (0 : ℚ) = 0 then _ else _) = _
    rw [if_pos rfl]
  · rw [if_neg hzero, if_neg]
    show (if Int.fract x = 0 then _ else _) ≠ _
    rw [if_neg hzero]
    exact List.cons_ne_nil _ _

/-- A number that is not negative and has finitely many decimals is written by its digits. -/
theorem positional_eq (hx : 0 ≤ x) (h : ∃ m : ℕ, x * 10 ^ k = m) : ∃ whole fraction : List ℕ,
    whole ≠ [] ∧ (∀ d ∈ whole, d < 10) ∧ (∀ d ∈ fraction, d < 10) ∧ positional 10 x = decimalText whole fraction ∧
      (value 10 (whole ++ fraction) : ℚ) = x * 10 ^ fraction.length := by
  have hfloor : ((⌊x⌋₊ : ℕ) : ℚ) = x - Int.fract x := by
    have hcast : ((⌊x⌋₊ : ℕ) : ℚ) = ((⌊x⌋ : ℤ) : ℚ) := by
      rw [← Int.floor_toNat]
      exact_mod_cast congrArg (fun z : ℤ => (z : ℚ)) (Int.toNat_of_nonneg (Int.floor_nonneg.mpr hx))
    rw [hcast]
    linarith [Int.self_sub_floor x]
  have hten : ∃ m : ℕ, x * 10 ^ (x.den.log2 + 1) = m := by
    obtain ⟨m, hm⟩ := h
    have hden : x.den ∣ 10 ^ k := by
      have heq : x = (m : ℤ) / ((10 ^ k : ℕ) : ℤ) := by
        push_cast
        rw [eq_div_iff (by positivity)]
        exact hm
      have hdvd := Rat.den_dvd (m : ℤ) ((10 ^ k : ℕ) : ℤ)
      rw [Rat.divInt_eq_div, ← heq] at hdvd
      exact_mod_cast hdvd
    obtain ⟨q, hq⟩ := dvd_pow_log2 x.den_ne_zero hden
    refine ⟨x.num.toNat * q, ?_⟩
    have hnum : ((x.num.toNat : ℕ) : ℚ) = x.num := by
      exact_mod_cast congrArg (fun z : ℤ => (z : ℚ)) (Int.toNat_of_nonneg (Rat.num_nonneg.mpr hx))
    have hpow : (10 : ℚ) ^ (x.den.log2 + 1) = x.den * q := by exact_mod_cast hq
    rw [hpow, ← mul_assoc, Rat.mul_den_eq_num]
    push_cast
    rw [hnum]
  have hfract : ∃ m : ℕ, Int.fract x * 10 ^ (x.den.log2 + 1) = m := by
    obtain ⟨m, hm⟩ := hten
    have hle : ⌊x⌋₊ * 10 ^ (x.den.log2 + 1) ≤ m := by
      have hmul : ((⌊x⌋₊ : ℕ) : ℚ) * 10 ^ (x.den.log2 + 1) ≤ x * 10 ^ (x.den.log2 + 1) :=
        mul_le_mul_of_nonneg_right (Nat.floor_le hx) (by positivity)
      rw [hm] at hmul
      exact_mod_cast hmul
    refine ⟨m - ⌊x⌋₊ * 10 ^ (x.den.log2 + 1), ?_⟩
    rw [Nat.cast_sub hle, ← hm]
    push_cast
    rw [hfloor]
    ring
  have hvalue := value_fractionDigits (numeral 10 ⌊x⌋₊) (Int.fract_nonneg x) (Int.fract_lt_one x) hfract
  rw [value_numeral, hfloor, sub_add_cancel] at hvalue
  exact ⟨numeral 10 ⌊x⌋₊, fractionDigits 10 (x.den.log2 + 1) (Int.fract x), numeral_ne_nil, mem_numeral (by decide),
    mem_fractionDigits (Int.fract_nonneg x) (Int.fract_lt_one x), positional_text x, hvalue⟩

/-- A large number is written with an exponent. -/
theorem magnitude_large {n : ℕ} (h : 10 ^ 21 ≤ n) : magnitude 10 (n : ℚ) =
    positional 10 (n / 10 ^ Nat.log 10 n) ++ unit 'e' :: unit '+' :: (numeral 10 (Nat.log 10 n)).map digitText := by
  have hlog : Int.log 10 (n : ℚ) = (Nat.log 10 n : ℕ) := Int.log_natCast 10 n
  have hnot : ¬ Int.log 10 (n : ℚ) < 0 := by rw [hlog]; omega
  have hcond : (10 : ℕ) = 10 ∧ ((10 : ℚ) ^ 21 ≤ n ∨ 0 < (n : ℚ) ∧ (n : ℚ) < 1 / 10 ^ 6) :=
    ⟨rfl, Or.inl (by exact_mod_cast h)⟩
  unfold magnitude
  rw [if_pos hcond, if_neg hnot, hlog, zpow_natCast]
  rfl

/-! ## Reading what is written -/

/-- The text of a number up to its exponent, and the exponent. -/
theorem unsignedDecimal_decimalText {whole fraction : List ℕ} {suffix : JsString} {e : ℤ} (hne : whole ≠ [])
    (hwhole : ∀ d ∈ whole, d < 10) (hfraction : ∀ d ∈ fraction, d < 10) (hsuffix : suffix = [] ∨ suffix.head? = some (unit 'e'))
    (he : exponentOf suffix = some e) : unsignedDecimal (decimalText whole fraction ++ suffix) =
      some ((value 10 (whole ++ fraction) : ℚ) * 10 ^ (e - fraction.length)) := by
  have hmark : ∀ c ∈ decimalText whole fraction, (!isExponentMark c) = true := by
    intro c hc
    rw [(decimalText_marks hwhole hfraction c hc).2]
    rfl
  have hstop : suffix.takeWhile (fun c => !isExponentMark c) = [] ∧ suffix.dropWhile (fun c => !isExponentMark c) = suffix := by
    rcases hsuffix with rfl | hsuffix
    · exact ⟨rfl, rfl⟩
    · obtain ⟨rest, rfl⟩ := List.head?_eq_some_iff.mp hsuffix
      exact ⟨rfl, rfl⟩
  have hmantissa : (decimalText whole fraction ++ suffix).takeWhile (fun c => !isExponentMark c) = decimalText whole fraction := by
    rw [List.takeWhile_append_of_pos hmark, hstop.1, List.append_nil]
  have hexponent : (decimalText whole fraction ++ suffix).dropWhile (fun c => !isExponentMark c) = suffix := by
    rw [List.dropWhile_append_of_pos hmark, hstop.2]
  have hpoint : ∀ c ∈ whole.map digitText, decide (c ≠ unit '.') = true := by
    intro c hc
    obtain ⟨d, hd, rfl⟩ := List.mem_map.mp hc
    exact decide_eq_true (plain_of_lower d (by have := hwhole d hd; omega)).2.2.2.1
  have hparts : (decimalText whole fraction).takeWhile (fun c => c ≠ unit '.') = whole.map digitText ∧
      ((decimalText whole fraction).dropWhile (fun c => c ≠ unit '.')).drop 1 = fraction.map digitText := by
    unfold decimalText
    rw [List.takeWhile_append_of_pos hpoint, List.dropWhile_append_of_pos hpoint]
    by_cases hfr : fraction = []
    · rw [if_pos hfr, hfr]
      exact ⟨List.append_nil _, rfl⟩
    · rw [if_neg hfr, List.takeWhile_cons_of_neg (by simp), List.dropWhile_cons_of_neg (by simp)]
      exact ⟨List.append_nil _, rfl⟩
  have hall : ∀ d ∈ whole ++ fraction, d < 10 := by
    intro d hd
    exact (List.mem_append.mp hd).elim (hwhole d) (hfraction d)
  have hdigits : digitsIn 10 (whole.map digitText ++ fraction.map digitText) = some (value 10 (whole ++ fraction)) := by
    rw [← List.map_append, digitsIn_of_lower (by decide) (by simp [hne]) (isLowerDigit_of_digits hall),
      valueIn_digits (by decide) hall]
  unfold unsignedDecimal
  simp only [hmantissa, hexponent, hparts.1, hparts.2, he, hdigits, List.length_map]

/-- The text of a natural number has only marks, does not begin with a sign, and is read as the number. -/
structure Reads (s : JsString) (n : ℕ) : Prop where
  ne_nil : s ≠ []
  marks : ∀ c ∈ s, isMark c = true
  unsigned : splitSign s = (false, s)
  value : unsignedDecimal s = some (n : ℚ)

theorem splitSign_decimalText {whole fraction : List ℕ} {suffix : JsString} (hne : whole ≠ []) (hwhole : ∀ d ∈ whole, d < 10) :
    splitSign (decimalText whole fraction ++ suffix) = (false, decimalText whole fraction ++ suffix) := by
  cases whole with
  | nil => exact absurd rfl hne
  | cons d whole =>
    obtain ⟨-, hminus, hplus, -⟩ := plain_of_lower d (by have := hwhole d List.mem_cons_self; omega)
    unfold decimalText splitSign
    simp only [List.map_cons, List.cons_append, if_neg hminus, if_neg hplus]

/-- `String` of a natural number, with an exponent or without. -/
theorem reads_magnitude (n : ℕ) : Reads (magnitude 10 n) n := by
  by_cases hlarge : 10 ^ 21 ≤ n
  · -- the mantissa is a fraction of a power of ten
    have hmantissa : (0 : ℚ) ≤ n / 10 ^ Nat.log 10 n := div_nonneg (Nat.cast_nonneg n) (pow_nonneg (by norm_num) _)
    have hfinite : ∃ m : ℕ, (n : ℚ) / 10 ^ Nat.log 10 n * 10 ^ Nat.log 10 n = m := by
      refine ⟨n, ?_⟩
      field_simp
    obtain ⟨whole, fraction, hne, hwhole, hfraction, htext, hvalue⟩ := positional_eq hmantissa hfinite
    have hexponents : ∀ d ∈ numeral 10 (Nat.log 10 n), d < 10 := mem_numeral (by decide)
    have hdigits : digitsIn 10 ((numeral 10 (Nat.log 10 n)).map digitText) = some (Nat.log 10 n) := by
      rw [digitsIn_of_lower (by decide) (by simp [numeral_ne_nil]) (isLowerDigit_of_digits hexponents),
        valueIn_digits (by decide) hexponents, value_numeral]
    have he : exponentOf (unit 'e' :: unit '+' :: (numeral 10 (Nat.log 10 n)).map digitText) = some (Nat.log 10 n : ℤ) := by
      have hsign : splitSign (unit '+' :: (numeral 10 (Nat.log 10 n)).map digitText) =
          (false, (numeral 10 (Nat.log 10 n)).map digitText) := rfl
      simp only [exponentOf, hsign, hdigits]
      rfl
    have hmag := magnitude_large hlarge
    rw [htext] at hmag
    rw [hmag]
    refine ⟨by simp, ?_, splitSign_decimalText hne hwhole, ?_⟩
    · intro c hc
      rcases List.mem_append.mp hc with hc | hc
      · exact (decimalText_marks hwhole hfraction c hc).1
      · rcases List.mem_cons.mp hc with rfl | hc
        · decide
        · rcases List.mem_cons.mp hc with rfl | hc
          · decide
          · exact isMark_of_digits hexponents c hc
    · rw [unsignedDecimal_decimalText hne hwhole hfraction (Or.inr rfl) he, hvalue, zpow_sub₀ (by norm_num), zpow_natCast,
        zpow_natCast]
      field_simp
  · have hsmall : n < 10 ^ 21 := not_le.mp hlarge
    have hmag : magnitude 10 (n : ℚ) = (numeral 10 n).map digitText := by
      have htext : toText 10 (ofNat n) = _ := toText_ofNat (fun _ => hsmall)
      rw [← htext]
      show _ = if (n : ℚ) < 0 then _ else _
      rw [if_neg (not_lt.mpr (Nat.cast_nonneg n))]
    have hmem : ∀ d ∈ numeral 10 n, d < 10 := mem_numeral (by decide)
    have hplain : (numeral 10 n).map digitText = decimalText (numeral 10 n) [] ++ [] := by simp [decimalText]
    rw [hmag]
    refine ⟨by simp [numeral_ne_nil], isMark_of_digits hmem, ?_, ?_⟩
    · rw [hplain]
      exact splitSign_decimalText numeral_ne_nil hmem
    · rw [hplain, unsignedDecimal_decimalText numeral_ne_nil hmem (by simp) (Or.inl rfl) rfl, List.append_nil, value_numeral]
      simp

/-! ## Integers -/

theorem eq_natAbs {n : ℤ} (h : 0 ≤ n) : (n : ℚ) = ((n.natAbs : ℕ) : ℚ) := by
  rw [Nat.cast_natAbs, abs_of_nonneg h]

theorem neg_eq_natAbs {n : ℤ} (h : n < 0) : -(n : ℚ) = ((n.natAbs : ℕ) : ℚ) := by
  rw [Nat.cast_natAbs, abs_of_neg h, Int.cast_neg]

/-- `String` of an integer has only marks. -/
theorem toText_marks (n : ℤ) : ∀ c ∈ toText 10 (.exact n), isMark c = true := by
  intro c hc
  replace hc : c ∈ if (n : ℚ) < 0 then unit '-' :: magnitude 10 (-(n : ℚ)) else magnitude 10 (n : ℚ) := hc
  split at hc
  · next hneg =>
    have hnat := neg_eq_natAbs (show n < 0 by exact_mod_cast hneg)
    rcases List.mem_cons.mp hc with rfl | hc
    · decide
    · rw [hnat] at hc
      exact (reads_magnitude _).marks c hc
  · next hpos =>
    have hnat := eq_natAbs (show 0 ≤ n by exact_mod_cast not_lt.mp hpos)
    rw [hnat] at hc
    exact (reads_magnitude _).marks c hc

/-- A text of marks is read as a decimal literal. -/
theorem number_of_marks (hne : s ≠ []) (h : ∀ c ∈ s, isMark c = true) : number s = decimalLiteral s := by
  have htrim : trim s = s := trim_of_forall (fun c hc => (Plain.of_mark (h c hc)).space)
  have hradix : radixOf s = none := by
    match s, h with
    | [], _ => rfl
    | [_], _ => rfl
    | _ :: d :: _, h =>
      have hd := Plain.of_mark (h d (by simp))
      unfold radixOf
      simp only [if_neg hd.hexadecimal, if_neg hd.octal, if_neg hd.binary, ite_self]
  unfold number
  simp only [htrim, if_neg hne, hradix]

theorem ne_infinity (h : ∀ c ∈ s, isMark c = true) : s ≠ js "Infinity" := by
  rintro rfl
  exact (Plain.of_mark (h (unit 'I') (by decide))).infinity rfl

/-- `Number(String(n))` is `n`. -/
theorem number_toText (n : ℤ) : number (toText 10 (.exact n)) = .exact n := by
  have hmarks := toText_marks n
  by_cases hneg : n < 0
  · have hq : (n : ℚ) < 0 := by exact_mod_cast hneg
    have hnat := neg_eq_natAbs hneg
    have htext : toText 10 (.exact n) = unit '-' :: magnitude 10 ((n.natAbs : ℕ) : ℚ) := by
      show (if (n : ℚ) < 0 then unit '-' :: magnitude 10 (-(n : ℚ)) else _) = _
      rw [if_pos hq, hnat]
    have hsign : splitSign (toText 10 (.exact n)) = (true, magnitude 10 ((n.natAbs : ℕ) : ℚ)) := by
      rw [htext]
      rfl
    have hreads := reads_magnitude n.natAbs
    rw [number_of_marks (by rw [htext]; exact List.cons_ne_nil _ _) hmarks]
    unfold decimalLiteral
    simp only [hsign, if_neg (ne_infinity hreads.marks), hreads.value, if_true]
    rw [← hnat, neg_neg]
  · have hq : ¬ (n : ℚ) < 0 := by exact_mod_cast hneg
    have hnat := eq_natAbs (not_lt.mp hneg)
    have htext : toText 10 (.exact n) = magnitude 10 ((n.natAbs : ℕ) : ℚ) := by
      show (if (n : ℚ) < 0 then _ else magnitude 10 (n : ℚ)) = _
      rw [if_neg hq, hnat]
    have hreads := reads_magnitude n.natAbs
    rw [number_of_marks (by rw [htext]; exact hreads.ne_nil) hmarks, htext]
    unfold decimalLiteral
    simp only [hreads.unsigned, if_neg (ne_infinity hreads.marks), hreads.value, hnat]
    rfl

/-- Different integers have different texts. -/
theorem toText_injective {n m : ℤ} (h : toText 10 (.exact n) = toText 10 (.exact m)) : n = m := by
  have hnumbers := congrArg number h
  rw [number_toText, number_toText] at hnumbers
  exact_mod_cast exact.inj hnumbers

/-- A text of an integer is not the one of an infinity. -/
theorem toText_ne_infinity (n : ℤ) (m : Bool) : toText 10 (.exact n) ≠ toText 10 (.infinity m) := by
  intro h
  have hmarks := toText_marks n
  rw [h] at hmarks
  refine (Plain.of_mark (hmarks (unit 'I') ?_)).infinity rfl
  cases m <;> decide

end JsNumber

end EasyDocket
