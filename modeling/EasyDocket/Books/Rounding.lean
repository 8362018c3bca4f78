import EasyDocket.Books.Conversion
import Mathlib.Algebra.Order.Field.Basic
import Mathlib.Tactic.FieldSimp
import Mathlib.Tactic.Linarith
import Mathlib.Tactic.NormNum
import Mathlib.Tactic.Positivity

/-!
# Rounding

Conversions snap to nine places, which rounds halves up, and then round halves away from zero.  Amounts and their negatives
are converted alike unless the snap lifts one of them to a half.
-/

namespace EasyDocket

namespace Books

/-! ## How far a conversion rounds -/

/-- How far a conversion rounds. -/
def slack : ℚ := 1 / 2 + 1 / (2 * PRECISION)

theorem slack_pos : 0 < slack := by
  unfold slack PRECISION
  norm_num

theorem mathRound_close (x : ℚ) : |(mathRound x : ℚ) - x| ≤ 1 / 2 := by
  have hclose := abs_sub_round x
  rw [round_eq] at hclose
  rw [abs_sub_comm]
  exact hclose

theorem roundHalfAwayFromZero_close (x : ℚ) : |(roundHalfAwayFromZero x : ℚ) - x| ≤ slack := by
  have hprecision : (0 : ℚ) < PRECISION := by
    unfold PRECISION
    norm_num
  have hsnap : |(mathRound (x * PRECISION) : ℚ) / PRECISION - x| ≤ 1 / (2 * PRECISION) := by
    have hclose := mathRound_close (x * PRECISION)
    have heq : (mathRound (x * PRECISION) : ℚ) / PRECISION - x = (mathRound (x * PRECISION) - x * PRECISION) / PRECISION := by
      rw [sub_div, mul_div_assoc, div_self hprecision.ne', mul_one]
    rw [heq, abs_div, abs_of_pos hprecision, div_le_iff₀ hprecision]
    refine hclose.trans (le_of_eq ?_)
    rw [one_div, one_div, mul_inv, mul_assoc, inv_mul_cancel₀ hprecision.ne', mul_one]
  have hround : |(roundHalfAwayFromZero x : ℚ) - (mathRound (x * PRECISION) : ℚ) / PRECISION| ≤ 1 / 2 := by
    unfold roundHalfAwayFromZero
    dsimp only
    split_ifs with hneg
    · have hclose := mathRound_close (-((mathRound (x * PRECISION) : ℚ) / PRECISION))
      rw [← abs_neg]
      push_cast
      rwa [neg_sub, sub_neg_eq_add, add_comm, ← sub_neg_eq_add]
    · exact mathRound_close _
  have htriangle := abs_sub_le (roundHalfAwayFromZero x : ℚ) ((mathRound (x * PRECISION) : ℚ) / PRECISION) x
  unfold slack
  linarith

/-! ## Units of the ninth place -/

/-- A number of units of the ninth place, rounded with halves away from zero. -/
def away (k : ℤ) : ℤ := if k < 0 then -((-k + 500000000) / 1000000000) else (k + 500000000) / 1000000000

theorem mathRound_units (k : ℤ) : mathRound (k / PRECISION) = (k + 500000000) / 1000000000 := by
  have heq : (k : ℚ) / PRECISION + 1 / 2 = ((k + 500000000 : ℤ) : ℚ) / ((1000000000 : ℕ) : ℚ) := by
    unfold PRECISION
    push_cast
    ring
  unfold mathRound
  rw [heq, Rat.floor_intCast_div_natCast]
  rfl

theorem roundHalfAwayFromZero_eq (x : ℚ) : roundHalfAwayFromZero x = away (mathRound (x * PRECISION)) := by
  have hprecision : (0 : ℚ) < PRECISION := by
    unfold PRECISION
    norm_num
  have hneg : (mathRound (x * PRECISION) : ℚ) / PRECISION < 0 ↔ mathRound (x * PRECISION) < 0 := by
    rw [div_lt_iff₀ hprecision, zero_mul]
    exact Int.cast_lt_zero
  unfold roundHalfAwayFromZero away
  dsimp only
  by_cases h : mathRound (x * PRECISION) < 0
  · have hunits := mathRound_units (-mathRound (x * PRECISION))
    rw [if_pos h, if_pos (hneg.mpr h), ← hunits]
    push_cast
    rw [neg_div]
  · rw [if_neg h, if_neg (fun hx => h (hneg.mp hx)), mathRound_units]

theorem away_neg (k : ℤ) : away (-k) = -away k := by
  unfold away
  split_ifs <;> omega

theorem away_mono {k l : ℤ} (h : k ≤ l) : away k ≤ away l := by
  unfold away
  split_ifs <;> omega

theorem mathRound_mono {x y : ℚ} (h : x ≤ y) : mathRound x ≤ mathRound y := Int.floor_mono (by linarith)

theorem roundHalfAwayFromZero_mono {x y : ℚ} (h : x ≤ y) : roundHalfAwayFromZero x ≤ roundHalfAwayFromZero y := by
  have hprecision : (0 : ℚ) ≤ PRECISION := by
    unfold PRECISION
    norm_num
  rw [roundHalfAwayFromZero_eq, roundHalfAwayFromZero_eq]
  exact away_mono (mathRound_mono (mul_le_mul_of_nonneg_right h hprecision))

/-- Halves are rounded up, so a half and its negative are rounded the same way. -/
theorem mathRound_neg (x : ℚ) : mathRound (-x) = if x = mathRound x - 1 / 2 then 1 - mathRound x else -mathRound x := by
  obtain ⟨hle, hlt⟩ := Int.floor_eq_iff.mp (rfl : mathRound x = mathRound x)
  split_ifs with h
  · refine Int.floor_eq_iff.mpr ⟨?_, ?_⟩ <;> push_cast <;> linarith
  · have hne : (mathRound x : ℚ) < x + 1 / 2 := lt_of_le_of_ne hle (fun heq => h (by linarith))
    refine Int.floor_eq_iff.mpr ⟨?_, ?_⟩ <;> push_cast <;> linarith

/-- The number just below a half, half a unit of the ninth place away from it. -/
def belowHalf (n : ℕ) : ℚ := n + 1 / 2 - 1 / (2 * PRECISION)

/-- The units of a half. -/
def halfUnits (n : ℕ) : ℤ := n * 1000000000 + 500000000

theorem belowHalf_units (n : ℕ) : belowHalf n * PRECISION = halfUnits n - 1 / 2 := by
  unfold belowHalf PRECISION halfUnits
  push_cast
  ring

theorem abs_eq_belowHalf {x : ℚ} {n : ℕ} :
    |x| = belowHalf n ↔ x * PRECISION = halfUnits n - 1 / 2 ∨ x * PRECISION = (1 - halfUnits n : ℤ) - 1 / 2 := by
  have hprecision : PRECISION ≠ 0 := by
    unfold PRECISION
    norm_num
  have hpos : 0 ≤ belowHalf n := by
    have hn : (0 : ℚ) ≤ n := Nat.cast_nonneg n
    unfold belowHalf PRECISION
    linarith
  rw [abs_eq hpos]
  refine or_congr ?_ ?_
  · rw [← belowHalf_units, mul_left_inj' hprecision]
  · have hneg : ((1 - halfUnits n : ℤ) : ℚ) - 1 / 2 = -belowHalf n * PRECISION := by
      rw [neg_mul, belowHalf_units]
      push_cast
      ring
    rw [hneg, mul_left_inj' hprecision]

/-- A number and its negative round alike, unless just one of them is lifted to a half by the snap. -/
theorem roundHalfAwayFromZero_neg_iff (x : ℚ) :
    roundHalfAwayFromZero (-x) = -roundHalfAwayFromZero x ↔ ∀ n : ℕ, |x| ≠ belowHalf n := by
  rw [roundHalfAwayFromZero_eq, roundHalfAwayFromZero_eq, neg_mul, mathRound_neg]
  by_cases hhalf : x * PRECISION = mathRound (x * PRECISION) - 1 / 2
  · rw [if_pos hhalf]
    generalize mathRound (x * PRECISION) = k at hhalf
    have hunits : ∀ n : ℕ, |x| = belowHalf n ↔ k = halfUnits n ∨ k = 1 - halfUnits n := by
      intro n
      rw [abs_eq_belowHalf, hhalf, sub_left_inj, sub_left_inj, Int.cast_inj, Int.cast_inj]
    simp only [ne_eq, hunits]
    constructor
    · rintro heq n (rfl | rfl) <;> unfold away halfUnits at heq <;> split_ifs at heq <;> omega
    · intro hnone
      have hup := hnone ((k - 500000000) / 1000000000).toNat
      have hdown := hnone ((-k - 499999999) / 1000000000).toNat
      unfold halfUnits at hup hdown
      unfold away
      split_ifs <;> omega
  · rw [if_neg hhalf, away_neg]
    refine iff_of_true rfl (fun n hn => ?_)
    -- then the product is half a unit after all
    have hround : ∀ m : ℤ, mathRound ((m : ℚ) - 1 / 2) = m := by
      intro m
      unfold mathRound
      rw [sub_add_cancel, Int.floor_intCast]
    rcases abs_eq_belowHalf.mp hn with h | h <;> rw [h, hround] at hhalf <;> exact hhalf rfl

/-- A half goes away from zero. -/
theorem roundHalfAwayFromZero_half (n : ℕ) : roundHalfAwayFromZero (n + 1 / 2) = n + 1 := by
  have hunits : ((n : ℚ) + 1 / 2) * PRECISION = halfUnits n := by
    unfold PRECISION halfUnits
    push_cast
    ring
  have hround : mathRound (halfUnits n : ℚ) = halfUnits n := by
    refine Int.floor_eq_iff.mpr ⟨?_, ?_⟩ <;> linarith
  rw [roundHalfAwayFromZero_eq, hunits, hround]
  unfold away halfUnits
  split_ifs <;> omega

theorem roundHalfAwayFromZero_neg_half (n : ℕ) : roundHalfAwayFromZero (-(n + 1 / 2)) = -(n + 1) := by
  have habs : |(n : ℚ) + 1 / 2| = n + 1 / 2 := abs_of_nonneg (by positivity)
  have hprecision : 0 < 1 / (2 * PRECISION) ∧ 1 / (2 * PRECISION) < 1 := by
    unfold PRECISION
    norm_num
  rw [(roundHalfAwayFromZero_neg_iff _).mpr, roundHalfAwayFromZero_half]
  intro k hk
  rw [habs, belowHalf] at hk
  -- numbers below a half are no halves
  have hcast : (n : ℚ) = k - 1 / (2 * PRECISION) := by linarith
  have hlt : (n : ℚ) < k := by linarith
  have hgt : (k : ℚ) < n + 1 := by linarith
  have h1 : n < k := by exact_mod_cast hlt
  have h2 : k < n + 1 := by exact_mod_cast hgt
  omega

/-! ## Conversions -/

/-- A conversion treats an amount and its negative alike, keeps the order of amounts, and rounds to the nearest, halves
away from zero. -/
structure EvenHanded (T : Text) (rate : ℚ) (src dest : JsString) (amount : Minor) : Prop where
  negative : convert T (-amount) rate src dest = (convert T amount rate src dest).map (fun c => -c)
  monotone : ∀ more, amount ≤ more →
    ∃ c c', convert T amount rate src dest = .ok c ∧ convert T more rate src dest = .ok c' ∧ c ≤ c'
  near : ∃ c, convert T amount rate src dest = .ok c ∧ |(c : ℚ) - amount * factor T rate src dest| ≤ 1 / 2 + 1 / 10 ^ 9
  half : ∀ n : ℕ, amount * factor T rate src dest = n + 1 / 2 → convert T amount rate src dest = .ok (n + 1)
  negative_half : ∀ n : ℕ, amount * factor T rate src dest = -(n + 1 / 2) → convert T amount rate src dest = .ok (-(n + 1))

variable {T : Text} {rate : ℚ} {src dest : JsString} {amount : Minor}

theorem factor_pos (hrate : 0 < rate) : 0 < factor T rate src dest :=
  mul_pos hrate (zpow_pos (by norm_num) _)

/-- Conversions treat debts and holdings alike just where the converted amount is not half a unit of the ninth place below
a half. -/
theorem evenHanded_iff (T : Text) (amount : Minor) (rate : ℚ) (src dest : JsString) (hrate : 0 < rate)
    (hother : sameCurrency T src dest = false) :
    EvenHanded T rate src dest amount ↔ ∀ n : ℕ, |amount * factor T rate src dest| ≠ n + 1 / 2 - 1 / (2 * 10 ^ 9) := by
  have hconvert : ∀ a, convert T a rate src dest = .ok (roundHalfAwayFromZero (a * factor T rate src dest)) :=
    fun a => convert_of_pos hrate hother
  have hnegative : convert T (-amount) rate src dest = (convert T amount rate src dest).map (fun c => -c) ↔
      ∀ n : ℕ, |amount * factor T rate src dest| ≠ n + 1 / 2 - 1 / (2 * 10 ^ 9) := by
    have hcast : ((-amount : ℤ) : ℚ) * factor T rate src dest = -(amount * factor T rate src dest) := by
      push_cast
      rw [neg_mul]
    rw [hconvert, hconvert, hcast]
    refine Iff.trans ?_ (roundHalfAwayFromZero_neg_iff _)
    exact ⟨fun h => Except.ok.inj h, fun h => congrArg Except.ok h⟩
  constructor
  · intro h
    exact hnegative.mp h.negative
  · intro h
    refine ⟨hnegative.mpr h, fun more hmore => ?_, ⟨_, hconvert amount, ?_⟩, fun n hn => ?_, fun n hn => ?_⟩
    · refine ⟨_, _, hconvert amount, hconvert more, roundHalfAwayFromZero_mono ?_⟩
      exact mul_le_mul_of_nonneg_right (Int.cast_le.mpr hmore) (factor_pos hrate).le
    · refine (roundHalfAwayFromZero_close _).trans ?_
      unfold slack PRECISION
      norm_num
    · rw [hconvert, hn, roundHalfAwayFromZero_half]
    · rw [hconvert, hn, roundHalfAwayFromZero_neg_half]

/-- A cent at 0.4999999995 is a cent, and a debt of a cent is none. -/
theorem exists_not_evenHanded : ¬ ∀ (T : Text) (amount : Minor) (rate : ℚ) (src dest : JsString), 0 < rate →
    sameCurrency T src dest = false → EvenHanded T rate src dest amount := by
  intro h
  have hfactor : factor ascii (4999999995 / 10 ^ 10) (js "USD") (js "EUR") = 4999999995 / 10 ^ 10 := by
    have hexponent : minorUnitExponent ascii (js "EUR") - minorUnitExponent ascii (js "USD") = 0 := by decide
    unfold factor
    rw [hexponent, zpow_zero, mul_one]
  have hrate : (0 : ℚ) < 4999999995 / 10 ^ 10 := by norm_num
  have hother : sameCurrency ascii (js "USD") (js "EUR") = false := by decide
  have hnegative := (h ascii 1 (4999999995 / 10 ^ 10) (js "USD") (js "EUR") hrate hother).negative
  rw [convert_of_pos hrate hother, convert_of_pos hrate hother, hfactor] at hnegative
  have hround := Except.ok.inj hnegative
  have hpos : roundHalfAwayFromZero ((1 : ℤ) * (4999999995 / 10 ^ 10)) = 1 := by
    rw [roundHalfAwayFromZero_eq]
    have hunits : mathRound (((1 : ℤ) : ℚ) * (4999999995 / 10 ^ 10) * PRECISION) = 500000000 := by
      unfold PRECISION
      refine Int.floor_eq_iff.mpr ⟨?_, ?_⟩ <;> norm_num
    rw [hunits]
    decide
  have hneg : roundHalfAwayFromZero ((-1 : ℤ) * (4999999995 / 10 ^ 10)) = 0 := by
    rw [roundHalfAwayFromZero_eq]
    have hunits : mathRound (((-1 : ℤ) : ℚ) * (4999999995 / 10 ^ 10) * PRECISION) = -499999999 := by
      unfold PRECISION
      refine Int.floor_eq_iff.mpr ⟨?_, ?_⟩ <;> norm_num
    rw [hunits]
    decide
  rw [hpos, hneg] at hround
  exact absurd hround (by decide)

theorem evenHanded_iff_yen : EvenHanded ascii 150 (js "USD") (js "JPY") (-4500) :=
  (evenHanded_iff ascii (-4500) 150 (js "USD") (js "JPY") (by norm_num) (by decide)).mpr (by
    have hexponent : minorUnitExponent ascii (js "JPY") - minorUnitExponent ascii (js "USD") = -2 := by decide
    intro n hn
    unfold factor at hn
    rw [hexponent] at hn
    norm_num at hn
    have hcast : (n : ℚ) * 2000000000 = 13499000000001 := by linarith
    have hnat : n * 2000000000 = 13499000000001 := by exact_mod_cast hcast
    omega)

end Books

end EasyDocket
