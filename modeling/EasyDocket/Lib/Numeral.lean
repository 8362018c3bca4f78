import Mathlib.Algebra.Order.Group.Nat
import Mathlib.Data.List.Induction
import Mathlib.Data.List.Lex
import Mathlib.Order.Basic
import Mathlib.Tactic.Common
import Mathlib.Tactic.Ring

/-!
# Numerals

Numbers as lists of digits, the most significant first.  `numeral` has no leading zeros, `fixed` has a given number of
digits; of numbers that fit, `fixed` is a numeral that is padded, and keeps their order.
-/

namespace EasyDocket

namespace Numeral

/-- The digits of a number, for as many as there may be. -/
def numeralFor (b : ℕ) : ℕ → ℕ → List ℕ
  | 0, n => [n]
  | fuel + 1, n => if n < b then [n] else numeralFor b fuel (n / b) ++ [n % b]

/-- The digits of a number, without leading zeros. -/
def numeral (b n : ℕ) : List ℕ := numeralFor b n.log2 n

/-- The last `w` digits of a number. -/
def fixed (b : ℕ) : ℕ → ℕ → List ℕ
  | 0, _ => []
  | w + 1, n => fixed b w (n / b) ++ [n % b]

/-- Pad at the start. -/
def padStart {α : Type} (w : ℕ) (pad : α) (s : List α) : List α := List.replicate (w - s.length) pad ++ s

/-- The number that digits stand for. -/
def value (b : ℕ) (s : List ℕ) : ℕ := s.foldl (fun n c => b * n + c) 0

variable {b w n m : ℕ}

@[simp] theorem length_fixed : ∀ (w n : ℕ), (fixed b w n).length = w
  | 0, _ => rfl
  | w + 1, n => by
    unfold fixed
    simp [length_fixed w]

theorem mem_fixed (hb : 0 < b) : ∀ (w n : ℕ), ∀ c ∈ fixed b w n, c < b
  | 0, _, _, h => absurd h List.not_mem_nil
  | w + 1, n, c, h => by
    unfold fixed at h
    rcases List.mem_append.mp h with h | h
    · exact mem_fixed hb w _ c h
    · rw [List.mem_singleton.mp h]
      exact Nat.mod_lt _ hb

/-! ## What digits stand for -/

theorem value_append (s : List ℕ) (c : ℕ) : value b (s ++ [c]) = b * value b s + c := by
  unfold value
  rw [List.foldl_append]
  rfl

theorem value_concat (s : List ℕ) : ∀ t : List ℕ, value b (s ++ t) = value b s * b ^ t.length + value b t := by
  intro t
  induction t using List.reverseRecOn with
  | nil => simp [value]
  | append_singleton t c ih =>
    rw [← List.append_assoc, value_append, value_append, ih, List.length_append, List.length_singleton, pow_succ]
    ring

@[simp] theorem value_zeros (k : ℕ) : value b (List.replicate k 0) = 0 := by
  induction k with
  | zero => rfl
  | succ k ih => rw [List.replicate_succ', value_append, ih, Nat.mul_zero]

theorem value_fixed : ∀ (w n : ℕ), n < b ^ w → value b (fixed b w n) = n
  | 0, n, h => by
    have hn : n = 0 := by simpa using h
    rw [hn]
    rfl
  | w + 1, n, h => by
    unfold fixed
    have hdiv : n / b < b ^ w := Nat.div_lt_of_lt_mul (by rw [← pow_succ']; exact h)
    rw [value_append, value_fixed w _ hdiv]
    exact Nat.div_add_mod n b

theorem fixed_value : ∀ (w : ℕ) (s : List ℕ), s.length = w → (∀ c ∈ s, c < b) → fixed b w (value b s) = s
  | 0, s, h, _ => by rw [List.length_eq_zero_iff.mp h]; rfl
  | w + 1, s, h, hs => by
    have hne : s ≠ [] := by
      rintro rfl
      cases h
    obtain ⟨s, c, rfl⟩ : ∃ s' c, s = s' ++ [c] := ⟨s.dropLast, s.getLast hne, (List.dropLast_append_getLast hne).symm⟩
    have hc : c < b := hs c (by simp)
    have hlen : s.length = w := by simpa using h
    have hb : 0 < b := by omega
    unfold fixed
    rw [value_append, Nat.mul_add_div hb, Nat.div_eq_of_lt hc, Nat.add_zero,
      fixed_value w s hlen (fun c hc => hs c (List.mem_append_left _ hc)), Nat.mul_add_mod, Nat.mod_eq_of_lt hc]

theorem value_lt : ∀ (w : ℕ) (s : List ℕ), s.length = w → (∀ c ∈ s, c < b) → value b s < b ^ w
  | 0, s, h, _ => by rw [List.length_eq_zero_iff.mp h]; exact Nat.one_pos
  | w + 1, s, h, hs => by
    have hne : s ≠ [] := by
      rintro rfl
      cases h
    obtain ⟨s, c, rfl⟩ : ∃ s' c, s = s' ++ [c] := ⟨s.dropLast, s.getLast hne, (List.dropLast_append_getLast hne).symm⟩
    have hc : c < b := hs c (by simp)
    have hlen : s.length = w := by simpa using h
    have hlt := value_lt w s hlen (fun c hc => hs c (List.mem_append_left _ hc))
    rw [value_append, pow_succ']
    calc b * value b s + c < b * value b s + b := Nat.add_lt_add_left hc _
      _ = b * (value b s + 1) := by ring
      _ ≤ b * b ^ w := Nat.mul_le_mul_left b hlt

theorem fixed_injective (hn : n < b ^ w) (hm : m < b ^ w) (h : fixed b w n = fixed b w m) : n = m := by
  rw [← value_fixed w n hn, h, value_fixed w m hm]

/-! ## Order -/

theorem lt_append_iff {α : Type} [LinearOrder α] : ∀ {a c s t : List α}, a.length = c.length →
    (a ++ s < c ++ t ↔ a < c ∨ a = c ∧ s < t)
  | [], [], s, t, _ => by simp
  | x :: a, y :: c, s, t, h => by
    have ih := lt_append_iff (s := s) (t := t) (Nat.succ.inj h)
    rw [List.cons_append, List.cons_append, List.cons_lt_cons_iff, List.cons_lt_cons_iff, ih, List.cons.injEq]
    tauto

theorem fixed_lt_iff : ∀ {w n m : ℕ}, n < b ^ w → m < b ^ w → (fixed b w n < fixed b w m ↔ n < m)
  | 0, n, m, hn, hm => by
    have hn0 : n = 0 := by simpa using hn
    have hm0 : m = 0 := by simpa using hm
    rw [hn0, hm0]
    simp [fixed]
  | w + 1, n, m, hn, hm => by
    have hb : 0 < b := by
      by_contra h0
      rw [show b = 0 by omega, pow_succ, Nat.mul_zero] at hn
      exact absurd hn (Nat.not_lt_zero n)
    have hn' : n / b < b ^ w := Nat.div_lt_of_lt_mul (by rw [← pow_succ']; exact hn)
    have hm' : m / b < b ^ w := Nat.div_lt_of_lt_mul (by rw [← pow_succ']; exact hm)
    unfold fixed
    rw [lt_append_iff (by simp), fixed_lt_iff hn' hm']
    have hlast : ([n % b] < [m % b]) ↔ n % b < m % b := by
      rw [List.cons_lt_cons_iff]
      simp
    rw [hlast]
    have hne : fixed b w (n / b) = fixed b w (m / b) ↔ n / b = m / b :=
      ⟨fixed_injective hn' hm', fun h => by rw [h]⟩
    rw [hne]
    have hndiv := Nat.div_add_mod n b
    have hmdiv := Nat.div_add_mod m b
    have hnmod := Nat.mod_lt n hb
    have hmmod := Nat.mod_lt m hb
    constructor
    · rintro (h | ⟨h, h'⟩)
      · have hmul : b * (n / b + 1) ≤ b * (m / b) := Nat.mul_le_mul_left b h
        rw [Nat.mul_add, Nat.mul_one] at hmul
        omega
      · rw [h] at hndiv
        omega
    · intro h
      rcases lt_trichotomy (n / b) (m / b) with hlt | heq | hgt
      · exact Or.inl hlt
      · refine Or.inr ⟨heq, ?_⟩
        rw [heq] at hndiv
        omega
      · have hmul : b * (m / b + 1) ≤ b * (n / b) := Nat.mul_le_mul_left b hgt
        rw [Nat.mul_add, Nat.mul_one] at hmul
        omega

/-- Writing digits out keeps their order, if single digits are. -/
theorem map_lt_map_iff {α γ : Type} [LinearOrder α] [LinearOrder γ] {f : α → γ} {P : α → Prop}
    (hf : ∀ {x y}, P x → P y → (f x < f y ↔ x < y)) :
    ∀ {s t : List α}, (∀ x ∈ s, P x) → (∀ x ∈ t, P x) → (s.map f < t.map f ↔ s < t)
  | [], [], _, _ => by simp
  | [], y :: t, _, _ => by simp
  | x :: s, [], _, _ => by simp
  | x :: s, y :: t, hs, ht => by
    have hx : P x := hs x List.mem_cons_self
    have hy : P y := ht y List.mem_cons_self
    have ih := map_lt_map_iff hf (s := s) (t := t) (fun z hz => hs z (List.mem_cons_of_mem _ hz))
      (fun z hz => ht z (List.mem_cons_of_mem _ hz))
    have heq : f x = f y ↔ x = y := by
      refine ⟨fun h => ?_, fun h => by rw [h]⟩
      by_contra hne
      rcases lt_or_gt_of_ne hne with hlt | hgt
      · exact (ne_of_lt ((hf hx hy).mpr hlt)) h
      · exact (ne_of_lt ((hf hy hx).mpr hgt)) h.symm
    rw [List.map_cons, List.map_cons, List.cons_lt_cons_iff, List.cons_lt_cons_iff, hf hx hy, heq, ih]

/-! ## Numerals -/

theorem value_numeral : value b (numeral b n) = n := by
  suffices h : ∀ fuel n, value b (numeralFor b fuel n) = n from h _ n
  intro fuel
  induction fuel with
  | zero => exact fun n => by simp [numeralFor, value]
  | succ fuel ih =>
    intro n
    unfold numeralFor
    by_cases hn : n < b
    · rw [if_pos hn]
      simp [value]
    · rw [if_neg hn, value_append, ih]
      exact Nat.div_add_mod n b

theorem numeral_ne_nil : numeral b n ≠ [] := by
  unfold numeral
  cases n.log2 with
  | zero => exact List.cons_ne_nil _ _
  | succ fuel =>
    unfold numeralFor
    split
    · exact List.cons_ne_nil _ _
    · exact List.append_ne_nil_of_right_ne_nil _ (List.cons_ne_nil _ _)

theorem mem_numeral (hb : 2 ≤ b) : ∀ d ∈ numeral b n, d < b := by
  suffices h : ∀ fuel n, n < 2 ^ (fuel + 1) → ∀ d ∈ numeralFor b fuel n, d < b from h _ n Nat.lt_log2_self
  intro fuel
  induction fuel with
  | zero =>
    intro n hn d hd
    rw [List.mem_singleton.mp hd]
    omega
  | succ fuel ih =>
    intro n hn d hd
    unfold numeralFor at hd
    by_cases hlt : n < b
    · rw [if_pos hlt] at hd
      rw [List.mem_singleton.mp hd]
      exact hlt
    · rw [if_neg hlt] at hd
      have hdiv : n / b < 2 ^ (fuel + 1) := by
        have hhalf : n / b ≤ n / 2 := Nat.div_le_div_left hb (by omega)
        have hpow : (2 : ℕ) ^ (fuel + 1 + 1) = 2 ^ (fuel + 1) * 2 := pow_succ 2 _
        omega
      rcases List.mem_append.mp hd with hd | hd
      · exact ih _ hdiv d hd
      · rw [List.mem_singleton.mp hd]
        exact Nat.mod_lt _ (by omega)

/-- A number with many digits is large. -/
theorem lt_pow_length (hb : 2 ≤ b) (n : ℕ) : n < b ^ (numeral b n).length := by
  have hlt := value_lt _ (numeral b n) rfl (mem_numeral hb)
  rwa [value_numeral] at hlt

/-! ## Padded numerals -/

theorem fixed_of_lt (hb : 0 < b) : ∀ (w : ℕ) {n : ℕ}, n < b → fixed b (w + 1) n = List.replicate w 0 ++ [n]
  | 0, n, h => by
    unfold fixed
    rw [Nat.mod_eq_of_lt h]
    rfl
  | w + 1, n, h => by
    unfold fixed
    rw [Nat.div_eq_of_lt h, fixed_of_lt hb w hb, Nat.mod_eq_of_lt h, ← List.replicate_succ']

/-- A number that fits, padded with zeros, by induction on the bound of its digits. -/
theorem padStart_numeralFor (hb : 2 ≤ b) : ∀ (fuel w n : ℕ), n < 2 ^ (fuel + 1) → n < b ^ (w + 1) →
    (numeralFor b fuel n).length ≤ w + 1 ∧ padStart (w + 1) 0 (numeralFor b fuel n) = fixed b (w + 1) n
  | 0, w, n, hn, _ => by
    have hlt : n < b := by
      have h2 : n < 2 := by simpa using hn
      omega
    unfold numeralFor padStart
    refine ⟨by simp, ?_⟩
    rw [fixed_of_lt (by omega) w hlt]
    rfl
  | fuel + 1, w, n, hn, hw => by
    unfold numeralFor
    by_cases hlt : n < b
    · rw [if_pos hlt]
      refine ⟨by simp, ?_⟩
      rw [fixed_of_lt (by omega) w hlt]
      rfl
    · rw [if_neg hlt]
      cases w with
      | zero => exact absurd (by simpa using hw) hlt
      | succ w =>
        have hdiv : n / b < 2 ^ (fuel + 1) := by
          have h2 : n / b ≤ n / 2 := Nat.div_le_div_left hb (by omega)
          have hpow : (2 : ℕ) ^ (fuel + 1 + 1) = 2 ^ (fuel + 1) * 2 := pow_succ 2 _
          omega
        have hdivw : n / b < b ^ (w + 1) := Nat.div_lt_of_lt_mul (by rw [← pow_succ']; exact hw)
        obtain ⟨hlen, hpad⟩ := padStart_numeralFor hb fuel w (n / b) hdiv hdivw
        refine ⟨by simp only [List.length_append, List.length_singleton]; omega, ?_⟩
        rw [show fixed b (w + 1 + 1) n = fixed b (w + 1) (n / b) ++ [n % b] from rfl, ← hpad]
        unfold padStart
        rw [List.length_append, List.length_singleton, Nat.add_sub_add_right, List.append_assoc]

/-- A number that fits, padded with zeros. -/
theorem padStart_numeral (hb : 2 ≤ b) (h : n < b ^ w) (hw : 0 < w) : padStart w 0 (numeral b n) = fixed b w n := by
  cases w with
  | zero => exact absurd hw (Nat.lt_irrefl 0)
  | succ w => exact (padStart_numeralFor hb n.log2 w n (Nat.lt_log2_self) h).2

theorem padStart_map {α β : Type} (f : α → β) (w : ℕ) (pad : α) (s : List α) :
    (padStart w pad s).map f = padStart w (f pad) (s.map f) := by
  unfold padStart
  rw [List.map_append, List.map_replicate, List.length_map]

end Numeral

end EasyDocket
