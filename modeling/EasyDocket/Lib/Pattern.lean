import Mathlib.Algebra.BigOperators.Group.List.Basic
import Mathlib.Algebra.Order.BigOperators.Group.List
import Mathlib.Algebra.Order.Group.Nat
import Mathlib.Algebra.GroupWithZero.Nat
import Mathlib.Data.Fin.Basic
import Mathlib.Data.Finset.Basic
import Mathlib.Data.Finset.Dedup
import Mathlib.Data.Finset.Insert
import Mathlib.Data.List.Basic
import Mathlib.Data.List.Infix
import Mathlib.Data.List.Lex
import Mathlib.Data.List.MinMax
import Mathlib.Data.List.Perm.Subperm
import Mathlib.Data.List.Sort
import Mathlib.Data.List.TakeWhile
import Mathlib.Data.Prod.Lex
import Mathlib.Data.Set.Insert
import Mathlib.Logic.Function.Basic
import Mathlib.Logic.Relation
import Mathlib.Order.Fin.Basic
import Mathlib.Order.Lattice
import Mathlib.Tactic.Common

/-!
# Patterns

An anchored regular expression that is a sequence of character classes, each repeated a bounded number of times, which
is what formats of names and stamps are written in.
-/

namespace EasyDocket

/-- There are bytes. -/
instance neZero_byte : NeZero 256 := ⟨by decide⟩

/-- There are code units of two bytes. -/
instance neZero_codeUnit : NeZero 65536 := ⟨by decide⟩

/-- A character class, repeated between `atLeast` and `atMost` times. -/
structure Piece (α : Type) where
  accepts : α → Bool
  atLeast : ℕ
  atMost : ℕ

/-- Pieces that follow one another. -/
abbrev Pattern (α : Type) := List (Piece α)

namespace Pattern

variable {α : Type}

/-- Whether the whole of a string matches. -/
def isMatch : Pattern α → List α → Bool
  | [], s => s.isEmpty
  | p :: ps, s => (List.range (p.atMost + 1)).any (fun n =>
      decide (p.atLeast ≤ n) && decide (n ≤ s.length) && (s.take n).all p.accepts && isMatch ps (s.drop n))

/-- A string as it is written. -/
def literal [DecidableEq α] (w : List α) : Pattern α := w.map (fun a => ⟨(· = a), 1, 1⟩)

theorem isMatch_nil {s : List α} : isMatch [] s = true ↔ s = [] := List.isEmpty_iff

theorem isMatch_cons {p : Piece α} {ps : Pattern α} {s : List α} : isMatch (p :: ps) s = true ↔
    ∃ a b, s = a ++ b ∧ p.atLeast ≤ a.length ∧ a.length ≤ p.atMost ∧ (∀ x ∈ a, p.accepts x = true) ∧
      isMatch ps b = true := by
  rw [isMatch, List.any_eq_true]
  constructor
  · rintro ⟨n, hn, h⟩
    simp only [Bool.and_eq_true, decide_eq_true_eq, List.all_eq_true] at h
    obtain ⟨⟨⟨h1, h2⟩, h3⟩, h4⟩ := h
    have hlen : (s.take n).length = n := by rw [List.length_take, Nat.min_eq_left h2]
    refine ⟨s.take n, s.drop n, (List.take_append_drop n s).symm, ?_, ?_, h3, h4⟩
    · rw [hlen]
      exact h1
    · rw [hlen]
      exact Nat.lt_succ_iff.mp (List.mem_range.mp hn)
  · rintro ⟨a, b, rfl, h1, h2, h3, h4⟩
    refine ⟨a.length, List.mem_range.mpr (Nat.lt_succ_iff.mpr h2), ?_⟩
    simp only [Bool.and_eq_true, decide_eq_true_eq, List.all_eq_true, List.take_left, List.drop_left]
    exact ⟨⟨⟨h1, by rw [List.length_append]; omega⟩, h3⟩, h4⟩

theorem isMatch_append {ps qs : Pattern α} {s : List α} :
    isMatch (ps ++ qs) s = true ↔ ∃ a b, s = a ++ b ∧ isMatch ps a = true ∧ isMatch qs b = true := by
  induction ps generalizing s with
  | nil =>
    constructor
    · exact fun h => ⟨[], s, rfl, rfl, h⟩
    · rintro ⟨a, b, rfl, ha, hb⟩
      rw [isMatch_nil.mp ha]
      exact hb
  | cons p ps ih =>
    rw [List.cons_append, isMatch_cons]
    constructor
    · rintro ⟨a, b, rfl, h1, h2, h3, h4⟩
      obtain ⟨c, d, rfl, hc, hd⟩ := ih.mp h4
      exact ⟨a ++ c, d, (List.append_assoc a c d).symm, isMatch_cons.mpr ⟨a, c, rfl, h1, h2, h3, hc⟩, hd⟩
    · rintro ⟨c, d, rfl, hc, hd⟩
      obtain ⟨a, b, rfl, h1, h2, h3, h4⟩ := isMatch_cons.mp hc
      exact ⟨a, b ++ d, List.append_assoc a b d, h1, h2, h3, ih.mpr ⟨b, d, rfl, h4, hd⟩⟩

theorem isMatch_literal [DecidableEq α] {w s : List α} : isMatch (literal w) s = true ↔ s = w := by
  induction w generalizing s with
  | nil => exact isMatch_nil
  | cons a w ih =>
    show isMatch (_ :: literal w) s = true ↔ _
    rw [isMatch_cons]
    constructor
    · rintro ⟨x, b, rfl, h1, h2, h3, h4⟩
      obtain ⟨c, rfl⟩ := List.length_eq_one_iff.mp (Nat.le_antisymm h2 h1)
      have hc : c = a := of_decide_eq_true (h3 c (List.mem_singleton.mpr rfl))
      rw [ih.mp h4, hc]
      rfl
    · rintro rfl
      refine ⟨[a], w, rfl, Nat.le_refl 1, Nat.le_refl 1, fun x hx => ?_, ih.mpr rfl⟩
      rw [List.mem_singleton.mp hx]
      exact decide_eq_true rfl

/-- A single class, and what follows. -/
theorem isMatch_singleton {p : Piece α} {s : List α} : isMatch [p] s = true ↔
    p.atLeast ≤ s.length ∧ s.length ≤ p.atMost ∧ ∀ x ∈ s, p.accepts x = true := by
  rw [isMatch_cons]
  constructor
  · rintro ⟨a, b, rfl, h1, h2, h3, h4⟩
    rw [isMatch_nil.mp h4, List.append_nil]
    exact ⟨h1, h2, h3⟩
  · rintro ⟨h1, h2, h3⟩
    exact ⟨s, [], (List.append_nil s).symm, h1, h2, h3, rfl⟩

/-- What all classes accept only, a match consists of. -/
theorem forall_of_isMatch {p : α → Prop} {ps : Pattern α} {s : List α} (hp : ∀ q ∈ ps, ∀ x, q.accepts x = true → p x)
    (h : isMatch ps s = true) : ∀ x ∈ s, p x := by
  induction ps generalizing s with
  | nil =>
    rw [isMatch_nil.mp h]
    exact fun x hx => absurd hx List.not_mem_nil
  | cons q ps ih =>
    obtain ⟨a, b, rfl, -, -, ha, hb⟩ := isMatch_cons.mp h
    intro x hx
    rcases List.mem_append.mp hx with hx | hx
    · exact hp q List.mem_cons_self x (ha x hx)
    · exact ih (fun r hr => hp r (List.mem_cons_of_mem _ hr)) hb x hx

/-- The lengths between which matches are. -/
def shortest : Pattern α → ℕ
  | [] => 0
  | p :: ps => p.atLeast + shortest ps

def longest : Pattern α → ℕ
  | [] => 0
  | p :: ps => p.atMost + longest ps

theorem length_of_isMatch {ps : Pattern α} {s : List α} (h : isMatch ps s = true) :
    shortest ps ≤ s.length ∧ s.length ≤ longest ps := by
  induction ps generalizing s with
  | nil =>
    rw [isMatch_nil.mp h]
    exact ⟨le_refl 0, le_refl 0⟩
  | cons p ps ih =>
    obtain ⟨a, b, rfl, hleast, hmost, -, hb⟩ := isMatch_cons.mp h
    obtain ⟨hshort, hlong⟩ := ih hb
    rw [List.length_append]
    unfold shortest longest
    omega

end Pattern

end EasyDocket
