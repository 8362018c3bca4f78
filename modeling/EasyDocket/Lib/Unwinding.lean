import Mathlib.Data.List.Basic
import Mathlib.Tactic.Common

/-!
# Unwinding

A service answers requests one after the other, each on behalf of a domain.  If a request shows and changes only what
its own domain sees, then what a domain is answered does not depend on the requests of the others.
-/

namespace EasyDocket

/-- A service over states `S`. -/
structure Service (D R O S : Type) where
  domain : R → D
  serve : R → S → O × S

namespace Service

variable {D R O S : Type} [DecidableEq D] (T : Service D R O S)

/-- Every request with its answer. -/
def answers : List R → S → List (R × O)
  | [], _ => []
  | r :: rs, s => (r, (T.serve r s).1) :: answers rs (T.serve r s).2

omit [DecidableEq D] in
theorem answers_cons (r : R) (rs : List R) (s : S) :
    T.answers (r :: rs) s = (r, (T.serve r s).1) :: T.answers rs (T.serve r s).2 := rfl

/-- What is answered to a domain. -/
def answersTo (d : D) (rs : List R) (s : S) : List (R × O) := (T.answers rs s).filter (fun a => T.domain a.1 = d)

/-- Two states look the same to a domain. -/
structure Unwinds (same : D → S → S → Prop) : Prop where
  refl : ∀ d s, same d s s
  trans : ∀ {d s₁ s₂ s₃}, same d s₁ s₂ → same d s₂ s₃ → same d s₁ s₃
  /-- A request is answered from what its domain sees, and leaves what its domain sees determined by that. -/
  own : ∀ r s t, same (T.domain r) s t → (T.serve r s).1 = (T.serve r t).1 ∧ same (T.domain r) (T.serve r s).2 (T.serve r t).2
  /-- Nobody else sees a request. -/
  others : ∀ r d s, T.domain r ≠ d → same d (T.serve r s).2 s

variable {T}

/-- From states that look the same, requests of the others may be left out; by induction on the requests. -/
theorem answersTo_filter_of_same {same : D → S → S → Prop} (h : T.Unwinds same) (d : D) :
    ∀ (rs : List R) (s t : S), same d s t →
      T.answersTo d rs s = T.answers (rs.filter (fun r => T.domain r = d)) t
  | [], _, _, _ => rfl
  | r :: rs, s, t, hst => by
    have hcons : T.answersTo d (r :: rs) s =
        (if T.domain r = d then [(r, (T.serve r s).1)] else []) ++ T.answersTo d rs (T.serve r s).2 := by
      unfold answersTo
      rw [answers_cons]
      by_cases hd : T.domain r = d <;> simp [hd]
    rw [hcons]
    by_cases hd : T.domain r = d
    · subst hd
      obtain ⟨hanswer, hafter⟩ := h.own r s t hst
      rw [if_pos rfl, List.filter_cons_of_pos (by simp), answers_cons, hanswer,
        answersTo_filter_of_same h _ rs _ _ hafter]
      rfl
    · rw [if_neg hd, List.filter_cons_of_neg (by simpa using hd)]
      exact answersTo_filter_of_same h d rs _ t (h.trans (h.others r d s hd) hst)

/-- What a domain is answered is what it is answered alone. -/
theorem answersTo_filter {same : D → S → S → Prop} (h : T.Unwinds same) (d : D) (rs : List R) (s : S) :
    T.answersTo d rs s = T.answers (rs.filter (fun r => T.domain r = d)) s :=
  answersTo_filter_of_same h d rs s s (h.refl d s)

end Service

end EasyDocket
