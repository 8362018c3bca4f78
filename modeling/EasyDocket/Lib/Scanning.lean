import Mathlib.Data.List.Basic
import Mathlib.Tactic.Common

/-!
# Scanners

A loop over a list that reads an element with the one after it in sight, and may skip that one.  `scan_keep` and
`scan_skip` are its steps, `scan_rel` relates two loops that skip alike, and `scan_inv` says what a loop keeps that may
depend on what is left to read.
-/

namespace EasyDocket

namespace Scanning

variable {α σ τ : Type} {read : σ → α → Option α → σ × Bool} {read' : τ → α → Option α → τ × Bool} {s s' : σ} {c d : α}
  {rest : List α}

/-- The loop; `read` says what becomes of the state, and whether the next element is skipped. -/
def scan (read : σ → α → Option α → σ × Bool) : List α → σ → σ
  | [], s => s
  | [c], s => (read s c none).1
  | c :: d :: rest, s =>
    if (read s c (some d)).2 then scan read rest (read s c (some d)).1 else scan read (d :: rest) (read s c (some d)).1

theorem scan_keep (h : read s c rest.head? = (s', false)) : scan read (c :: rest) s = scan read rest s' := by
  cases rest with
  | nil =>
    show (read s c none).1 = s'
    rw [show read s c none = (s', false) from h]
  | cons d rest =>
    show (if (read s c (some d)).2 then _ else _) = _
    rw [show read s c (some d) = (s', false) from h]
    rfl

theorem scan_skip (h : read s c (some d) = (s', true)) : scan read (c :: d :: rest) s = scan read rest s' := by
  show (if (read s c (some d)).2 then _ else _) = _
  rw [h]
  rfl

/-- What a step keeps, given what is left to read, the loop keeps; by induction on the list, by two elements. -/
theorem scan_inv {P : List α → σ → Prop}
    (hkeep : ∀ c rest s, P (c :: rest) s → (read s c rest.head?).2 = false → P rest (read s c rest.head?).1)
    (hskip : ∀ c d rest s, P (c :: d :: rest) s → (read s c (some d)).2 = true → P rest (read s c (some d)).1)
    (hlast : ∀ c s, P [c] s → P [] (read s c none).1) :
    ∀ (l : List α) (s : σ), P l s → P [] (scan read l s)
  | [], _, h => h
  | [c], s, h => hlast c s h
  | c :: d :: rest, s, h => by
    show P [] (if (read s c (some d)).2 then _ else _)
    cases hread : (read s c (some d)).2 with
    | true =>
      rw [if_pos rfl]
      exact scan_inv hkeep hskip hlast rest _ (hskip c d rest s h hread)
    | false =>
      rw [if_neg (by decide)]
      exact scan_inv hkeep hskip hlast (d :: rest) _ (hkeep c (d :: rest) s h hread)

/-- Two loops whose steps are related and skip alike are related. -/
theorem scan_rel {R : σ → τ → Prop}
    (h : ∀ s t c n, R s t → R (read s c n).1 (read' t c n).1 ∧ (read s c n).2 = (read' t c n).2) :
    ∀ (l : List α) (s : σ) (t : τ), R s t → R (scan read l s) (scan read' l t)
  | [], _, _, hst => hst
  | [c], s, t, hst => (h s t c none hst).1
  | c :: d :: rest, s, t, hst => by
    obtain ⟨hnext, hskip⟩ := h s t c (some d) hst
    show R (if (read s c (some d)).2 then _ else _) (if (read' t c (some d)).2 then _ else _)
    rw [← hskip]
    split_ifs
    · exact scan_rel h rest _ _ hnext
    · exact scan_rel h (d :: rest) _ _ hnext

end Scanning

end EasyDocket
