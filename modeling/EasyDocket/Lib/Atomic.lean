import Mathlib.Logic.Relation
import Mathlib.Logic.Function.Basic
import Mathlib.Tactic.Common

/-!
# Atomic objects

An object whose operations take effect at once, called by several parties.  A call is made, acts on the object at some
moment, and returns what it was answered; or it returns with an excuse, and has not acted.  A system whose calls can be
seen as such calls, with the same events in the same order, is a refinement of the object.
-/

namespace EasyDocket

/-- What can be seen of the calls, and what is noted beside them. -/
inductive CallEvent (D N R : Type)
  | called (d : D)
  | noted (n : N)
  | returned (d : D) (r : R)

/-- An object of states `σ` with operations `O`, called by parties `D`, with answers `A`, returned values `R` and
notes `N`. -/
structure Atomic (D O N A R σ : Type) where
  /-- The operation that a party calls. -/
  op : D → O
  apply : O → σ → A × σ
  /-- What a party may return that was answered. -/
  answers : D → A → R → Prop
  /-- What a party may return that has not acted. -/
  excuses : List (CallEvent D N R) → D → R → Prop

namespace Atomic

variable {D O N A R σ : Type}

/-- The object, the calls under way with their answers, everything that has acted, and the events. -/
structure State (D N A R σ : Type) where
  object : σ
  calls : D → Option (Option A)
  acts : List (D × A)
  events : List (CallEvent D N R)

namespace State

variable [DecidableEq D] (s : State D N A R σ) (d : D)

def call : State D N A R σ :=
  { s with calls := Function.update s.calls d (some none), events := s.events ++ [.called d] }

def note (n : N) : State D N A R σ := { s with events := s.events ++ [.noted n] }

def act (T : Atomic D O N A R σ) : State D N A R σ :=
  { s with
    object := (T.apply (T.op d) s.object).2
    calls := Function.update s.calls d (some (some (T.apply (T.op d) s.object).1))
    acts := s.acts ++ [(d, (T.apply (T.op d) s.object).1)] }

def finish (r : R) : State D N A R σ :=
  { s with calls := Function.update s.calls d none, events := s.events ++ [.returned d r] }

/-- The call never returns. -/
def lose : State D N A R σ := { s with calls := Function.update s.calls d none }

end State

variable [DecidableEq D] (T : Atomic D O N A R σ)

inductive Step : State D N A R σ → State D N A R σ → Prop
  | call (s : State D N A R σ) (d : D) (h : s.calls d = none) : Step s (s.call d)
  | note (s : State D N A R σ) (n : N) : Step s (s.note n)
  | act (s : State D N A R σ) (d : D) (h : s.calls d = some none) : Step s (s.act d T)
  | answer (s : State D N A R σ) (d : D) (a : A) (r : R) (h : s.calls d = some (some a)) (hr : T.answers d a r) :
      Step s (s.finish d r)
  | excuse (s : State D N A R σ) (d : D) (r : R) (h : s.calls d = some none) (hr : T.excuses s.events d r) :
      Step s (s.finish d r)
  | lose (s : State D N A R σ) (d : D) : Step s (s.lose d)

def Reach : State D N A R σ → State D N A R σ → Prop := Relation.ReflTransGen T.Step

/-- What the object comes to by some acts. -/
def replay (acts : List (D × A)) (object : σ) : σ := acts.foldl (fun o a => (T.apply (T.op a.1) o).2) object

/-- Every act was answered by the object as it was then. -/
def Answered : List (D × A) → σ → Prop
  | [], _ => True
  | (d, a) :: acts, object => a = (T.apply (T.op d) object).1 ∧ Answered acts (T.apply (T.op d) object).2

omit [DecidableEq D] in
theorem answered_concat {acts : List (D × A)} {object : σ} {d : D} {a : A} (h : T.Answered acts object)
    (ha : a = (T.apply (T.op d) (T.replay acts object)).1) : T.Answered (acts ++ [(d, a)]) object := by
  induction acts generalizing object with
  | nil => exact ⟨ha, trivial⟩
  | cons x acts ih => exact ⟨h.1, ih h.2 ha⟩

omit [DecidableEq D] in
/-- Every act among others was answered by what the acts before it had come to. -/
theorem Answered.at {before after : List (D × A)} {object : σ} {d : D} {a : A}
    (h : T.Answered (before ++ (d, a) :: after) object) :
    T.Answered before object ∧ a = (T.apply (T.op d) (T.replay before object)).1 := by
  induction before generalizing object with
  | nil => exact ⟨trivial, h.1⟩
  | cons x before ih =>
    obtain ⟨hbefore, ha⟩ := ih h.2
    exact ⟨⟨h.1, hbefore⟩, ha⟩

omit [DecidableEq D] in
theorem replay_concat (acts : List (D × A)) (d : D) (a : A) (object : σ) :
    T.replay (acts ++ [(d, a)]) object = (T.apply (T.op d) (T.replay acts object)).2 := by
  unfold replay
  rw [List.foldl_append]
  rfl

variable {T}

/-- What the calls have done is what their acts do one after the other. -/
theorem Reach.replay {s s' : State D N A R σ} (h : T.Reach s s') :
    ∃ acts, s'.acts = s.acts ++ acts ∧ s'.object = T.replay acts s.object ∧ T.Answered acts s.object := by
  induction h with
  | refl => exact ⟨[], (List.append_nil _).symm, rfl, trivial⟩
  | tail _ hstep ih =>
    obtain ⟨acts, hacts, hobject, hanswered⟩ := ih
    cases hstep with
    | act d h =>
      refine ⟨acts ++ [(d, _)], ?_, ?_, T.answered_concat hanswered (by rw [← hobject])⟩
      · show _ ++ [_] = _
        rw [hacts, List.append_assoc]
      · show (T.apply (T.op d) _).2 = _
        rw [Atomic.replay, List.foldl_append, hobject]
        rfl
    | _ => exact ⟨acts, hacts, hobject, hanswered⟩

end Atomic

end EasyDocket
