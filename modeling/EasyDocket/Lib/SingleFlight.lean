import Mathlib.Logic.Function.Basic
import Mathlib.Tactic.Common

/-!
# Sharing what is under way

`inFlight ??= run().finally(() => { inFlight = null })`: whoever calls while a run is under way gets the promise of that
run.  A run settles first and is cleared after that, so that callers may still join one that has settled.
-/

namespace EasyDocket

/-- A field that holds the promise of what is under way.  Runs are numbered in the order in which they begin. -/
structure Flights (R : Type) where
  /-- The run whose promise is held, and its outcome once it has settled. -/
  inFlight : Option (ℕ × Option R)
  begun : ℕ
  /-- What the promises of runs that were cleared resolved to. -/
  outcome : ℕ → Option R

namespace Flights

variable {R : Type} {f f' : Flights R} {k : ℕ} {r : R}

def initial : Flights R := ⟨none, 0, fun _ => none⟩

/-- Call: the number of the run whose promise the caller gets. -/
def join (f : Flights R) : ℕ × Flights R :=
  match f.inFlight with
  | some (k, _) => (k, f)
  | none => (f.begun, ⟨some (f.begun, none), f.begun + 1, f.outcome⟩)

/-- The run that is under way comes to an end. -/
def settle (f : Flights R) (r : R) : Flights R :=
  match f.inFlight with
  | some (k, none) => { f with inFlight := some (k, some r) }
  | _ => f

/-- The promise resolves, and the field is cleared. -/
def clear (f : Flights R) : Flights R :=
  match f.inFlight with
  | some (k, some r) => ⟨none, f.begun, Function.update f.outcome k (some r)⟩
  | _ => f

/-- Whoever waited is gone. -/
def lose (f : Flights R) : Flights R := { f with inFlight := none }

/-- A run is under way. -/
def Flying (f : Flights R) : Prop := ∃ k, f.inFlight = some (k, none)

/-- A run whose promise resolves, or has resolved. -/
def Joined (f : Flights R) (k : ℕ) : Prop := (∃ o, f.inFlight = some (k, o)) ∨ (f.outcome k).isSome = true

/-- A run has come to an end with an outcome. -/
def Ended (f : Flights R) (k : ℕ) (r : R) : Prop := f.inFlight = some (k, some r) ∨ f.outcome k = some r

/-- Only the newest run may be in flight, and runs to come have no outcome. -/
structure Sound (f : Flights R) : Prop where
  newest : ∀ k o, f.inFlight = some (k, o) → k + 1 = f.begun
  past : ∀ k r, f.outcome k = some r → k < f.begun

theorem sound_initial : (initial : Flights R).Sound := ⟨nofun, nofun⟩

theorem join_of_some {o : Option R} (h : f.inFlight = some (k, o)) : f.join = (k, f) := by
  unfold join
  rw [h]

theorem join_of_none (h : f.inFlight = none) : f.join = (f.begun, ⟨some (f.begun, none), f.begun + 1, f.outcome⟩) := by
  unfold join
  rw [h]

theorem settle_of_flying (h : f.inFlight = some (k, none)) : f.settle r = { f with inFlight := some (k, some r) } := by
  unfold settle
  rw [h]

/-- A run that clears has settled; else nothing happens. -/
theorem clear_cases (f : Flights R) : f.clear = f ∨
    ∃ k r, f.inFlight = some (k, some r) ∧ f.clear = ⟨none, f.begun, Function.update f.outcome k (some r)⟩ := by
  unfold clear
  cases h : f.inFlight with
  | none => exact Or.inl rfl
  | some p =>
    obtain ⟨k, o⟩ := p
    cases o with
    | none => exact Or.inl rfl
    | some r => exact Or.inr ⟨k, r, rfl, rfl⟩

theorem Sound.join (h : f.Sound) : f.join.2.Sound := by
  cases hf : f.inFlight with
  | none =>
    rw [join_of_none hf]
    refine ⟨fun k o hk => ?_, fun k r hk => Nat.lt_succ_of_lt (h.past k r hk)⟩
    cases hk
    rfl
  | some p => rw [join_of_some hf]; exact h

theorem Sound.settle (h : f.Sound) (hf : f.inFlight = some (k, none)) : (f.settle r).Sound := by
  rw [settle_of_flying hf]
  refine ⟨fun j o hj => ?_, h.past⟩
  cases hj
  exact h.newest k none hf

theorem Sound.clear (h : f.Sound) : f.clear.Sound := by
  rcases clear_cases f with hc | ⟨k, r, hf, hc⟩
  · rw [hc]
    exact h
  · rw [hc]
    refine ⟨nofun, fun j r' (hj : Function.update f.outcome k (some r) j = some r') => ?_⟩
    by_cases hjk : j = k
    · rw [hjk]
      exact (h.newest k _ hf) ▸ Nat.lt_succ_self k
    · rw [Function.update_of_ne hjk] at hj
      exact h.past j r' hj

theorem Sound.lose (h : f.Sound) : f.lose.Sound := ⟨nofun, h.past⟩

/-- What callers wait for stays. -/
structure Later (f f' : Flights R) : Prop where
  begun : f.begun ≤ f'.begun
  joined : ∀ k, f.Joined k → f'.Joined k

theorem Later.refl (f : Flights R) : Later f f := ⟨Nat.le_refl _, fun _ h => h⟩

theorem Later.trans {f'' : Flights R} (h : Later f f') (h' : Later f' f'') : Later f f'' :=
  ⟨Nat.le_trans h.begun h'.begun, fun k hk => h'.joined k (h.joined k hk)⟩

theorem later_join (f : Flights R) : Later f f.join.2 := by
  cases hf : f.inFlight with
  | none =>
    rw [join_of_none hf]
    refine ⟨Nat.le_succ _, fun k hk => ?_⟩
    rcases hk with ⟨o, ho⟩ | ho
    · rw [hf] at ho
      cases ho
    · exact Or.inr ho
  | some p =>
    rw [join_of_some hf]
    exact Later.refl f

theorem later_settle (hf : f.inFlight = some (k, none)) : Later f (f.settle r) := by
  rw [settle_of_flying hf]
  refine ⟨Nat.le_refl _, fun j hj => ?_⟩
  rcases hj with ⟨o, ho⟩ | ho
  · rw [hf] at ho
    cases ho
    exact Or.inl ⟨some r, rfl⟩
  · exact Or.inr ho

theorem later_clear (f : Flights R) : Later f f.clear := by
  rcases clear_cases f with hc | ⟨k, r, hf, hc⟩
  · rw [hc]
    exact Later.refl f
  · rw [hc]
    refine ⟨Nat.le_refl _, fun j hj => Or.inr ?_⟩
    show (Function.update f.outcome k (some r) j).isSome = true
    by_cases hjk : j = k
    · rw [hjk, Function.update_self]
      rfl
    · rw [Function.update_of_ne hjk]
      rcases hj with ⟨o, ho⟩ | ho
      · rw [hf] at ho
        cases ho
        exact absurd rfl hjk
      · exact ho

/-- Clearing ends no run. -/
theorem ended_clear {j : ℕ} {r' : R} (h : f.clear.Ended j r') : f.Ended j r' := by
  rcases clear_cases f with hc | ⟨k, r, hf, hc⟩
  · rwa [hc] at h
  · rw [hc] at h
    rcases h with h | (h : Function.update f.outcome k (some r) j = some r')
    · cases h
    · by_cases hjk : j = k
      · rw [hjk, Function.update_self] at h
        cases h
        exact Or.inl (hjk ▸ hf)
      · rw [Function.update_of_ne hjk] at h
        exact Or.inr h

theorem ended_join {j : ℕ} (h : f.join.2.Ended j r) : f.Ended j r := by
  cases hf : f.inFlight with
  | none =>
    rw [join_of_none hf] at h
    rcases h with h | h
    · cases h
    · exact Or.inr h
  | some p => rwa [join_of_some hf] at h

/-- A run that has come to an end did so before, or does now. -/
theorem ended_settle {j : ℕ} {r' : R} (hf : f.inFlight = some (k, none)) (h : (f.settle r).Ended j r') :
    f.Ended j r' ∨ j = k ∧ r' = r := by
  rw [settle_of_flying hf] at h
  rcases h with h | h
  · cases h
    exact Or.inr ⟨rfl, rfl⟩
  · exact Or.inl (Or.inr h)

end Flights

end EasyDocket
