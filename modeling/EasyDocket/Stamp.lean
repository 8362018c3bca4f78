import EasyDocket.JsString
import Mathlib.Data.Prod.Lex

/-!
# Stamps

A hybrid logical clock stamp as its three parts, ordered by physical time, then counter, then device.  The encoded
form of `EasyDocket.Hlc` orders the same way (`encodeHlc_lt_iff`), so the ledger and the sync engine, which only ever
compare stamps and fold them into a clock, are modelled over the parts.
-/

namespace EasyDocket

/-- A decoded stamp. -/
structure Stamp where
  physical : ℕ
  counter : ℕ
  device : JsString
  deriving DecidableEq

namespace Stamp

/-- Physical time and counter, the part of a stamp a clock keeps. -/
def time (s : Stamp) : ℕ ×ₗ ℕ := toLex (s.physical, s.counter)

def key (s : Stamp) : (ℕ ×ₗ ℕ) ×ₗ JsString := toLex (s.time, s.device)

theorem key_injective : Function.Injective key := by
  rintro ⟨p, c, d⟩ ⟨p', c', d'⟩ h
  have h1 : (p, c) = (p', c') := congrArg (fun k => ofLex (ofLex k).1) h
  have h2 : d = d' := congrArg (fun k => (ofLex k).2) h
  rw [(Prod.mk.inj h1).1, (Prod.mk.inj h1).2, h2]

/-- Compare part by part. -/
def blt (a b : Stamp) : Bool :=
  Nat.blt a.physical b.physical || (Nat.beq a.physical b.physical &&
    (Nat.blt a.counter b.counter || (Nat.beq a.counter b.counter && decide (a.device < b.device))))

theorem blt_iff {a b : Stamp} : a.blt b = true ↔ a.key < b.key := by
  rw [key, key, Prod.Lex.toLex_lt_toLex, time, time, Prod.Lex.toLex_lt_toLex, EmbeddingLike.apply_eq_iff_eq]
  simp only [blt, Bool.or_eq_true, Bool.and_eq_true, Nat.blt_eq, Nat.beq_eq, decide_eq_true_eq,
    Prod.mk.injEq]
  tauto

instance : PartialOrder Stamp := PartialOrder.lift key key_injective

instance : LinearOrder Stamp where
  le_total := fun a b => le_total a.key b.key
  toDecidableEq := inferInstance
  toDecidableLE := fun a b => decidable_of_iff (b.blt a = false) (by
    rw [← Bool.not_eq_true, blt_iff]
    exact not_lt)
  toDecidableLT := fun a b => decidable_of_iff (a.blt b = true) blt_iff

theorem lt_iff {a b : Stamp} : a < b ↔ a.time < b.time ∨ a.time = b.time ∧ a.device < b.device :=
  Prod.Lex.lt_iff

theorem lt_of_time_lt {a b : Stamp} (h : a.time < b.time) : a < b := lt_iff.mpr (Or.inl h)

theorem time_le_of_le {a b : Stamp} (h : a ≤ b) : a.time ≤ b.time := by
  by_contra hc
  exact absurd (lt_of_time_lt (not_le.mp hc)) (not_lt.mpr h)

theorem time_lt_iff {a b : Stamp} :
    a.time < b.time ↔ a.physical < b.physical ∨ a.physical = b.physical ∧ a.counter < b.counter :=
  Prod.Lex.lt_iff

end Stamp

/-! ## Clocks -/

/-- The largest counter a stamp has room for. -/
def MAX_COUNTER : ℕ := 0xffff

/-- A remote stamp this many milliseconds ahead of the wall clock is a clock fault, not history. -/
def MAX_DRIFT_MS : ℕ := 60 * 60 * 1000

/-- Why a clock refused an event. -/
inductive ClockError
  | drift (ahead : ℕ)
  | malformed
  | overflow
  deriving DecidableEq

/-- The state of a hybrid logical clock that has only met natural numbers. -/
structure Clock where
  physical : ℕ
  counter : ℕ
  deriving DecidableEq

namespace Clock

def zero : Clock := ⟨0, 0⟩

/-- The clock state as a pair, in the order of stamps. -/
def time (c : Clock) : ℕ ×ₗ ℕ := toLex (c.physical, c.counter)

/-- The stamp a device gives at a clock state. -/
def stamp (c : Clock) (device : JsString) : Stamp := ⟨c.physical, c.counter, device⟩

@[simp] theorem stamp_time (c : Clock) (device : JsString) : (c.stamp device).time = c.time := rfl

@[simp] theorem stamp_device (c : Clock) (device : JsString) : (c.stamp device).device = device := rfl

/-- The next counter, unless there is no room for it. -/
def bump (c : Clock) : Except ClockError ℕ :=
  if c.counter + 1 > MAX_COUNTER then .error .overflow else .ok (c.counter + 1)

/-- `tick`: the clock state of the next local event. -/
def tick (wall : ℕ) (c : Clock) : Except ClockError Clock :=
  if wall > c.physical then .ok ⟨wall, 0⟩
  else do
    let counter ← c.bump
    .ok ⟨c.physical, counter⟩

/-- The counter `observe` goes on with, once the physical part is fixed. -/
def observedCounter (physical : ℕ) (c : Clock) (remote : Stamp) : ℕ :=
  if physical = c.physical ∧ physical = remote.physical then max c.counter remote.counter + 1
  else if physical = c.physical then c.counter + 1
  else if physical = remote.physical then remote.counter + 1
  else 0

/-- `observe`: fold a stamp of another device into the clock. -/
def observe (wall : ℕ) (remote : Stamp) (c : Clock) : Except ClockError Clock :=
  if remote.physical - wall > MAX_DRIFT_MS then .error (.drift (remote.physical - wall))
  else
    let physical := max wall (max c.physical remote.physical)
    let counter := observedCounter physical c remote
    if counter > MAX_COUNTER then .error .overflow else .ok ⟨physical, counter⟩

/-- `c` is past `s`: whatever the clock issues next is greater than `s`. -/
def Past (c : Clock) (s : Stamp) : Prop := s.time ≤ c.time

variable {c c' : Clock} {wall : ℕ} {s : Stamp}

theorem time_lt_iff {c c' : Clock} :
    c.time < c'.time ↔ c.physical < c'.physical ∨ c.physical = c'.physical ∧ c.counter < c'.counter :=
  Prod.Lex.lt_iff

theorem past_iff : c.Past s ↔ s.physical < c.physical ∨ s.physical = c.physical ∧ s.counter ≤ c.counter :=
  Prod.Lex.le_iff

instance (c : Clock) (s : Stamp) : Decidable (c.Past s) := decidable_of_iff _ past_iff.symm

/-- A tick moves the clock strictly forward. -/
theorem time_lt_tick (h : c.tick wall = .ok c') : c.time < c'.time := by
  unfold tick at h
  rw [time_lt_iff]
  split_ifs at h with hw
  · cases h; exact Or.inl hw
  · unfold bump at h
    split_ifs at h with hb
    · cases h
    · cases h; exact Or.inr ⟨rfl, Nat.lt_succ_self _⟩

/-- Observing moves the clock strictly forward. -/
theorem time_lt_observe (h : c.observe wall s = .ok c') : c.time < c'.time := by
  unfold observe at h
  split_ifs at h with hd
  · simp only at h
    split_ifs at h with hc
    cases h
    rw [time_lt_iff]
    unfold observedCounter
    simp only
    split_ifs <;> omega

/-- The clock is past what it has observed. -/
theorem past_of_observe (h : c.observe wall s = .ok c') : c'.Past s := by
  unfold observe at h
  split_ifs at h with hd
  · simp only at h
    split_ifs at h with hc
    cases h
    rw [past_iff]
    unfold observedCounter
    simp only
    split_ifs <;> omega

theorem Past.mono (h : c.Past s) (hc : c.time ≤ c'.time) : c'.Past s := le_trans h hc

/-- A stamp issued by the next tick is greater than every stamp the clock is past. -/
theorem Past.lt_tick {device : JsString} (h : c.Past s) (ht : c.tick wall = .ok c') : s < c'.stamp device :=
  Stamp.lt_of_time_lt (lt_of_le_of_lt h (time_lt_tick ht))

theorem past_stamp (c : Clock) (device : JsString) : c.Past (c.stamp device) := le_refl c.time

end Clock

end EasyDocket
