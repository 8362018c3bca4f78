import Mathlib.Tactic.Common

/-!
# Stateful computations that may fail

A computation over a state that ends with a result or an error, and keeps what it did to the state either way.
-/

namespace EasyDocket

/-- A computation on states `σ` with errors `ε`. -/
def Failing (σ ε α : Type) : Type := σ → Except ε α × σ

namespace Failing

variable {σ ε α β : Type}

instance : Monad (Failing σ ε) where
  pure a := fun s => (.ok a, s)
  bind x f := fun s =>
    match x s with
    | (.ok a, s') => f a s'
    | (.error e, s') => (.error e, s')

def fail (e : ε) : Failing σ ε α := fun s => (.error e, s)

def current : Failing σ ε σ := fun s => (.ok s, s)

def change (f : σ → σ) : Failing σ ε Unit := fun s => (.ok (), f s)

@[simp] theorem pure_apply (a : α) (s : σ) : (pure a : Failing σ ε α) s = (.ok a, s) := rfl

@[simp] theorem fail_apply (e : ε) (s : σ) : (fail e : Failing σ ε α) s = (.error e, s) := rfl

@[simp] theorem current_apply (s : σ) : (current : Failing σ ε σ) s = (.ok s, s) := rfl

@[simp] theorem change_apply (f : σ → σ) (s : σ) : (change f : Failing σ ε Unit) s = (.ok (), f s) := rfl

theorem bind_apply (x : Failing σ ε α) (f : α → Failing σ ε β) (s : σ) : (x >>= f) s = match x s with
    | (.ok a, s') => f a s'
    | (.error e, s') => (.error e, s') := rfl

theorem bind_error {x : Failing σ ε α} {f : α → Failing σ ε β} {s s' : σ} {e : ε} (h : x s = (.error e, s')) :
    (x >>= f) s = (.error e, s') := by
  rw [bind_apply, h]

@[simp] theorem pure_bind_apply (a : α) (f : α → Failing σ ε β) (s : σ) : ((pure a : Failing σ ε α) >>= f) s = f a s := rfl

@[simp] theorem fail_bind_apply (e : ε) (f : α → Failing σ ε β) (s : σ) :
    ((fail e : Failing σ ε α) >>= f) s = (.error e, s) := rfl

@[simp] theorem current_bind_apply (f : σ → Failing σ ε β) (s : σ) : ((current : Failing σ ε σ) >>= f) s = f s s := rfl

@[simp] theorem change_bind_apply (g : σ → σ) (f : Unit → Failing σ ε β) (s : σ) :
    ((change g : Failing σ ε Unit) >>= f) s = f () (g s) := rfl

end Failing

end EasyDocket
