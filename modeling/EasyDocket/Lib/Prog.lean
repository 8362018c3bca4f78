import Mathlib.Logic.Relation
import Mathlib.Logic.Function.Basic
import Mathlib.Tactic.Common

/-!
# Programs that ask requests

A `Prog` is a program that asks requests of its surroundings one at a time and goes on with the reply, or with the
error a request failed with.  Between two requests anything may happen to the store the requests act on.

* `Prog.run` runs a program against a handler, undisturbed.
* `Protocol.wp` is the rely-guarantee weakest precondition: whatever the surroundings do within `rely`, every
  request is asked in a state satisfying `pre`, and the program ends in `post` or `xpost`.
* `Threads` is a system of named programs over one store, interleaved with each other and with steps of the
  environment.  `Sound.reach` carries an invariant and the preconditions of every request through all its runs.
-/

namespace EasyDocket

/-- A program over requests `q : Q` with replies `A q`, errors `ε` and result `α`. -/
inductive Prog (Q : Type) (A : Q → Type) (ε α : Type) : Type
  | pure (a : α)
  | throw (e : ε)
  | ask (q : Q) (k : Except ε (A q) → Prog Q A ε α)

namespace Prog

variable {Q : Type} {A : Q → Type} {ε α β S : Type}

/-! ## Programs as a monad -/

def bind : Prog Q A ε α → (α → Prog Q A ε β) → Prog Q A ε β
  | pure a, f => f a
  | throw e, _ => throw e
  | ask q k, f => ask q (fun r => (k r).bind f)

/-- `try p catch h`: an error of `p` is handed to `h`. -/
def tryCatch : Prog Q A ε α → (ε → Prog Q A ε α) → Prog Q A ε α
  | pure a, _ => pure a
  | throw e, h => h e
  | ask q k, h => ask q (fun r => (k r).tryCatch h)

instance : Monad (Prog Q A ε) where
  pure := Prog.pure
  bind := Prog.bind

instance : MonadExcept ε (Prog Q A ε) where
  throw := Prog.throw
  tryCatch := Prog.tryCatch

/-- Ask one request; its failure is the program's failure. -/
def request (q : Q) : Prog Q A ε (A q) :=
  ask q (fun r => match r with | .ok a => pure a | .error e => throw e)

@[simp] theorem pure_def (a : α) : (Pure.pure a : Prog Q A ε α) = .pure a := rfl

@[simp] theorem bind_def (p : Prog Q A ε α) (f : α → Prog Q A ε β) : (p >>= f) = p.bind f := rfl

@[simp] theorem throw_def (e : ε) : (MonadExcept.throw e : Prog Q A ε α) = .throw e := rfl

@[simp] theorem tryCatch_def (p : Prog Q A ε α) (h : ε → Prog Q A ε α) :
    MonadExcept.tryCatch p h = p.tryCatch h := rfl

@[simp] theorem pure_bind (a : α) (f : α → Prog Q A ε β) : (Prog.pure a).bind f = f a := rfl

@[simp] theorem throw_bind (e : ε) (f : α → Prog Q A ε β) : (Prog.throw e).bind f = .throw e := rfl

@[simp] theorem ask_bind (q : Q) (k : Except ε (A q) → Prog Q A ε α) (f : α → Prog Q A ε β) :
    (ask q k).bind f = ask q (fun r => (k r).bind f) := rfl

theorem bind_assoc {γ : Type} (p : Prog Q A ε α) (f : α → Prog Q A ε β) (g : β → Prog Q A ε γ) :
    (p.bind f).bind g = p.bind (fun a => (f a).bind g) := by
  induction p with
  | pure a => rfl
  | throw e => rfl
  | ask q k ih => exact congrArg (ask q) (funext ih)

theorem bind_pure (p : Prog Q A ε α) : p.bind .pure = p := by
  induction p with
  | pure a => rfl
  | throw e => rfl
  | ask q k ih => exact congrArg (ask q) (funext ih)

/-- The same program over other requests: `f` renames what is asked, `g` reads the reply. -/
def embed {Q' : Type} {A' : Q' → Type} (f : Q → Q') (g : (q : Q) → Except ε (A' (f q)) → Except ε (A q)) :
    Prog Q A ε α → Prog Q' A' ε α
  | pure a => pure a
  | throw e => throw e
  | ask q k => ask (f q) (fun r => (k (g q r)).embed f g)

/-! ## Undisturbed runs -/

/-- Run against a handler until the program ends. -/
def run (H : (q : Q) → S → Except ε (A q) × S) : Prog Q A ε α → S → Except ε α × S
  | pure a, s => (.ok a, s)
  | throw e, s => (.error e, s)
  | ask q k, s => (k (H q s).1).run H (H q s).2

/-- Run the first `n` requests against a handler. -/
def runFor (H : (q : Q) → S → Except ε (A q) × S) : ℕ → Prog Q A ε α → S → Prog Q A ε α × S
  | n + 1, ask q k, s => runFor H n (k (H q s).1) (H q s).2
  | _, p, s => (p, s)

/-- Whether every request of a run meets a check. -/
def meets (C : Q → S → S → Bool) (H : (q : Q) → S → Except ε (A q) × S) : Prog Q A ε α → S → Bool
  | pure _, _ => true
  | throw _, _ => true
  | ask q k, s => C q s (H q s).2 && (k (H q s).1).meets C H (H q s).2

/-- Whether the first `n` requests of a run meet a check. -/
def meetsFor (C : Q → S → S → Bool) (H : (q : Q) → S → Except ε (A q) × S) : ℕ → Prog Q A ε α → S → Bool
  | n + 1, ask q k, s => C q s (H q s).2 && meetsFor C H n (k (H q s).1) (H q s).2
  | _, _, _ => true

variable {H : (q : Q) → S → Except ε (A q) × S}

@[simp] theorem run_pure (a : α) (s : S) : (Prog.pure a : Prog Q A ε α).run H s = (.ok a, s) := rfl

@[simp] theorem run_throw (e : ε) (s : S) : (Prog.throw e : Prog Q A ε α).run H s = (.error e, s) := rfl

theorem run_ask (q : Q) (k : Except ε (A q) → Prog Q A ε α) (s : S) :
    (ask q k).run H s = (k (H q s).1).run H (H q s).2 := rfl

theorem run_bind (p : Prog Q A ε α) (f : α → Prog Q A ε β) (s : S) :
    (p.bind f).run H s = match (p.run H s).1 with
      | .ok a => (f a).run H (p.run H s).2
      | .error e => (.error e, (p.run H s).2) := by
  induction p generalizing s with
  | pure a => rfl
  | throw e => rfl
  | ask q k ih => exact ih _ _

/-- A result that is only changed at the end. -/
theorem run_bind_pure (p : Prog Q A ε α) (f : α → β) (s : S) :
    (p.bind (fun a => .pure (f a))).run H s = ((p.run H s).1.map f, (p.run H s).2) := by
  rw [run_bind]
  cases (p.run H s).1 with
  | ok a => rfl
  | error e => rfl

theorem run_request (q : Q) (s : S) : (request q : Prog Q A ε (A q)).run H s = H q s := by
  unfold request
  rw [run_ask]
  cases h : (H q s).1 with
  | ok a => simp only [run_pure]; rw [← h]
  | error e => simp only [run_throw]; rw [← h]

theorem run_request_bind {q : Q} {f : A q → Prog Q A ε β} {s s' : S} {a : A q} (h : H q s = (.ok a, s')) :
    ((request q).bind f).run H s = (f a).run H s' := by
  rw [run_bind, run_request, h]

theorem run_request_fails {q : Q} {f : A q → Prog Q A ε β} {s s' : S} {e : ε} (h : H q s = (.error e, s')) :
    ((request q).bind f).run H s = (.error e, s') := by
  rw [run_bind, run_request, h]

/-- A run seen through a map of the states, under which the handlers agree. -/
theorem run_map {S' : Type} {H' : (q : Q) → S' → Except ε (A q) × S'} {f : S → S'}
    (hH : ∀ q s, H' q (f s) = ((H q s).1, f (H q s).2)) (p : Prog Q A ε α) (s : S) :
    p.run H' (f s) = ((p.run H s).1, f (p.run H s).2) := by
  induction p generalizing s with
  | pure a => rfl
  | throw e => rfl
  | ask q k ih =>
    rw [run_ask, run_ask, hH]
    exact ih _ _

end Prog

/-! ## What a program asks, whatever it gets -/

namespace Prog

variable {Q : Type} {A : Q → Type} {ε α β γ S : Type}

/-- Given replies that satisfy `gets`, the program asks only what it `may`, and ends in `post`. -/
def Guarded (may : Q → Prop) (gets : (q : Q) → Except ε (A q) → Prop) (post : α → Prop) : Prog Q A ε α → Prop
  | pure a => post a
  | throw _ => True
  | ask q k => may q ∧ ∀ r, gets q r → Guarded may gets post (k r)

/-- What a program may lead to: it is served, others step in between, and it may be cut off anywhere. -/
inductive Leads (step : (q : Q) → S → Except ε (A q) → S → Prop) (env : S → S → Prop) :
    Prog Q A ε α → S → S → Prop
  | stop (p : Prog Q A ε α) (s : S) : Leads step env p s s
  | other {p : Prog Q A ε α} {s s' s'' : S} (h : env s s') (hp : Leads step env p s' s'') : Leads step env p s s''
  | ask {q : Q} {k : Except ε (A q) → Prog Q A ε α} {r : Except ε (A q)} {s s' s'' : S} (h : step q s r s')
      (hp : Leads step env (k r) s' s'') : Leads step env (.ask q k) s s''

/-- A program is served to its end, while others step in between. -/
inductive Ends (step : (q : Q) → S → Except ε (A q) → S → Prop) (env : S → S → Prop) :
    Prog Q A ε α → S → Except ε α → S → Prop
  | pure (a : α) (s : S) : Ends step env (.pure a) s (.ok a) s
  | throw (e : ε) (s : S) : Ends step env (.throw e) s (.error e) s
  | other {p : Prog Q A ε α} {r : Except ε α} {s s' s'' : S} (h : env s s') (hp : Ends step env p s' r s'') :
      Ends step env p s r s''
  | ask {q : Q} {k : Except ε (A q) → Prog Q A ε α} {reply : Except ε (A q)} {r : Except ε α} {s s' s'' : S}
      (h : step q s reply s') (hp : Ends step env (k reply) s' r s'') : Ends step env (.ask q k) s r s''

theorem Ends.of_pure {step : (q : Q) → S → Except ε (A q) → S → Prop} {env : S → S → Prop} {a : α} {r : Except ε α}
    {s s' : S} (h : Ends step env (.pure a) s r s') : r = .ok a ∧ Relation.ReflTransGen env s s' := by
  generalize hp : (Prog.pure a : Prog Q A ε α) = p at h
  induction h with
  | pure a' s =>
    cases hp
    exact ⟨rfl, Relation.ReflTransGen.refl⟩
  | throw e s => cases hp
  | other henv _ ih => exact ⟨(ih hp).1, Relation.ReflTransGen.head henv (ih hp).2⟩
  | ask _ _ _ => cases hp

theorem Ends.of_throw {step : (q : Q) → S → Except ε (A q) → S → Prop} {env : S → S → Prop} {e : ε} {r : Except ε α}
    {s s' : S} (h : Ends step env (.throw e) s r s') : r = .error e ∧ Relation.ReflTransGen env s s' := by
  generalize hp : (Prog.throw e : Prog Q A ε α) = p at h
  induction h with
  | pure a s => cases hp
  | throw e' s =>
    cases hp
    exact ⟨rfl, Relation.ReflTransGen.refl⟩
  | other henv _ ih => exact ⟨(ih hp).1, Relation.ReflTransGen.head henv (ih hp).2⟩
  | ask _ _ _ => cases hp

/-- A program that begins with a request: the others step, and then it is served. -/
theorem Ends.of_ask {step : (q : Q) → S → Except ε (A q) → S → Prop} {env : S → S → Prop} {q : Q}
    {k : Except ε (A q) → Prog Q A ε α} {r : Except ε α} {s s' : S} (h : Ends step env (.ask q k) s r s') :
    ∃ s₁ reply s₂, Relation.ReflTransGen env s s₁ ∧ step q s₁ reply s₂ ∧ Ends step env (k reply) s₂ r s' := by
  generalize hp : Prog.ask q k = p at h
  induction h with
  | pure a s => cases hp
  | throw e s => cases hp
  | other henv _ ih =>
    obtain ⟨s₁, reply, s₂, hothers, hserved, hrest⟩ := ih hp
    exact ⟨s₁, reply, s₂, Relation.ReflTransGen.head henv hothers, hserved, hrest⟩
  | ask hserved hrest _ =>
    cases hp
    exact ⟨_, _, _, Relation.ReflTransGen.refl, hserved, hrest⟩

theorem Ends.others {step : (q : Q) → S → Except ε (A q) → S → Prop} {env : S → S → Prop} {p : Prog Q A ε α}
    {r : Except ε α} {s s₁ s' : S} (h : Relation.ReflTransGen env s s₁) (hp : Ends step env p s₁ r s') :
    Ends step env p s r s' := by
  induction h using Relation.ReflTransGen.head_induction_on with
  | refl => exact hp
  | head henv _ ih => exact Ends.other henv ih

/-- A program in two parts fails in the first, or ends both. -/
theorem Ends.of_bind {step : (q : Q) → S → Except ε (A q) → S → Prop} {env : S → S → Prop} {p : Prog Q A ε α}
    {f : α → Prog Q A ε β} {r : Except ε β} {s s' : S} (h : Ends step env (p.bind f) s r s') :
    (∃ e, r = .error e ∧ Ends step env p s (.error e) s') ∨
      ∃ a s₁, Ends step env p s (.ok a) s₁ ∧ Ends step env (f a) s₁ r s' := by
  induction p generalizing s with
  | pure a => exact Or.inr ⟨a, s, Ends.pure a s, h⟩
  | throw e =>
    obtain ⟨rfl, hothers⟩ := Ends.of_throw h
    exact Or.inl ⟨e, rfl, Ends.others hothers (Ends.throw e s')⟩
  | ask q k ih =>
    obtain ⟨s₁, reply, s₂, hothers, hserved, hrest⟩ := Ends.of_ask h
    rcases ih reply hrest with ⟨e, he, hfails⟩ | ⟨a, s₃, hfirst, hsecond⟩
    · exact Or.inl ⟨e, he, Ends.others hothers (Ends.ask hserved hfails)⟩
    · exact Or.inr ⟨a, s₃, Ends.others hothers (Ends.ask hserved hfirst), hsecond⟩

/-- An undisturbed run whose requests meet a check. -/
theorem ends_run {H : (q : Q) → S → Except ε (A q) × S} {C : Q → S → S → Bool}
    {step : (q : Q) → S → Except ε (A q) → S → Prop} {env : S → S → Prop}
    (hH : ∀ q s, C q s (H q s).2 = true → step q s (H q s).1 (H q s).2) :
    ∀ (p : Prog Q A ε α) (s : S), p.meets C H s = true → Ends step env p s (p.run H s).1 (p.run H s).2
  | .pure a, s, _ => Ends.pure a s
  | .throw e, s, _ => Ends.throw e s
  | .ask q k, s, h => by
    obtain ⟨hq, hrest⟩ := Bool.and_eq_true_iff.mp h
    exact Ends.ask (hH q s hq) (ends_run hH (k (H q s).1) (H q s).2 hrest)

theorem meets_true {H : (q : Q) → S → Except ε (A q) × S} (p : Prog Q A ε α) (s : S) :
    p.meets (fun _ _ _ => true) H s = true := by
  induction p generalizing s with
  | pure a => rfl
  | throw e => rfl
  | ask q k ih => exact ih _ _

theorem meetsFor_true {H : (q : Q) → S → Except ε (A q) × S} : ∀ (n : ℕ) (p : Prog Q A ε α) (s : S),
    meetsFor (fun _ _ _ => true) H n p s = true
  | 0, p, _ => by cases p <;> rfl
  | _ + 1, .pure _, _ => rfl
  | _ + 1, .throw _, _ => rfl
  | n + 1, .ask _ k, _ => meetsFor_true n (k _) _

/-- The beginning of such a run. -/
theorem leads_runFor {H : (q : Q) → S → Except ε (A q) × S} {C : Q → S → S → Bool}
    {step : (q : Q) → S → Except ε (A q) → S → Prop} {env : S → S → Prop}
    (hH : ∀ q s, C q s (H q s).2 = true → step q s (H q s).1 (H q s).2) :
    ∀ (n : ℕ) (p : Prog Q A ε α) (s : S), p.meetsFor C H n s = true → Leads step env p s (runFor H n p s).2
  | 0, p, s, _ => by
    have h0 : runFor H 0 p s = (p, s) := by cases p <;> rfl
    rw [h0]
    exact Leads.stop p s
  | n + 1, .pure a, s, _ => Leads.stop (.pure a) s
  | n + 1, .throw e, s, _ => Leads.stop (.throw e) s
  | n + 1, .ask q k, s, h => by
    obtain ⟨hq, hrest⟩ := Bool.and_eq_true_iff.mp h
    exact Leads.ask (hH q s hq) (leads_runFor hH n (k (H q s).1) (H q s).2 hrest)

/-- A program that is served in one system is served alike in another that simulates it request by request. -/
theorem Ends.simulate {S' : Type} {step : (q : Q) → S → Except ε (A q) → S → Prop} {env : S → S → Prop}
    {step' : (q : Q) → S' → Except ε (A q) → S' → Prop} {env' : S' → S' → Prop} {R : S → S' → Prop}
    (hstep : ∀ q r s s₁ t, R s t → step q s r s₁ → ∃ t₁, step' q t r t₁ ∧ R s₁ t₁)
    (henv : ∀ s s₁ t, R s t → env s s₁ → ∃ t₁, env' t t₁ ∧ R s₁ t₁) {p : Prog Q A ε α} {r : Except ε α} {s s₁ : S}
    (h : Ends step env p s r s₁) : ∀ t, R s t → ∃ t₁, Ends step' env' p t r t₁ ∧ R s₁ t₁ := by
  induction h with
  | pure a s => exact fun t hR => ⟨t, Ends.pure a t, hR⟩
  | throw e s => exact fun t hR => ⟨t, Ends.throw e t, hR⟩
  | other h _ ih =>
    intro t hR
    obtain ⟨t₁, ht, hR₁⟩ := henv _ _ t hR h
    obtain ⟨t₂, hends, hR₂⟩ := ih t₁ hR₁
    exact ⟨t₂, Ends.other ht hends, hR₂⟩
  | ask h _ ih =>
    intro t hR
    obtain ⟨t₁, ht, hR₁⟩ := hstep _ _ _ _ t hR h
    obtain ⟨t₂, hends, hR₂⟩ := ih t₁ hR₁
    exact ⟨t₂, Ends.ask ht hends, hR₂⟩

theorem others_simulate {S' : Type} {env : S → S → Prop} {env' : S' → S' → Prop} {R : S → S' → Prop}
    (henv : ∀ s s₁ t, R s t → env s s₁ → ∃ t₁, env' t t₁ ∧ R s₁ t₁) {s s' : S} (h : Relation.ReflTransGen env s s')
    (t : S') (hR : R s t) : ∃ t', Relation.ReflTransGen env' t t' ∧ R s' t' := by
  induction h with
  | refl => exact ⟨t, Relation.ReflTransGen.refl, hR⟩
  | tail _ hone ih =>
    obtain ⟨t₁, ht, hR₁⟩ := ih
    obtain ⟨t₂, hone', hR₂⟩ := henv _ _ t₁ hR₁ hone
    exact ⟨t₂, ht.tail hone', hR₂⟩

/-- The same of one request at the beginning, that takes the systems from one relation to another. -/
theorem Ends.simulate_ask {S' : Type} {step : (q : Q) → S → Except ε (A q) → S → Prop} {env : S → S → Prop}
    {step' : (q : Q) → S' → Except ε (A q) → S' → Prop} {env' : S' → S' → Prop} {R R₁ R₂ : S → S' → Prop} {q : Q}
    {k : Except ε (A q) → Prog Q A ε α} {r : Except ε α} {s s' : S}
    (henv : ∀ s s₁ t, R s t → env s s₁ → ∃ t₁, env' t t₁ ∧ R s₁ t₁)
    (hstep : ∀ r s s₁ t, R s t → step q s r s₁ → ∃ t₁, step' q t r t₁ ∧ R₁ s₁ t₁)
    (hrest : ∀ reply s₁ t₁, R₁ s₁ t₁ → Ends step env (k reply) s₁ r s' →
      ∃ t', Ends step' env' (k reply) t₁ r t' ∧ R₂ s' t')
    (h : Ends step env (.ask q k) s r s') (t : S') (hR : R s t) : ∃ t', Ends step' env' (.ask q k) t r t' ∧ R₂ s' t' := by
  obtain ⟨s₁, reply, s₂, hothers, hserved, hends⟩ := h.of_ask
  obtain ⟨t₁, ht, hR₁⟩ := others_simulate henv hothers t hR
  obtain ⟨t₂, hserved', hR₂⟩ := hstep reply s₁ s₂ t₁ hR₁ hserved
  obtain ⟨t', hends', hR'⟩ := hrest reply s₂ t₂ hR₂ hends
  exact ⟨t', Ends.others ht (Ends.ask hserved' hends'), hR'⟩

theorem Ends.simulate_throw {S' : Type} {step : (q : Q) → S → Except ε (A q) → S → Prop} {env : S → S → Prop}
    {step' : (q : Q) → S' → Except ε (A q) → S' → Prop} {env' : S' → S' → Prop} {R : S → S' → Prop} {e : ε}
    {r : Except ε α} {s s' : S} (henv : ∀ s s₁ t, R s t → env s s₁ → ∃ t₁, env' t t₁ ∧ R s₁ t₁)
    (h : Ends step env (.throw e) s r s') (t : S') (hR : R s t) : ∃ t', Ends step' env' (.throw e) t r t' ∧ R s' t' := by
  obtain ⟨rfl, hothers⟩ := h.of_throw
  obtain ⟨t', ht, hR'⟩ := others_simulate henv hothers t hR
  exact ⟨t', Ends.others ht (Ends.throw e t'), hR'⟩

variable {may : Q → Prop} {gets : (q : Q) → Except ε (A q) → Prop} {post post' : α → Prop}

theorem Guarded.mono {p : Prog Q A ε α} (h : p.Guarded may gets post) (hp : ∀ a, post a → post' a) :
    p.Guarded may gets post' := by
  induction p with
  | pure a => exact hp a h
  | throw e => exact h
  | ask q k ih => exact ⟨h.1, fun r hr => ih r (h.2 r hr)⟩

theorem Guarded.imp {may' : Q → Prop} {gets' : (q : Q) → Except ε (A q) → Prop} {p : Prog Q A ε α}
    (h : p.Guarded may gets post) (hmay : ∀ q, may q → may' q) (hgets : ∀ q r, gets' q r → gets q r)
    (hpost : ∀ a, post a → post' a) : p.Guarded may' gets' post' := by
  induction p with
  | pure a => exact hpost a h
  | throw e => exact h
  | ask q k ih => exact ⟨hmay q h.1, fun r hr => ih r (h.2 r (hgets q r hr))⟩

theorem guarded_trivial (p : Prog Q A ε α) : p.Guarded (fun _ => True) (fun _ _ => True) (fun _ => True) := by
  induction p with
  | pure a => exact trivial
  | throw e => exact trivial
  | ask q k ih => exact ⟨trivial, fun r _ => ih r⟩

theorem Guarded.bind {p : Prog Q A ε α} {f : α → Prog Q A ε β} {post : β → Prop}
    (h : p.Guarded may gets (fun a => (f a).Guarded may gets post)) : (p.bind f).Guarded may gets post := by
  induction p with
  | pure a => exact h
  | throw e => exact h
  | ask q k ih => exact ⟨h.1, fun r hr => ih r (h.2 r hr)⟩

theorem Guarded.tryCatch {p : Prog Q A ε α} {f : ε → Prog Q A ε α} (h : p.Guarded may gets post)
    (hf : ∀ e, (f e).Guarded may gets post) : (p.tryCatch f).Guarded may gets post := by
  induction p with
  | pure a => exact h
  | throw e => exact hf e
  | ask q k ih => exact ⟨h.1, fun r hr => ih r (h.2 r hr)⟩

/-- The same program over other requests. -/
theorem Guarded.embed {Q' : Type} {A' : Q' → Type} {f : Q → Q'} {g : (q : Q) → Except ε (A' (f q)) → Except ε (A q)}
    {may' : Q' → Prop} {gets' : (q : Q') → Except ε (A' q) → Prop} {p : Prog Q A ε α}
    (h : p.Guarded (fun q => may' (f q)) gets post) (hgets : ∀ q r, gets' (f q) r → gets q (g q r)) :
    (p.embed f g).Guarded may' gets' post := by
  induction p with
  | pure a => exact h
  | throw e => exact h
  | ask q k ih => exact ⟨h.1, fun r hr => ih _ (h.2 _ (hgets q r hr))⟩

theorem Guarded.request {q : Q} {f : A q → Prog Q A ε β} {post : β → Prop} (hq : may q)
    (h : ∀ a, gets q (.ok a) → (f a).Guarded may gets post) : ((Prog.request q).bind f).Guarded may gets post := by
  refine ⟨hq, fun r hr => ?_⟩
  cases r with
  | ok a => exact h a hr
  | error e => exact trivial

theorem Guarded.request_last {q : Q} {post : A q → Prop} (hq : may q) (h : ∀ a, gets q (.ok a) → post a) :
    (Prog.request q : Prog Q A ε (A q)).Guarded may gets post := by
  refine ⟨hq, fun r hr => ?_⟩
  cases r with
  | ok a => exact h a hr
  | error e => exact trivial

theorem Guarded.foldlM {f : β → γ → Prog Q A ε β} (I : β → Prop) : ∀ (l : List γ) (b : β), I b →
    (∀ b, ∀ c ∈ l, I b → (f b c).Guarded may gets I) → (l.foldlM f b).Guarded may gets I
  | [], _, hb, _ => hb
  | c :: l, b, hb, h => by
    rw [List.foldlM_cons]
    refine Guarded.bind ((h b c List.mem_cons_self hb).mono (fun b' hb' => ?_))
    exact Guarded.foldlM I l b' hb' (fun b c hc => h b c (List.mem_cons_of_mem _ hc))

/-- Runs of a guarded program from related states return the same. -/
theorem Guarded.run_both {H : (q : Q) → S → Except ε (A q) × S} {R : S → S → Prop}
    (hH : ∀ q s t, may q → R s t → (H q s).1 = (H q t).1 ∧ gets q (H q s).1 ∧ R (H q s).2 (H q t).2) {p : Prog Q A ε α}
    (hp : p.Guarded may gets post) {s t : S} (h : R s t) : (p.run H s).1 = (p.run H t).1 ∧ R (p.run H s).2 (p.run H t).2 := by
  induction p generalizing s t with
  | pure a => exact ⟨rfl, h⟩
  | throw e => exact ⟨rfl, h⟩
  | ask q k ih =>
    obtain ⟨hreply, hgets, hafter⟩ := hH q s t hp.1 h
    have hrest := ih (H q s).1 (hp.2 _ hgets) hafter
    rw [run_ask, run_ask, ← hreply]
    exact hrest

/-- A run of a guarded program keeps what its requests keep. -/
theorem Guarded.run_keeps {H : (q : Q) → S → Except ε (A q) × S} {I : S → Prop}
    (hH : ∀ q s, may q → I s → gets q (H q s).1 ∧ I (H q s).2) {p : Prog Q A ε α} (hp : p.Guarded may gets post) {s : S}
    (h : I s) : I (p.run H s).2 := by
  induction p generalizing s with
  | pure a => exact h
  | throw e => exact h
  | ask q k ih =>
    obtain ⟨hgets, hafter⟩ := hH q s hp.1 h
    exact ih _ (hp.2 _ hgets) hafter

/-- What a run of a guarded program returns. -/
theorem Guarded.run_post {H : (q : Q) → S → Except ε (A q) × S} (hH : ∀ q s, gets q (H q s).1) {p : Prog Q A ε α}
    (hp : p.Guarded may gets post) {s : S} {a : α} (h : (p.run H s).1 = .ok a) : post a := by
  induction p generalizing s with
  | pure a' =>
    cases h
    exact hp
  | throw e => cases h
  | ask q k ih => exact ih _ (hp.2 _ (hH q s)) h

end Prog

/-! ## Rely-guarantee reasoning about one program -/

/-- What one program may ask (`step`), what it may expect of the others (`rely`), and when it asks (`pre`). -/
structure Protocol (Q : Type) (A : Q → Type) (ε S : Type) where
  step : (q : Q) → S → Except ε (A q) → S → Prop
  rely : S → S → Prop
  rely_refl : ∀ s, rely s s
  rely_trans : ∀ {s₁ s₂ s₃}, rely s₁ s₂ → rely s₂ s₃ → rely s₁ s₃
  pre : Q → S → Prop

namespace Protocol

open Prog

variable {Q : Type} {A : Q → Type} {ε α β S : Type} (P : Protocol Q A ε S)

/-- Started in `s` and disturbed within `P.rely`, the program asks within `P.pre` and ends in `post` or `xpost`. -/
def wp (post : α → S → Prop) (xpost : ε → S → Prop) : Prog Q A ε α → S → Prop
  | .pure a, s => ∀ s', P.rely s s' → post a s'
  | .throw e, s => ∀ s', P.rely s s' → xpost e s'
  | .ask q k, s => ∀ s', P.rely s s' → P.pre q s' ∧ ∀ r s'', P.step q s' r s'' → wp post xpost (k r) s''

/-- `I` survives what the others do. -/
def Stable (I : S → Prop) : Prop := ∀ s s', I s → P.rely s s' → I s'

variable {P} {post post' : α → S → Prop} {xpost xpost' : ε → S → Prop}

theorem wp_rely {p : Prog Q A ε α} {s s' : S} (h : P.wp post xpost p s) (hr : P.rely s s') :
    P.wp post xpost p s' := by
  cases p with
  | pure a => exact fun s'' h' => h s'' (P.rely_trans hr h')
  | throw e => exact fun s'' h' => h s'' (P.rely_trans hr h')
  | ask q k => exact fun s'' h' => h s'' (P.rely_trans hr h')

theorem wp_mono {p : Prog Q A ε α} {s : S} (h : P.wp post xpost p s) (hp : ∀ a s, post a s → post' a s)
    (hx : ∀ e s, xpost e s → xpost' e s) : P.wp post' xpost' p s := by
  induction p generalizing s with
  | pure a => exact fun s' h' => hp a s' (h s' h')
  | throw e => exact fun s' h' => hx e s' (h s' h')
  | ask q k ih => exact fun s' h' => ⟨(h s' h').1, fun r s'' hs => ih r ((h s' h').2 r s'' hs)⟩

theorem wp_bind {p : Prog Q A ε α} {f : α → Prog Q A ε β} {post : β → S → Prop} {s : S}
    (h : P.wp (fun a s => P.wp post xpost (f a) s) xpost p s) : P.wp post xpost (p.bind f) s := by
  induction p generalizing s with
  | pure a => exact h s (P.rely_refl s)
  | throw e => exact h
  | ask q k ih => exact fun s' h' => ⟨(h s' h').1, fun r s'' hs => ih r ((h s' h').2 r s'' hs)⟩

theorem wp_tryCatch {p : Prog Q A ε α} {h : ε → Prog Q A ε α} {s : S}
    (hp : P.wp post (fun e s => P.wp post xpost (h e) s) p s) : P.wp post xpost (p.tryCatch h) s := by
  induction p generalizing s with
  | pure a => exact hp
  | throw e => exact hp s (P.rely_refl s)
  | ask q k ih => exact fun s' h' => ⟨(hp s' h').1, fun r s'' hs => ih r ((hp s' h').2 r s'' hs)⟩

/-- A pure result under a stable assertion. -/
theorem wp_pure {a : α} {s : S} {I : S → Prop} (hI : P.Stable I) (h : I s) (hp : ∀ s, I s → post a s) :
    P.wp post xpost (.pure a) s :=
  fun s' h' => hp s' (hI s s' h h')

theorem wp_throw {e : ε} {s : S} (h : ∀ s, xpost e s) : P.wp post xpost (.throw e) s := fun s' _ => h s'

/-- One request under a stable assertion `I`, going on with the reply `J` describes. -/
theorem wp_request {q : Q} {f : A q → Prog Q A ε β} {post : β → S → Prop} {s : S} {I : S → Prop}
    (hI : P.Stable I) (h : I s) (hpre : ∀ s, I s → P.pre q s) (hx : ∀ e s, xpost e s)
    (hok : ∀ s a s', I s → P.step q s (.ok a) s' → P.wp post xpost (f a) s') :
    P.wp post xpost ((request q).bind f) s := by
  intro s' h'
  have hs' := hI s s' h h'
  refine ⟨hpre s' hs', fun r s'' hs => ?_⟩
  cases r with
  | ok a => exact hok s' a s'' hs' hs
  | error e => exact wp_throw (hx e)

/-- A request that is always served. -/
theorem wp_request_served {q : Q} {f : A q → Prog Q A ε β} {post : β → S → Prop} {s : S} {I : S → Prop}
    (hI : P.Stable I) (h : I s) (hpre : ∀ s, I s → P.pre q s)
    (hok : ∀ s r s', I s → P.step q s r s' → ∃ a, r = .ok a ∧ P.wp post xpost (f a) s') :
    P.wp post xpost ((request q).bind f) s := by
  intro s' h'
  have hs' := hI s s' h h'
  refine ⟨hpre s' hs', fun r s'' hs => ?_⟩
  obtain ⟨a, rfl, hwp⟩ := hok s' r s'' hs' hs
  exact hwp

/-- A request at the end of a program. -/
theorem wp_request_last {q : Q} {post : A q → S → Prop} {s : S} {I : S → Prop}
    (hI : P.Stable I) (h : I s) (hpre : ∀ s, I s → P.pre q s) (hx : ∀ e s, xpost e s)
    (hok : ∀ s a s' s'', I s → P.step q s (.ok a) s' → P.rely s' s'' → post a s'') :
    P.wp post xpost (request q) s := by
  intro s' h'
  have hs' := hI s s' h h'
  refine ⟨hpre s' hs', fun r s'' hs => ?_⟩
  cases r with
  | ok a => exact fun s₃ h₃ => hok s' a s'' s₃ hs' hs h₃
  | error e => exact wp_throw (hx e)

/-- Folding a program over a list: `I` is indexed by the accumulator and what is still to do. -/
theorem wp_foldlM {γ : Type} {f : β → γ → Prog Q A ε β} {post : β → S → Prop} (I : β → List γ → S → Prop)
    (hstep : ∀ b c l s, I b (c :: l) s → P.wp (fun b' s' => I b' l s') xpost (f b c) s)
    (hend : ∀ b s, I b [] s → P.wp post xpost (.pure b) s) :
    ∀ (l : List γ) (b : β) (s : S), I b l s → P.wp post xpost (l.foldlM f b) s
  | [], b, s, h => hend b s h
  | c :: l, b, s, h => by
    rw [List.foldlM_cons]
    refine wp_bind (wp_mono (hstep b c l s h) (fun b' s' h' => ?_) (fun _ _ hx => hx))
    exact wp_foldlM I hstep hend l b' s' h'

/-- What holds from one state to every later one. -/
theorem wp_since {R : S → S → Prop} (hrefl : ∀ s, R s s) (htrans : ∀ {s₁ s₂ s₃}, R s₁ s₂ → R s₂ s₃ → R s₁ s₃)
    (hrely : ∀ {s s'}, P.rely s s' → R s s') (hstep : ∀ {q s r s'}, P.step q s r s' → R s s') {p : Prog Q A ε α} {s : S}
    (h : P.wp post xpost p s) :
    P.wp (fun a s' => post a s' ∧ R s s') (fun e s' => xpost e s' ∧ R s s') p s := by
  have main : ∀ {p : Prog Q A ε α} {s₀ s : S}, R s₀ s → P.wp post xpost p s →
      P.wp (fun a s' => post a s' ∧ R s₀ s') (fun e s' => xpost e s' ∧ R s₀ s') p s := by
    intro p
    induction p with
    | pure a => exact fun h0 h s' h' => ⟨h s' h', htrans h0 (hrely h')⟩
    | throw e => exact fun h0 h s' h' => ⟨h s' h', htrans h0 (hrely h')⟩
    | ask q k ih =>
      exact fun h0 h s' h' => ⟨(h s' h').1, fun r s'' hs =>
        ih r (htrans (htrans h0 (hrely h')) (hstep hs)) ((h s' h').2 r s'' hs)⟩
  exact main (hrefl s) h

/-- The protocol among states that satisfy `I`, which the others keep. -/
def within (P : Protocol Q A ε S) (I : S → Prop) : Protocol Q A ε S where
  step := fun q s r s' => P.step q s r s' ∧ I s ∧ I s'
  rely := fun s s' => P.rely s s' ∧ (I s → I s')
  rely_refl := fun s => ⟨P.rely_refl s, fun h => h⟩
  rely_trans := fun h h' => ⟨P.rely_trans h.1 h'.1, fun hi => h'.2 (h.2 hi)⟩
  pre := P.pre

theorem wp_within {I : S → Prop} {p : Prog Q A ε α} {s : S} (h : P.wp post xpost p s) :
    (P.within I).wp post xpost p s := by
  induction p generalizing s with
  | pure a => exact fun s' hr => h s' hr.1
  | throw e => exact fun s' hr => h s' hr.1
  | ask q k ih => exact fun s' hr => ⟨(h s' hr.1).1, fun r s'' hs => ih r ((h s' hr.1).2 r s'' hs.1)⟩

/-- The protocol with nothing to be shown of requests: they are asked as `P` says. -/
def asked (P : Protocol Q A ε S) : Protocol Q A ε S where
  step := fun q s r s' => P.pre q s ∧ P.step q s r s'
  rely := P.rely
  rely_refl := P.rely_refl
  rely_trans := P.rely_trans
  pre := fun _ _ => True

/-- When a program asks, and then what it does. -/
theorem wp_asked {p : Prog Q A ε α} {s : S} (h : P.wp post xpost p s) (h' : P.asked.wp post' xpost' p s) :
    P.wp post' xpost' p s := by
  induction p generalizing s with
  | pure a => exact h'
  | throw e => exact h'
  | ask q k ih =>
    intro s' hr
    obtain ⟨hpre, hnext⟩ := h s' hr
    exact ⟨hpre, fun r s'' hs => ih r (hnext r s'' hs) ((h' s' hr).2 r s'' ⟨hpre, hs⟩)⟩

theorem wp_trivial (p : Prog Q A ε α) (s : S) : P.asked.wp (fun _ _ => True) (fun _ _ => True) p s := by
  induction p generalizing s with
  | pure a => exact fun _ _ => trivial
  | throw e => exact fun _ _ => trivial
  | ask q k ih => exact fun s' _ => ⟨trivial, fun r s'' _ => ih r s''⟩

/-- A run against a handler is a run that nobody disturbs. -/
theorem wp_run {H : (q : Q) → S → Except ε (A q) × S} (hH : ∀ q s, P.step q s (H q s).1 (H q s).2) {p : Prog Q A ε α} {s : S}
    (h : P.wp post xpost p s) :
    (∀ a, (p.run H s).1 = .ok a → post a (p.run H s).2) ∧ ∀ e, (p.run H s).1 = .error e → xpost e (p.run H s).2 := by
  induction p generalizing s with
  | pure a =>
    refine ⟨fun b hb => ?_, nofun⟩
    cases hb
    exact h s (P.rely_refl s)
  | throw e =>
    refine ⟨nofun, fun e' he => ?_⟩
    cases he
    exact h s (P.rely_refl s)
  | ask q k ih => exact ih _ ((h s (P.rely_refl s)).2 _ _ (hH q s))

/-- A program that is served to its end while others step in between. -/
theorem wp_ends {env : S → S → Prop} (henv : ∀ s s', env s s' → P.rely s s') {p : Prog Q A ε α} {s s' : S} {r : Except ε α}
    (hp : Ends P.step env p s r s') : P.wp post xpost p s →
      (∀ a, r = .ok a → post a s') ∧ ∀ e, r = .error e → xpost e s' := by
  induction hp with
  | pure a s =>
    refine fun h => ⟨fun b hb => ?_, nofun⟩
    cases hb
    exact h s (P.rely_refl s)
  | throw e s =>
    refine fun h => ⟨nofun, fun e' he => ?_⟩
    cases he
    exact h s (P.rely_refl s)
  | other h _ ih => exact fun hwp => ih (wp_rely hwp (henv _ _ h))
  | ask h _ ih => exact fun hwp => ih ((hwp _ (P.rely_refl _)).2 _ _ h)

/-- An invariant of the requests that are asked holds wherever a program is cut off. -/
theorem wp_leads {env : S → S → Prop} {I : S → Prop} (henv : ∀ s s', env s s' → P.rely s s')
    (hrely : ∀ s s', I s → P.rely s s' → I s') (hstep : ∀ q s r s', I s → P.pre q s → P.step q s r s' → I s')
    {p : Prog Q A ε α} {s s' : S} (hl : Leads P.step env p s s') : P.wp post xpost p s → I s → I s' := by
  induction hl with
  | stop p s => exact fun _ hi => hi
  | other h _ ih => exact fun hp hi => ih (wp_rely hp (henv _ _ h)) (hrely _ _ hi (henv _ _ h))
  | ask h _ ih =>
    intro hp hi
    obtain ⟨hpre, hnext⟩ := hp _ (P.rely_refl _)
    exact ih (hnext _ _ h) (hstep _ _ _ _ hi hpre h)

theorem wp_ask_pre {q : Q} {k : Except ε (A q) → Prog Q A ε α} {s : S} (h : P.wp post xpost (.ask q k) s) :
    P.pre q s := (h s (P.rely_refl s)).1

theorem wp_ask_step {q : Q} {k : Except ε (A q) → Prog Q A ε α} {s s' : S} {r : Except ε (A q)}
    (h : P.wp post xpost (.ask q k) s) (hs : P.step q s r s') : P.wp post xpost (k r) s' :=
  (h s (P.rely_refl s)).2 r s' hs

end Protocol

/-! ## Interleaved programs -/

/-- A store, and the program each of the parties is in the middle of. -/
structure Conf (D Q : Type) (A : Q → Type) (ε α S : Type) where
  store : S
  running : D → Option (Prog Q A ε α)

/-- A system of parties `D` that each run a program over and over. -/
structure Threads (D Q : Type) (A : Q → Type) (ε α S : Type) where
  /-- The program a party runs. -/
  body : D → Prog Q A ε α
  /-- What starting the program does to the store. -/
  enter : D → S → S
  /-- How a request of a party is served. -/
  step : D → (q : Q) → S → Except ε (A q) → S → Prop
  /-- What ending the program does to the store. -/
  leave : D → Except ε α → S → S
  /-- Steps of the environment that leave the programs alone. -/
  env : S → S → Prop
  /-- What losing a party's program does to the store. -/
  crash : D → S → S

namespace Threads

open Prog

variable {D Q : Type} {A : Q → Type} {ε α S : Type} [DecidableEq D] (T : Threads D Q A ε α S)

/-- One step of the system. -/
inductive Step : Conf D Q A ε α S → Conf D Q A ε α S → Prop
  | enter (c : Conf D Q A ε α S) (d : D) (h : c.running d = none) :
      Step c ⟨T.enter d c.store, Function.update c.running d (some (T.body d))⟩
  | ask (c : Conf D Q A ε α S) (d : D) (q : Q) (k : Except ε (A q) → Prog Q A ε α) (r : Except ε (A q)) (s : S)
      (h : c.running d = some (.ask q k)) (hs : T.step d q c.store r s) :
      Step c ⟨s, Function.update c.running d (some (k r))⟩
  | done (c : Conf D Q A ε α S) (d : D) (a : α) (h : c.running d = some (.pure a)) :
      Step c ⟨T.leave d (.ok a) c.store, Function.update c.running d none⟩
  | failed (c : Conf D Q A ε α S) (d : D) (e : ε) (h : c.running d = some (.throw e)) :
      Step c ⟨T.leave d (.error e) c.store, Function.update c.running d none⟩
  | env (c : Conf D Q A ε α S) (s : S) (h : T.env c.store s) : Step c ⟨s, c.running⟩
  | crash (c : Conf D Q A ε α S) (d : D) : Step c ⟨T.crash d c.store, Function.update c.running d none⟩

/-- Everything the system can reach. -/
def Reach : Conf D Q A ε α S → Conf D Q A ε α S → Prop := Relation.ReflTransGen T.Step

/-- The system kept to requests and environment steps that meet a condition. -/
def restrict (okStep : D → Q → S → S → Prop) (okEnv : S → S → Prop) : Threads D Q A ε α S :=
  { T with
    step := fun d q s r s' => T.step d q s r s' ∧ okStep d q s s'
    env := fun s s' => T.env s s' ∧ okEnv s s' }

variable {T}

theorem Step.of_restrict {okStep : D → Q → S → S → Prop} {okEnv : S → S → Prop} {c c' : Conf D Q A ε α S}
    (h : (T.restrict okStep okEnv).Step c c') : T.Step c c' := by
  cases h with
  | enter d h => exact Step.enter c d h
  | ask d q k r s h hs => exact Step.ask c d q k r s h hs.1
  | done d a h => exact Step.done c d a h
  | failed d e h => exact Step.failed c d e h
  | env s h => exact Step.env c s h.1
  | crash d => exact Step.crash c d

theorem Reach.of_restrict {okStep : D → Q → S → S → Prop} {okEnv : S → S → Prop} {c c' : Conf D Q A ε α S}
    (h : (T.restrict okStep okEnv).Reach c c') : T.Reach c c' := by
  induction h with
  | refl => exact Relation.ReflTransGen.refl
  | tail _ hstep ih => exact ih.tail hstep.of_restrict

theorem Step.weaken {okStep okStep' : D → Q → S → S → Prop} {okEnv okEnv' : S → S → Prop} {c c' : Conf D Q A ε α S}
    (h : (T.restrict okStep okEnv).Step c c') (hstep : ∀ d q s s', okStep d q s s' → okStep' d q s s')
    (henv : ∀ s s', okEnv s s' → okEnv' s s') : (T.restrict okStep' okEnv').Step c c' := by
  cases h with
  | enter d h => exact Step.enter c d h
  | ask d q k r s h hs => exact Step.ask c d q k r s h ⟨hs.1, hstep d q _ s hs.2⟩
  | done d a h => exact Step.done c d a h
  | failed d e h => exact Step.failed c d e h
  | env s h => exact Step.env c s ⟨h.1, henv _ s h.2⟩
  | crash d => exact Step.crash c d

/-- Runs that meet some conditions meet what follows from them. -/
theorem Reach.weaken {okStep okStep' : D → Q → S → S → Prop} {okEnv okEnv' : S → S → Prop} {c c' : Conf D Q A ε α S}
    (h : (T.restrict okStep okEnv).Reach c c') (hstep : ∀ d q s s', okStep d q s s' → okStep' d q s s')
    (henv : ∀ s s', okEnv s s' → okEnv' s s') : (T.restrict okStep' okEnv').Reach c c' := by
  induction h with
  | refl => exact Relation.ReflTransGen.refl
  | tail _ h ih => exact ih.tail (h.weaken hstep henv)

theorem Step.restrict {okStep : D → Q → S → S → Prop} {okEnv : S → S → Prop} {c c' : Conf D Q A ε α S}
    (h : T.Step c c') (hstep : ∀ d q s s', okStep d q s s') (henv : ∀ s s', okEnv s s') :
    (T.restrict okStep okEnv).Step c c' := by
  cases h with
  | enter d h => exact Step.enter c d h
  | ask d q k r s h hs => exact Step.ask c d q k r s h ⟨hs, hstep d q _ s⟩
  | done d a h => exact Step.done c d a h
  | failed d e h => exact Step.failed c d e h
  | env s h => exact Step.env c s ⟨h, henv _ s⟩
  | crash d => exact Step.crash c d

/-- Conditions that always hold restrict nothing. -/
theorem Reach.restrict {okStep : D → Q → S → S → Prop} {okEnv : S → S → Prop} {c c' : Conf D Q A ε α S}
    (h : T.Reach c c') (hstep : ∀ d q s s', okStep d q s s') (henv : ∀ s s', okEnv s s') :
    (T.restrict okStep okEnv).Reach c c' := by
  induction h with
  | refl => exact Relation.ReflTransGen.refl
  | tail _ h ih => exact ih.tail (h.restrict hstep henv)

/-! ### Undisturbed runs are runs -/

variable {H : (q : Q) → S → Except ε (A q) × S} {d : D} {C : Q → S → S → Bool} {okStep : D → Q → S → S → Prop}
  {okEnv : S → S → Prop}

/-- A party may run its program undisturbed for a while. -/
theorem reach_runFor (hH : ∀ q s, C q s (H q s).2 = true → T.step d q s (H q s).1 (H q s).2)
    (hC : ∀ q s s', C q s s' = true → okStep d q s s') :
    ∀ (n : ℕ) (p : Prog Q A ε α) (c : Conf D Q A ε α S), c.running d = some p → p.meetsFor C H n c.store = true →
      (T.restrict okStep okEnv).Reach c
        ⟨(runFor H n p c.store).2, Function.update c.running d (some (runFor H n p c.store).1)⟩
  | 0, p, c, h, _ => by
    have hc : (⟨c.store, Function.update c.running d (some p)⟩ : Conf D Q A ε α S) = c := by
      rw [← h, Function.update_eq_self]
    have h0 : runFor H 0 p c.store = (p, c.store) := by cases p <;> rfl
    rw [h0, hc]
    exact Relation.ReflTransGen.refl
  | n + 1, .pure a, c, h, _ => by
    have hc : (⟨c.store, Function.update c.running d (some (.pure a))⟩ : Conf D Q A ε α S) = c := by
      rw [← h, Function.update_eq_self]
    simp only [runFor, hc]
    exact Relation.ReflTransGen.refl
  | n + 1, .throw e, c, h, _ => by
    have hc : (⟨c.store, Function.update c.running d (some (.throw e))⟩ : Conf D Q A ε α S) = c := by
      rw [← h, Function.update_eq_self]
    simp only [runFor, hc]
    exact Relation.ReflTransGen.refl
  | n + 1, .ask q k, c, h, hm => by
    obtain ⟨hq, hm⟩ := Bool.and_eq_true_iff.mp hm
    have hstep := Step.ask (T := T.restrict okStep okEnv) c d q k (H q c.store).1 (H q c.store).2 h
      ⟨hH q c.store hq, hC q _ _ hq⟩
    have hrest := reach_runFor hH hC n (k (H q c.store).1)
      ⟨(H q c.store).2, Function.update c.running d (some (k (H q c.store).1))⟩ (by simp) hm
    simp only [Function.update_idem] at hrest
    exact Relation.ReflTransGen.head hstep hrest

/-- A party may run its whole program undisturbed. -/
theorem reach_run (hH : ∀ q s, C q s (H q s).2 = true → T.step d q s (H q s).1 (H q s).2)
    (hC : ∀ q s s', C q s s' = true → okStep d q s s') :
    ∀ (p : Prog Q A ε α) (c : Conf D Q A ε α S), c.running d = some p → p.meets C H c.store = true →
      (T.restrict okStep okEnv).Reach c
        ⟨T.leave d (p.run H c.store).1 (p.run H c.store).2, Function.update c.running d none⟩
  | .pure a, c, h, _ => Relation.ReflTransGen.single (Step.done c d a h)
  | .throw e, c, h, _ => Relation.ReflTransGen.single (Step.failed c d e h)
  | .ask q k, c, h, hm => by
    obtain ⟨hq, hm⟩ := Bool.and_eq_true_iff.mp hm
    have hstep := Step.ask (T := T.restrict okStep okEnv) c d q k (H q c.store).1 (H q c.store).2 h
      ⟨hH q c.store hq, hC q _ _ hq⟩
    have hrest := reach_run hH hC (k (H q c.store).1)
      ⟨(H q c.store).2, Function.update c.running d (some (k (H q c.store).1))⟩ (by simp) hm
    simp only [Function.update_idem] at hrest
    exact Relation.ReflTransGen.head hstep hrest

/-- A party that is served to its end, while the environment steps in between, ends its program. -/
theorem reach_ends {d : D} {p : Prog Q A ε α} {r : Except ε α} {s s' : S} (h : Ends (T.step d) T.env p s r s') :
    ∀ c : Conf D Q A ε α S, c.store = s → c.running d = some p →
      T.Reach c ⟨T.leave d r s', Function.update c.running d none⟩ := by
  induction h with
  | pure a s =>
    rintro c rfl hrun
    exact Relation.ReflTransGen.single (Step.done c d a hrun)
  | throw e s =>
    rintro c rfl hrun
    exact Relation.ReflTransGen.single (Step.failed c d e hrun)
  | other h _ ih =>
    rintro c rfl hrun
    exact Relation.ReflTransGen.head (Step.env c _ h) (ih ⟨_, c.running⟩ rfl hrun)
  | @ask q k reply r s s' s'' h _ ih =>
    rintro c rfl hrun
    have hrest := ih ⟨s', Function.update c.running d (some (k reply))⟩ rfl (Function.update_self ..)
    simp only [Function.update_idem] at hrest
    exact Relation.ReflTransGen.head (Step.ask c d q k reply s' hrun h) hrest

/-! ### Invariants of all runs -/

/-- What has to be checked for an invariant `Inv` and protocols `P d` with postconditions `post d`. -/
structure Sound (T : Threads D Q A ε α S) (Inv : S → Prop) (P : D → Protocol Q A ε S)
    (post : D → α → S → Prop) : Prop where
  served : ∀ d q s r s', Inv s → T.step d q s r s' → Inv s' → (P d).step q s r s'
  enter : ∀ d s, Inv s → Inv (T.enter d s) ∧ (∀ d', d' ≠ d → (P d').rely s (T.enter d s)) ∧
    (P d).wp (post d) (fun _ _ => True) (T.body d) (T.enter d s)
  step : ∀ d q s r s', Inv s → (P d).pre q s → T.step d q s r s' →
    Inv s' ∧ ∀ d', d' ≠ d → (P d').rely s s'
  leave : ∀ d r s, Inv s → (∀ a, r = .ok a → post d a s) →
    Inv (T.leave d r s) ∧ ∀ d', d' ≠ d → (P d').rely s (T.leave d r s)
  env : ∀ s s', Inv s → T.env s s' → Inv s' ∧ ∀ d, (P d).rely s s'
  crash : ∀ d s, Inv s → Inv (T.crash d s) ∧ ∀ d', d' ≠ d → (P d').rely s (T.crash d s)

/-- The invariant holds of the store, and every program under way keeps to its protocol. -/
def Kept (Inv : S → Prop) (P : D → Protocol Q A ε S) (post : D → α → S → Prop) (c : Conf D Q A ε α S) : Prop :=
  Inv c.store ∧ ∀ d p, c.running d = some p → (P d).wp (post d) (fun _ _ => True) p c.store

section Sound

variable {Inv : S → Prop} {P : D → Protocol Q A ε S} {post : D → α → S → Prop} {c c' : Conf D Q A ε α S}

/-- The step lemma of `Kept`. -/
theorem Sound.step_kept (hT : Sound T Inv P post) (hc : Kept Inv P post c) (h : T.Step c c') :
    Kept Inv P post c' := by
  obtain ⟨hi, hw⟩ := hc
  -- a program that is not the one stepping is disturbed within its rely
  have other : ∀ {d : D} {s : S} {o : Option (Prog Q A ε α)}, (∀ d', d' ≠ d → (P d').rely c.store s) →
      (∀ p, o = some p → (P d).wp (post d) (fun _ _ => True) p s) →
      ∀ d' p, Function.update c.running d o d' = some p → (P d').wp (post d') (fun _ _ => True) p s := by
    intro d s o hrely hown d' p hp
    by_cases hd : d' = d
    · subst hd
      rw [Function.update_self] at hp
      exact hown p hp
    · rw [Function.update_of_ne hd] at hp
      exact Protocol.wp_rely (hw d' p hp) (hrely d' hd)
  cases h with
  | enter d h =>
    obtain ⟨h1, h2, h3⟩ := hT.enter d c.store hi
    exact ⟨h1, other h2 (fun p hp => by cases hp; exact h3)⟩
  | ask d q k r s h hs =>
    have hwp := hw d _ h
    obtain ⟨h1, h2⟩ := hT.step d q c.store r s hi (Protocol.wp_ask_pre hwp) hs
    exact ⟨h1, other h2 (fun p hp => by cases hp; exact Protocol.wp_ask_step hwp (hT.served d q _ r s hi hs h1))⟩
  | done d a h =>
    have hpost : post d a c.store := hw d _ h c.store ((P d).rely_refl _)
    obtain ⟨h1, h2⟩ := hT.leave d (.ok a) c.store hi (fun a' ha => by cases ha; exact hpost)
    exact ⟨h1, other h2 (fun p hp => by cases hp)⟩
  | failed d e h =>
    obtain ⟨h1, h2⟩ := hT.leave d (.error e) c.store hi (fun a ha => by cases ha)
    exact ⟨h1, other h2 (fun p hp => by cases hp)⟩
  | env s h =>
    obtain ⟨h1, h2⟩ := hT.env c.store s hi h
    exact ⟨h1, fun d p hp => Protocol.wp_rely (hw d p hp) (h2 d)⟩
  | crash d =>
    obtain ⟨h1, h2⟩ := hT.crash d c.store hi
    exact ⟨h1, other h2 (fun p hp => by cases hp)⟩

/-- The run lemma of `Kept`. -/
theorem Sound.reach (hT : Sound T Inv P post) (hc : Kept Inv P post c) (h : T.Reach c c') :
    Kept Inv P post c' := by
  induction h with
  | refl => exact hc
  | tail _ hstep ih => exact hT.step_kept ih hstep

omit [DecidableEq D] in
/-- Conditions on the steps of a system may carry a further invariant. -/
theorem Sound.strengthen (hT : Sound T Inv P post) {K : S → Prop} {okStep : D → Q → S → S → Prop}
    {okEnv : S → S → Prop} (henter : ∀ d s, Inv s → K s → K (T.enter d s))
    (hstep : ∀ d q s r s', Inv s → K s → (P d).pre q s → T.step d q s r s' → okStep d q s s' → Inv s' → K s')
    (hleave : ∀ d r s, Inv s → K s → K (T.leave d r s))
    (henv : ∀ s s', Inv s → K s → T.env s s' → okEnv s s' → Inv s' → K s')
    (hcrash : ∀ d s, Inv s → K s → K (T.crash d s)) :
    Sound (T.restrict okStep okEnv) (fun s => Inv s ∧ K s) P post where
  served := fun d q s r s' hi hs hi' => hT.served d q s r s' hi.1 hs.1 hi'.1
  enter := fun d s hi =>
    ⟨⟨(hT.enter d s hi.1).1, henter d s hi.1 hi.2⟩, (hT.enter d s hi.1).2⟩
  step := fun d q s r s' hi hp hs => by
    obtain ⟨h1, h2⟩ := hT.step d q s r s' hi.1 hp hs.1
    exact ⟨⟨h1, hstep d q s r s' hi.1 hi.2 hp hs.1 hs.2 h1⟩, h2⟩
  leave := fun d r s hi hp =>
    ⟨⟨(hT.leave d r s hi.1 hp).1, hleave d r s hi.1 hi.2⟩, (hT.leave d r s hi.1 hp).2⟩
  env := fun s s' hi hs => by
    obtain ⟨h1, h2⟩ := hT.env s s' hi.1 hs.1
    exact ⟨⟨h1, henv s s' hi.1 hi.2 hs.1 hs.2 h1⟩, h2⟩
  crash := fun d s hi =>
    ⟨⟨(hT.crash d s hi.1).1, hcrash d s hi.1 hi.2⟩, (hT.crash d s hi.1).2⟩

omit [DecidableEq D] in
/-- Programs may be shown more of, given the invariant of all runs. -/
theorem Sound.within (hT : Sound T Inv P (fun _ _ _ => True))
    (hbody : ∀ d s, Inv (T.enter d s) → ((P d).within Inv).wp (post d) (fun _ _ => True) (T.body d) (T.enter d s)) :
    Sound T Inv (fun d => (P d).within Inv) post where
  served := fun d q s r s' hi hs hi' => ⟨hT.served d q s r s' hi hs hi', hi, hi'⟩
  enter := fun d s hi => by
    obtain ⟨h1, h2, -⟩ := hT.enter d s hi
    exact ⟨h1, fun d' hd => ⟨h2 d' hd, fun _ => h1⟩, hbody d s h1⟩
  step := fun d q s r s' hi hp hs => by
    obtain ⟨h1, h2⟩ := hT.step d q s r s' hi hp hs
    exact ⟨h1, fun d' hd => ⟨h2 d' hd, fun _ => h1⟩⟩
  leave := fun d r s hi _ => by
    obtain ⟨h1, h2⟩ := hT.leave d r s hi (fun _ _ => trivial)
    exact ⟨h1, fun d' hd => ⟨h2 d' hd, fun _ => h1⟩⟩
  env := fun s s' hi hs => by
    obtain ⟨h1, h2⟩ := hT.env s s' hi hs
    exact ⟨h1, fun d => ⟨h2 d, fun _ => h1⟩⟩
  crash := fun d s hi => by
    obtain ⟨h1, h2⟩ := hT.crash d s hi
    exact ⟨h1, fun d' hd => ⟨h2 d' hd, fun _ => h1⟩⟩

omit [DecidableEq D] in
theorem kept_of_idle (hi : Inv c.store) (hidle : ∀ d, c.running d = none) : Kept Inv P post c :=
  ⟨hi, fun d p hp => by rw [hidle d] at hp; cases hp⟩

omit [DecidableEq D] in
/-- A request under way is asked within its precondition. -/
theorem Kept.pre (hc : Kept Inv P post c) {d : D} {q : Q} {k : Except ε (A q) → Prog Q A ε α}
    (h : c.running d = some (.ask q k)) : (P d).pre q c.store :=
  Protocol.wp_ask_pre (hc.2 d _ h)

end Sound

/-! ### Guarded programs of a system -/

/-- What has to be checked for an invariant that guarded programs keep, given what holds of all stores reached. -/
structure Guarding (T : Threads D Q A ε α S) (J I : S → Prop) (may : Q → Prop) (gets : (q : Q) → Except ε (A q) → Prop) :
    Prop where
  body : ∀ d, (T.body d).Guarded may gets (fun _ => True)
  enter : ∀ d s, I s → I (T.enter d s)
  step : ∀ d q s r s', J s → J s' → I s → may q → T.step d q s r s' → I s' ∧ gets q r
  leave : ∀ d r s, I s → I (T.leave d r s)
  env : ∀ s s', J s → J s' → I s → T.env s s' → I s'
  crash : ∀ d s, I s → I (T.crash d s)

/-- The run lemma of guarded programs. -/
theorem Guarding.reach {J I : S → Prop} {may : Q → Prop} {gets : (q : Q) → Except ε (A q) → Prop} (hT : Guarding T J I may gets)
    {c c' : Conf D Q A ε α S} (hJ : ∀ c', T.Reach c c' → J c'.store) (hi : I c.store)
    (hidle : ∀ d, c.running d = none) (h : T.Reach c c') :
    I c'.store ∧ ∀ d p, c'.running d = some p → p.Guarded may gets (fun _ => True) := by
  induction h with
  | refl => exact ⟨hi, fun d p hp => by rw [hidle d] at hp; cases hp⟩
  | tail hreach hstep ih =>
    obtain ⟨hs, hw⟩ := ih
    have hj := hJ _ hreach
    have hj' := hJ _ (hreach.tail hstep)
    -- only the program of the party that steps changes
    have other : ∀ {d : D} {o : Option (Prog Q A ε α)} {b : Conf D Q A ε α S},
        (∀ d p, b.running d = some p → p.Guarded may gets (fun _ => True)) →
        (∀ p, o = some p → p.Guarded may gets (fun _ => True)) →
        ∀ d' p, (Function.update b.running d o) d' = some p → p.Guarded may gets (fun _ => True) := by
      intro d o b hb ho d' p hp
      by_cases hd : d' = d
      · rw [hd, Function.update_self] at hp
        exact ho p hp
      · rw [Function.update_of_ne hd] at hp
        exact hb d' p hp
    cases hstep with
    | enter d hd => exact ⟨hT.enter d _ hs, other hw (fun p hp => by cases hp; exact hT.body d)⟩
    | ask d q k r s hd hask =>
      obtain ⟨hmay, hrest⟩ := hw d _ hd
      obtain ⟨hs', hgets⟩ := hT.step d q _ r s hj hj' hs hmay hask
      exact ⟨hs', other hw (fun p hp => by cases hp; exact hrest r hgets)⟩
    | done d a hd => exact ⟨hT.leave d _ _ hs, other hw (fun p hp => by cases hp)⟩
    | failed d e hd => exact ⟨hT.leave d _ _ hs, other hw (fun p hp => by cases hp)⟩
    | env s henv => exact ⟨hT.env _ s hj hj' hs henv, hw⟩
    | crash d => exact ⟨hT.crash d _ hs, other hw (fun p hp => by cases hp)⟩

/-- What has to be checked for an invariant that guarded parties keep, each guarded in its own way. -/
structure Parties (T : Threads D Q A ε α S) (I : S → Prop) (may : D → Q → Prop)
    (gets : D → (q : Q) → Except ε (A q) → Prop) (post : D → α → Prop) : Prop where
  body : ∀ d, (T.body d).Guarded (may d) (gets d) (post d)
  enter : ∀ d s, I s → I (T.enter d s)
  step : ∀ d q s r s', I s → may d q → T.step d q s r s' → I s' ∧ gets d q r
  leave : ∀ d r s, I s → (∀ a, r = .ok a → post d a) → I (T.leave d r s)
  env : ∀ s s', I s → T.env s s' → I s'
  crash : ∀ d s, I s → I (T.crash d s)

/-- The run lemma of guarded parties. -/
theorem Parties.reach {I : S → Prop} {may : D → Q → Prop} {gets : D → (q : Q) → Except ε (A q) → Prop} {post : D → α → Prop}
    (hT : Parties T I may gets post) {c c' : Conf D Q A ε α S} (hi : I c.store)
    (hrun : ∀ d p, c.running d = some p → p.Guarded (may d) (gets d) (post d)) (h : T.Reach c c') :
    I c'.store ∧ ∀ d p, c'.running d = some p → p.Guarded (may d) (gets d) (post d) := by
  induction h with
  | refl => exact ⟨hi, hrun⟩
  | tail _ hstep ih =>
    obtain ⟨hs, hw⟩ := ih
    -- only the program of the party that steps changes
    have other : ∀ {d : D} {o : Option (Prog Q A ε α)} {b : Conf D Q A ε α S},
        (∀ d p, b.running d = some p → p.Guarded (may d) (gets d) (post d)) →
        (∀ p, o = some p → p.Guarded (may d) (gets d) (post d)) →
        ∀ d' p, (Function.update b.running d o) d' = some p → p.Guarded (may d') (gets d') (post d') := by
      intro d o b hb ho d' p hp
      by_cases hd : d' = d
      · subst hd
        rw [Function.update_self] at hp
        exact ho p hp
      · rw [Function.update_of_ne hd] at hp
        exact hb d' p hp
    cases hstep with
    | enter d hd => exact ⟨hT.enter d _ hs, other hw (fun p hp => by cases hp; exact hT.body d)⟩
    | ask d q k r s hd hask =>
      obtain ⟨hmay, hrest⟩ := hw d _ hd
      obtain ⟨hs', hgets⟩ := hT.step d q _ r s hs hmay hask
      exact ⟨hs', other hw (fun p hp => by cases hp; exact hrest r hgets)⟩
    | done d a hd =>
      exact ⟨hT.leave d _ _ hs (fun b hb => by cases hb; exact hw d _ hd), other hw (fun p hp => by cases hp)⟩
    | failed d e hd => exact ⟨hT.leave d _ _ hs (fun b hb => by cases hb), other hw (fun p hp => by cases hp)⟩
    | env s henv => exact ⟨hT.env _ s hs henv, hw⟩
    | crash d => exact ⟨hT.crash d _ hs, other hw (fun p hp => by cases hp)⟩

end Threads

end EasyDocket
