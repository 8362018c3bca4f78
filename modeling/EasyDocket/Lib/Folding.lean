import Mathlib.Algebra.BigOperators.Group.List.Basic
import Mathlib.Algebra.BigOperators.Group.List.Lemmas
import Mathlib.Algebra.GroupWithZero.Nat
import Mathlib.Algebra.Order.Group.Nat
import Mathlib.Data.List.Nodup
import Mathlib.Tactic.Common

/-!
# Loops that add up

A loop over a list, as a fold that may fail.  `foldlM_ok` and `foldl_of_ok` relate it to a fold that does not fail, and
`foldl_measure` says what a measure of its state comes to when every step adds to it.
-/

namespace EasyDocket

variable {α σ ε M : Type}

theorem foldlM_cons_ok {step : σ → α → Except ε σ} {a : α} {l : List α} {s s'' : σ}
    (h : (a :: l).foldlM step s = .ok s'') : ∃ s', step s a = .ok s' ∧ l.foldlM step s' = .ok s'' := by
  rw [List.foldlM_cons] at h
  cases hs : step s a with
  | error e =>
    rw [hs] at h
    cases h
  | ok s' =>
    rw [hs] at h
    exact ⟨s', rfl, h⟩

/-- A loop whose steps do not fail. -/
theorem foldlM_ok {step : σ → α → Except ε σ} {pureStep : σ → α → σ} : ∀ {l : List α} {s : σ},
    (∀ a ∈ l, ∀ s, step s a = .ok (pureStep s a)) → l.foldlM step s = .ok (l.foldl pureStep s)
  | [], _, _ => rfl
  | a :: l, s, h => by
    rw [List.foldlM_cons, h a List.mem_cons_self s]
    exact foldlM_ok (fun b hb => h b (List.mem_cons_of_mem _ hb))

/-- A list that is mapped without a failure. -/
theorem mapM_ok {β : Type} {f : α → Except ε β} {g : α → β} : ∀ {l : List α}, (∀ a ∈ l, f a = .ok (g a)) →
    l.mapM f = .ok (l.map g)
  | [], _ => rfl
  | a :: l, h => by
    rw [List.mapM_cons, h a List.mem_cons_self, mapM_ok (fun b hb => h b (List.mem_cons_of_mem _ hb))]
    rfl

/-- A loop that did not fail. -/
theorem foldl_of_ok {step : σ → α → Except ε σ} {pureStep : σ → α → σ}
    (h : ∀ s a s', step s a = .ok s' → s' = pureStep s a) : ∀ {l : List α} {s s' : σ},
    l.foldlM step s = .ok s' → s' = l.foldl pureStep s
  | [], _, _, hs => (Except.ok.inj hs).symm
  | a :: l, s, s'', hs => by
    obtain ⟨s', hstep, hrest⟩ := foldlM_cons_ok hs
    rw [List.foldl_cons, ← h s a s' hstep]
    exact foldl_of_ok h hrest

/-- No step of a loop that did not fail has failed. -/
theorem step_of_ok {step : σ → α → Except ε σ} : ∀ {l : List α} {s s' : σ}, l.foldlM step s = .ok s' →
    ∀ a ∈ l, ∃ t t', step t a = .ok t'
  | [], _, _, _, _, ha => absurd ha List.not_mem_nil
  | b :: l, s, s'', hs, a, ha => by
    obtain ⟨s', hstep, hrest⟩ := foldlM_cons_ok hs
    rcases List.mem_cons.mp ha with rfl | ha
    · exact ⟨s, s', hstep⟩
    · exact step_of_ok hrest a ha

/-- A loop within a loop is one loop. -/
theorem foldlM_flatMap {β : Type} {step : σ → β → Except ε σ} (f : α → List β) : ∀ (l : List α) (s : σ),
    (l.flatMap f).foldlM step s = l.foldlM (fun s a => (f a).foldlM step s) s
  | [], _ => rfl
  | a :: l, s => by
    rw [List.flatMap_cons, List.foldlM_append, List.foldlM_cons]
    exact congrArg _ (funext (fun s' => foldlM_flatMap f l s'))

/-- What a measure of the state comes to. -/
theorem foldl_measure [AddMonoid M] {step : σ → α → σ} {φ : σ → M} {f : α → M}
    (h : ∀ s a, φ (step s a) = φ s + f a) : ∀ (l : List α) (s : σ), φ (l.foldl step s) = φ s + (l.map f).sum
  | [], s => by simp
  | a :: l, s => by
    rw [List.foldl_cons, foldl_measure h l (step s a), h, List.map_cons, List.sum_cons, add_assoc]

/-- A loop whose steps cannot tell elements from their images. -/
theorem foldlM_map_of_eq {step : σ → α → Except ε σ} {f : α → α} : ∀ {l : List α} {s : σ},
    (∀ a ∈ l, ∀ s, step s a = step s (f a)) → l.foldlM step s = (l.map f).foldlM step s
  | [], _, _ => rfl
  | a :: l, s, h => by
    rw [List.map_cons, List.foldlM_cons, List.foldlM_cons, h a List.mem_cons_self s]
    exact congrArg _ (funext (fun s' => foldlM_map_of_eq (fun b hb => h b (List.mem_cons_of_mem _ hb))))

/-- What holds throughout a run, if a step keeps it exactly when it meets a condition; by induction on the run. -/
theorem foldl_throughout_iff {step : σ → α → σ} {invariant promise : σ → Prop} {condition : σ → α → Prop}
    (hinvariant : ∀ s a, invariant s → invariant (step s a))
    (hstep : ∀ s a, invariant s → promise s → (promise (step s a) ↔ condition s a)) : ∀ (l : List α) (s : σ),
    invariant s → promise s → ((∀ past, past <+: l → promise (past.foldl step s)) ↔
      ∀ past a, past ++ [a] <+: l → condition (past.foldl step s) a)
  | [], s, _, hp => by
    constructor
    · intro _ past a h
      exact absurd (List.prefix_nil.mp h) (by simp)
    · intro _ past h
      rw [List.prefix_nil.mp h]
      exact hp
  | a :: l, s, hi, hp => by
    have ih := foldl_throughout_iff hinvariant hstep l (step s a) (hinvariant s a hi)
    constructor
    · intro h past b hpast
      have hnext : promise (step s a) := h [a] (by simp)
      rcases List.prefix_cons_iff.mp hpast with hnil | ⟨rest, heq, hrest⟩
      · exact absurd hnil (by simp)
      · cases past with
        | nil =>
          obtain ⟨rfl, -⟩ := List.cons.inj heq
          exact (hstep s b hi hp).mp hnext
        | cons c past =>
          obtain ⟨rfl, rfl⟩ := List.cons.inj heq
          exact (ih hnext).mp (fun past hin => h (c :: past) (List.cons_prefix_cons.mpr ⟨rfl, hin⟩)) past b hrest
    · intro h past hpast
      have hnext : promise (step s a) := (hstep s a hi hp).mpr (h [] a (by simp))
      rcases List.prefix_cons_iff.mp hpast with rfl | ⟨rest, rfl, hrest⟩
      · exact hp
      · exact (ih hnext).mpr (fun past b hin => h (a :: past) b (List.cons_prefix_cons.mpr ⟨rfl, hin⟩)) rest hrest

/-! ## Sums over lists -/

theorem sum_map_ite_one (p : α → Bool) : ∀ l : List α, (l.map (fun a => if p a then 1 else 0)).sum = l.countP p
  | [] => rfl
  | a :: l => by
    rw [List.map_cons, List.sum_cons, sum_map_ite_one p l, List.countP_cons, Nat.add_comm]

theorem sum_map_eq_zero [AddMonoid M] {f : α → M} : ∀ {l : List α}, (∀ a ∈ l, f a = 0) → (l.map f).sum = 0
  | [], _ => rfl
  | a :: l, h => by
    rw [List.map_cons, List.sum_cons, h a List.mem_cons_self, zero_add]
    exact sum_map_eq_zero (fun b hb => h b (List.mem_cons_of_mem _ hb))

theorem sum_map_sub [AddCommGroup M] (f g : α → M) : ∀ l : List α,
    (l.map (fun a => f a - g a)).sum = (l.map f).sum - (l.map g).sum
  | [] => (sub_zero 0).symm
  | a :: l => by
    simp only [List.map_cons, List.sum_cons]
    rw [sum_map_sub f g l, add_sub_add_comm]

/-- A sum over distinct keys, of which one counts. -/
theorem sum_map_ite [AddCommMonoid M] [DecidableEq α] {a : α} {x : M} : ∀ {l : List α}, l.Nodup →
    (l.map (fun k => if a = k then x else 0)).sum = if a ∈ l then x else 0
  | [], _ => rfl
  | k :: l, h => by
    obtain ⟨hk, hl⟩ := List.nodup_cons.mp h
    rw [List.map_cons, List.sum_cons, sum_map_ite hl]
    by_cases hak : a = k
    · subst hak
      rw [if_pos rfl, if_neg hk, if_pos List.mem_cons_self, add_zero]
    · rw [if_neg hak, zero_add]
      simp [List.mem_cons, hak]

/-- Sums over two lists may be swapped. -/
theorem sum_swap [AddCommMonoid M] {β : Type} (f : α → β → M) (l : List α) (k : List β) :
    (k.map (fun b => (l.map (fun a => f a b)).sum)).sum = (l.map (fun a => (k.map (fun b => f a b)).sum)).sum := by
  induction l with
  | nil => exact sum_map_eq_zero (fun b _ => rfl)
  | cons a l ih =>
    simp only [List.map_cons, List.sum_cons]
    rw [List.sum_map_add, ih]

/-! ## Lists split by a key -/

/-- A list is split by distinct keys, and what has no key; by induction on the keys. -/
theorem flatten_filter_perm {κ : Type} [DecidableEq κ] (key : α → Option κ) : ∀ (keys : List κ) (l : List α), keys.Nodup →
    (∀ a ∈ l, ∀ k, key a = some k → k ∈ keys) →
    ((keys.map (fun k => l.filter (fun a => key a = some k))).flatten ++ l.filter (fun a => key a = none)).Perm l
  | [], l, _, h => by
    have hnone : ∀ a ∈ l, decide (key a = none) = true := by
      intro a ha
      rw [decide_eq_true_eq, Option.eq_none_iff_forall_ne_some]
      exact fun k hk => List.not_mem_nil (h a ha k hk)
    rw [List.map_nil, List.flatten_nil, List.nil_append, List.filter_eq_self.mpr hnone]
  | k :: keys, l, hn, h => by
    obtain ⟨hk, hn⟩ := List.nodup_cons.mp hn
    have hother : ∀ a, key a ≠ some k → (!decide (key a = some k)) = true := fun a ha => by simp [ha]
    have ih := flatten_filter_perm key keys (l.filter (fun a => !decide (key a = some k))) hn (by
      intro a ha j hj
      obtain ⟨hal, hak⟩ := List.mem_filter.mp ha
      rcases List.mem_cons.mp (h a hal j hj) with rfl | hin
      · simp [hj] at hak
      · exact hin)
    have hrest : keys.map (fun j => (l.filter (fun a => !decide (key a = some k))).filter (fun a => key a = some j)) =
        keys.map (fun j => l.filter (fun a => key a = some j)) := by
      refine List.map_congr_left (fun j hj => ?_)
      rw [List.filter_filter]
      refine List.filter_congr (fun a _ => ?_)
      by_cases haj : key a = some j
      · have hjk : j ≠ k := fun he => hk (he ▸ hj)
        simp [haj, hjk]
      · simp [haj]
    have hnone : (l.filter (fun a => !decide (key a = some k))).filter (fun a => key a = none) =
        l.filter (fun a => key a = none) := by
      rw [List.filter_filter]
      refine List.filter_congr (fun a _ => ?_)
      by_cases ha : key a = none <;> simp [ha]
    rw [hrest, hnone] at ih
    rw [List.map_cons, List.flatten_cons, List.append_assoc]
    exact (List.Perm.append_left _ ih).trans (List.filter_append_perm _ l)

end EasyDocket
