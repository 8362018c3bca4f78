import EasyDocket.Books.Transactions
import EasyDocket.JsNumber

/-!
# Quoted rates

The quotes that are held, the rate that is looked up for a pair on a date, and the checks on what is entered.
-/

namespace EasyDocket

namespace Books

/-- A quoted exchange rate: how many units of `quote` one unit of `base` buys on a given day. -/
structure ExchangeRate where
  /-- `<base>:<quote>:<date>`, so the same quote cannot be stored twice. -/
  id : JsString
  base : JsString
  quote : JsString
  rate : ℚ
  date : JsString
  positive : 0 < rate

/-- What a rate was quoted for: units of `quote` for one unit of `base`. -/
structure Pair where
  base : JsString
  quote : JsString
  deriving DecidableEq

structure RateDraft where
  base : JsString
  quote : JsString
  rate : ℚ
  date : JsString

section Definitions

variable (T : Text)

/-! ## Looking rates up -/

/-- The body of the loop of `rateFor`. -/
def rateStep (base quote date : JsString) (best : Option ExchangeRate) (candidate : ExchangeRate) : Option ExchangeRate :=
  if !sameCurrency T candidate.base base || !sameCurrency T candidate.quote quote then best
  else if date < candidate.date then best
  else
    match best with
    | none => some candidate
    | some b => if b.date < candidate.date then some candidate else some b

/-- `rateFor`: the quote for a day, or the most recent one before it. -/
def rateFor (rates : List ExchangeRate) (base quote date : JsString) : Option ExchangeRate :=
  if sameCurrency T base quote then none else rates.foldl (rateStep T base quote date) none

/-- `invertRate`. -/
def invertRate (rate : ℚ) : Except RateError ℚ := if rate ≤ 0 then .error ⟨rate⟩ else .ok (1 / rate)

/-- What a quote is worth the other way round. -/
def ExchangeRate.inverse (q : ExchangeRate) : ℚ := 1 / q.rate

theorem invertRate_rate (q : ExchangeRate) : invertRate q.rate = .ok q.inverse := if_neg (not_le.mpr q.positive)

/-- `rateToReporting`: the rate to use against the reporting currency.  One quote describes a pair in both directions. -/
def rateToReporting (rates : List ExchangeRate) (reporting base date : JsString) : Option ℚ :=
  if sameCurrency T base reporting then some 1
  else
    match rateFor T rates base reporting date with
    | some direct => some direct.rate
    | none => (rateFor T rates reporting base date).map ExchangeRate.inverse

/-! ## Checks -/

def isUpper (c : CodeUnit) : Bool := unit 'A' ≤ c && c ≤ unit 'Z'

/-- `[A-Z]{3}`. -/
def currencyPattern : Pattern CodeUnit := [⟨isUpper, 3, 3⟩]

def assertCurrency (code : JsString) : Except JsString Unit :=
  if currencyPattern.isMatch code then .ok () else .error (js "\"" ++ code ++ js "\" is not a three-letter currency code")

def rateId (base quote date : JsString) : JsString := T.toUpperCase base ++ js ":" ++ T.toUpperCase quote ++ js ":" ++ date

/-- The quote that `save` makes of a draft. -/
def RateDraft.save (draft : RateDraft) : Except JsString ExchangeRate :=
  let base := T.toUpperCase (JsNumber.trim draft.base)
  let quote := T.toUpperCase (JsNumber.trim draft.quote)
  match assertCurrency base with
  | .error e => .error e
  | .ok () =>
    match assertCurrency quote with
    | .error e => .error e
    | .ok () =>
      if sameCurrency T base quote then .error (js "A currency is always worth one of itself")
      else if h : draft.rate ≤ 0 then .error (js "The rate must be a positive number")
      else if datePattern.isMatch draft.date = false then .error (js "Date must be YYYY-MM-DD")
      else .ok ⟨rateId T base quote draft.date, base, quote, draft.rate, draft.date, not_le.mp h⟩

end Definitions

section Lookup

variable {T : Text} {rates : List ExchangeRate} {base quote reporting date : JsString} {best : Option ExchangeRate}
  {candidate q : ExchangeRate} {rate : ℚ}

/-- A quote for a pair that is not from after a date. -/
structure Applies (T : Text) (base quote date : JsString) (q : ExchangeRate) : Prop where
  base : sameCurrency T q.base base = true
  quote : sameCurrency T q.quote quote = true
  date : q.date ≤ date

theorem rateStep_skip (h : ¬ Applies T base quote date candidate) : rateStep T base quote date best candidate = best := by
  unfold rateStep
  split_ifs with hpair hdate
  · rfl
  · rfl
  · rw [Bool.or_eq_true, not_or] at hpair
    exact absurd ⟨by simpa using hpair.1, by simpa using hpair.2, not_lt.mp hdate⟩ h

theorem rateStep_of_applies (h : Applies T base quote date candidate) : rateStep T base quote date best candidate =
    match best with
    | none => some candidate
    | some b => if b.date < candidate.date then some candidate else some b := by
  unfold rateStep
  rw [h.base, h.quote, if_neg (by decide), if_neg (not_lt.mpr h.date)]

/-- The latest of the quotes that apply. -/
structure Latest (T : Text) (base quote date : JsString) (seen : List ExchangeRate) (q : ExchangeRate) : Prop where
  mem : q ∈ seen
  applies : Applies T base quote date q
  latest : ∀ c ∈ seen, Applies T base quote date c → c.date ≤ q.date

/-- What the loop of `rateFor` keeps. -/
def Best (T : Text) (base quote date : JsString) (seen : List ExchangeRate) : Option ExchangeRate → Prop
  | none => ∀ c ∈ seen, ¬ Applies T base quote date c
  | some q => Latest T base quote date seen q

variable {seen : List ExchangeRate}

theorem Latest.append (h : Latest T base quote date seen q) (hc : Applies T base quote date candidate → candidate.date ≤ q.date) :
    Latest T base quote date (seen ++ [candidate]) q := by
  refine ⟨List.mem_append_left _ h.mem, h.applies, fun c hin happlies => ?_⟩
  rcases List.mem_append.mp hin with hin | hin
  · exact h.latest c hin happlies
  · obtain rfl := List.mem_singleton.mp hin
    exact hc happlies

theorem latest_new (hc : Applies T base quote date candidate)
    (h : ∀ c ∈ seen, Applies T base quote date c → c.date ≤ candidate.date) :
    Latest T base quote date (seen ++ [candidate]) candidate := by
  refine ⟨List.mem_append_right _ (List.mem_singleton_self _), hc, fun c hin happlies => ?_⟩
  rcases List.mem_append.mp hin with hin | hin
  · exact h c hin happlies
  · rw [List.mem_singleton.mp hin]

theorem Best.step (h : Best T base quote date seen best) :
    Best T base quote date (seen ++ [candidate]) (rateStep T base quote date best candidate) := by
  by_cases ha : Applies T base quote date candidate
  · rw [rateStep_of_applies ha]
    cases best with
    | none => exact latest_new ha (fun c hin happlies => absurd happlies (h c hin))
    | some b =>
      have hb : Latest T base quote date seen b := h
      dsimp only
      by_cases hlt : b.date < candidate.date
      · rw [if_pos hlt]
        exact latest_new ha (fun c hin happlies => (hb.latest c hin happlies).trans hlt.le)
      · rw [if_neg hlt]
        exact hb.append (fun _ => not_lt.mp hlt)
  · rw [rateStep_skip ha]
    cases best with
    | none =>
      intro c hin
      rcases List.mem_append.mp hin with hin | hin
      · exact h c hin
      · rw [List.mem_singleton.mp hin]
        exact ha
    | some b => exact Latest.append h (fun happlies => absurd happlies ha)

/-- The loop of `rateFor` finds the latest quote; by induction on what is left. -/
theorem Best.foldl : ∀ {rates seen : List ExchangeRate} {best : Option ExchangeRate}, Best T base quote date seen best →
    Best T base quote date (seen ++ rates) (rates.foldl (rateStep T base quote date) best)
  | [], seen, best, h => by
    rw [List.append_nil]
    exact h
  | candidate :: rates, seen, best, h => by
    have hmove : seen ++ candidate :: rates = (seen ++ [candidate]) ++ rates := by simp
    rw [List.foldl_cons, hmove]
    exact Best.foldl h.step

/-- A rate that is found is the latest that applies. -/
theorem rateFor_latest (h : rateFor T rates base quote date = some q) : Latest T base quote date rates q := by
  unfold rateFor at h
  split_ifs at h
  have hloop : Best T base quote date ([] ++ rates) (rates.foldl (rateStep T base quote date) none) :=
    Best.foldl (fun c hc => absurd hc List.not_mem_nil)
  rw [h] at hloop
  exact hloop

/-- A rate that was quoted for a pair, in one direction or the other. -/
def Quoted (T : Text) (rates : List ExchangeRate) (pair : Pair) (rate : ℚ) : Prop :=
  ∃ q ∈ rates, sameCurrency T q.base pair.base = true ∧ sameCurrency T q.quote pair.quote = true ∧ rate = q.rate ∨
    sameCurrency T q.base pair.quote = true ∧ sameCurrency T q.quote pair.base = true ∧ rate = q.inverse

theorem rateToReporting_quoted (h : rateToReporting T rates reporting base date = some rate) :
    sameCurrency T base reporting = true ∨ Quoted T rates ⟨base, reporting⟩ rate := by
  unfold rateToReporting at h
  split_ifs at h with hsame
  · exact Or.inl hsame
  · right
    cases hdirect : rateFor T rates base reporting date with
    | some q =>
      have hq := rateFor_latest hdirect
      rw [hdirect] at h
      exact ⟨q, hq.mem, Or.inl ⟨hq.applies.base, hq.applies.quote, (Option.some.inj h).symm⟩⟩
    | none =>
      rw [hdirect] at h
      obtain ⟨q, hreverse, hrate⟩ := Option.map_eq_some_iff.mp h
      have hq := rateFor_latest hreverse
      exact ⟨q, hq.mem, Or.inr ⟨hq.applies.base, hq.applies.quote, hrate.symm⟩⟩

/-- A rate that is found is positive. -/
theorem rateToReporting_pos (h : rateToReporting T rates reporting base date = some rate) : 0 < rate := by
  unfold rateToReporting at h
  split_ifs at h
  · exact Option.some.inj h ▸ one_pos
  · cases hdirect : rateFor T rates base reporting date with
    | some q =>
      rw [hdirect] at h
      exact Option.some.inj h ▸ q.positive
    | none =>
      rw [hdirect] at h
      obtain ⟨q, -, hrate⟩ := Option.map_eq_some_iff.mp h
      exact hrate ▸ one_div_pos.mpr q.positive

end Lookup

end Books

end EasyDocket
