import EasyDocket.Books.Money
import EasyDocket.Import.Plan

/-!
# Amount cells

What `parseAmountCell` makes of an amount with two decimals, a symbol and a mark for negatives.  Cells are read right but
where a symbol hides the mark: parentheses within the symbol are dropped, and so the sign with them; a minus that trails
within it is not read at all.  What `formatAmount` writes is read as it was unless it has an exponent (`readsAmounts_iff`).
-/

namespace EasyDocket

namespace Import

open Books JsNumber Numeral

/-! ## Cells -/

/-- How a cell says that an amount is negative. -/
inductive Mark
  | unmarked
  | leading
  | trailing
  | parentheses
  deriving DecidableEq

/-- Where a currency symbol or code stands. -/
inductive SymbolPlace
  | absent
  | before
  | after
  deriving DecidableEq

/-- Put a mark around a text. -/
def Mark.around : Mark → JsString → JsString
  | .unmarked, s => s
  | .leading, s => dash :: s
  | .trailing, s => s ++ [dash]
  | .parentheses, s => unit '(' :: (s ++ [unit ')'])

/-- A character of a currency symbol or code. -/
def isSymbolChar (c : CodeUnit) : Bool :=
  !isDigit c && c ≠ comma && c ≠ point && c ≠ dash && c ≠ unit '(' && c ≠ unit ')' && !isStrWhiteSpace c

/-- White space on one line. -/
def isGapChar (c : CodeUnit) : Bool := isStrWhiteSpace c && !isLineTerminator c

/-- An amount with two decimals; the separator that is not the decimal mark may group the digits before it. -/
structure Figures where
  decimalComma : Bool
  whole : JsString
  tenths : ℕ
  hundredths : ℕ
  whole_chars : ∀ c ∈ whole, isDigit c = true ∨ c = if decimalComma then point else comma
  has_digit : ∃ c ∈ whole, isDigit c = true
  tenths_lt : tenths < 10
  hundredths_lt : hundredths < 10

namespace Figures

def decimal (f : Figures) : CodeUnit := if f.decimalComma then comma else point

def text (f : Figures) : JsString := f.whole ++ f.decimal :: [digitText f.tenths, digitText f.hundredths]

/-- The amount in minor units. -/
def minor (f : Figures) : ℕ := numberOf (f.whole.filter isDigit) * 100 + f.tenths * 10 + f.hundredths

end Figures

structure AmountCell where
  figures : Figures
  mark : Mark
  /-- The mark stands between the symbol and the figures. -/
  inside : Bool
  place : SymbolPlace
  symbol : JsString
  gap : JsString
  symbol_ne_nil : symbol ≠ []
  symbol_chars : ∀ c ∈ symbol, isSymbolChar c = true
  gap_chars : ∀ c ∈ gap, isGapChar c = true

namespace AmountCell

/-- Put the symbol beside a text. -/
def withSymbol (c : AmountCell) (s : JsString) : JsString :=
  match c.place with
  | .absent => s
  | .before => c.symbol ++ (c.gap ++ s)
  | .after => s ++ (c.gap ++ c.symbol)

def text (c : AmountCell) : JsString :=
  if c.inside then c.withSymbol (c.mark.around c.figures.text) else c.mark.around (c.withSymbol c.figures.text)

/-- The amount that is written. -/
def amount (c : AmountCell) : Minor := if c.mark = .unmarked then c.figures.minor else -c.figures.minor

/-- The symbol hides the mark: parentheses are within it, or a trailing minus is. -/
def Hidden (c : AmountCell) : Prop :=
  c.inside = true ∧
    (c.place ≠ .absent ∧ c.mark = .parentheses ∧ c.figures.minor ≠ 0 ∨ c.place = .after ∧ c.mark = .trailing)

end AmountCell

/-- A cell is read as the amount that is written, and a marked one never as a positive amount. -/
structure ReadsCell (T : Text) (currency : JsString) (c : AmountCell) : Prop where
  amount : parseAmountCell exactly T c.text currency = some (.exact c.amount)
  negative : c.mark ≠ .unmarked → ∀ n, parseAmountCell exactly T c.text currency = some (.exact n) → n ≤ 0

/-! ## Taking a cell apart -/

/-- `[\d,.\-]`. -/
def isAmountChar (c : CodeUnit) : Bool := isDigit c || c = comma || c = point || c = dash

/-- A text that does not begin nor end with white space. -/
structure Solid (s : JsString) : Prop where
  head : ∃ c rest, s = c :: rest ∧ isStrWhiteSpace c = false
  last : ∃ rest c, s = rest ++ [c] ∧ isStrWhiteSpace c = false

variable {s t gap : JsString} {c : AmountCell} {f : Figures} {T : Text} {currency : JsString}

theorem Solid.of_forall (hne : s ≠ []) (h : ∀ x ∈ s, isStrWhiteSpace x = false) : Solid s := by
  refine ⟨?_, s.dropLast, s.getLast hne, (List.dropLast_append_getLast hne).symm, h _ (List.getLast_mem hne)⟩
  obtain ⟨x, rest, rfl⟩ := List.exists_cons_of_ne_nil hne
  exact ⟨x, rest, rfl, h x List.mem_cons_self⟩

theorem Solid.append (hs : Solid s) (ht : Solid t) (gap : JsString) : Solid (s ++ (gap ++ t)) := by
  obtain ⟨x, rest, rfl, hx⟩ := hs.head
  obtain ⟨init, y, rfl, hy⟩ := ht.last
  exact ⟨⟨x, _, List.cons_append, hx⟩, x :: rest ++ (gap ++ init), y, by simp only [List.append_assoc], hy⟩

theorem Solid.trim (h : Solid s) : JsNumber.trim s = s := by
  obtain ⟨x, rest, hhead, hx⟩ := h.head
  obtain ⟨init, y, hlast, hy⟩ := h.last
  have hstart : trimStart s = s := by
    rw [hhead]
    exact List.dropWhile_cons_of_neg (by rw [hx]; exact Bool.false_ne_true)
  have hend : trimStart s.reverse = s.reverse := by
    rw [hlast, List.reverse_concat]
    exact List.dropWhile_cons_of_neg (by rw [hy]; exact Bool.false_ne_true)
  unfold JsNumber.trim
  rw [hstart, hend, List.reverse_reverse]

theorem isStrWhiteSpace_of_amountChar {x : CodeUnit} (h : isAmountChar x = true) : isStrWhiteSpace x = false := by
  unfold isAmountChar at h
  simp only [Bool.or_eq_true, decide_eq_true_eq] at h
  rcases h with ((h | rfl) | rfl) | rfl
  · obtain ⟨ds, hds, heq⟩ := exists_digits_of_isDigit (s := [x]) (fun y hy => by rw [List.mem_singleton.mp hy]; exact h)
    exact space_of_lower (by decide) (heq ▸ isLowerDigit_of_digits hds) x List.mem_cons_self
  all_goals decide

theorem trim_filter (s : JsString) : JsNumber.trim (s.filter isAmountChar) = s.filter isAmountChar :=
  trim_of_forall (fun _ hx => isStrWhiteSpace_of_amountChar (List.mem_filter.mp hx).2)

theorem isParenthesised_of_head (h : s.head? ≠ some (unit '(')) : isParenthesised s = false := by
  cases s with
  | nil => rfl
  | cons x rest =>
    simp only [isParenthesised]
    rw [decide_eq_false (fun heq => h (congrArg some heq)), Bool.false_and, Bool.false_and]

theorem isParenthesised_of_last (h : s.getLast? ≠ some (unit ')')) : isParenthesised s = false := by
  cases s with
  | nil => rfl
  | cons x rest =>
    have hrest : rest.getLast? ≠ some (unit ')') := by
      intro hlast
      refine h ?_
      rw [List.getLast?_cons, hlast]
      rfl
    simp only [isParenthesised]
    rw [decide_eq_false hrest, Bool.and_false, Bool.false_and]

/-- What is left of a cell, read as a sign and figures. -/
def signed (negative : Bool) (t : JsString) : Bool × JsString :=
  (negative || decide (t.head? = some dash), if t.head? = some dash then t.drop 1 else t)

theorem amountParts_plain (h : Solid s) (hinner : isParenthesised s = false) (hlast : s.getLast? ≠ some dash) :
    amountParts s = signed false (s.filter isAmountChar) := by
  have htrim := trim_filter s
  unfold isAmountChar at htrim
  unfold amountParts signed isAmountChar
  simp only [h.trim, hinner, Bool.false_eq_true, if_false, if_neg hlast, decide_eq_false hlast, Bool.false_or, htrim]

theorem amountParts_trailing (h : Solid (s ++ [dash])) (hinner : isParenthesised (s ++ [dash]) = false) :
    amountParts (s ++ [dash]) = signed true (s.filter isAmountChar) := by
  have htrim := trim_filter s
  have hlast : (s ++ [dash]).getLast? = some dash := List.getLast?_concat
  unfold isAmountChar at htrim
  unfold amountParts signed isAmountChar
  simp only [h.trim, hinner, Bool.false_eq_true, if_false, hlast, if_true, decide_true, Bool.false_or, Bool.true_or,
    List.dropLast_concat, htrim]

theorem amountParts_inner (hline : ∀ x ∈ s, isLineTerminator x = false) (hlast : s.getLast? ≠ some dash) :
    amountParts (unit '(' :: (s ++ [unit ')'])) = signed true (s.filter isAmountChar) := by
  have htrim := trim_filter s
  have hsolid : Solid (unit '(' :: (s ++ [unit ')'])) :=
    ⟨⟨_, _, rfl, by decide⟩, unit '(' :: s, _, List.cons_append.symm, by decide⟩
  have hinner : isParenthesised (unit '(' :: (s ++ [unit ')'])) = true := by
    simp only [isParenthesised]
    rw [List.getLast?_concat, List.dropLast_concat, decide_true, decide_eq_true rfl, Bool.true_and, Bool.true_and,
      List.all_eq_true]
    intro x hx
    rw [hline x hx]
    rfl
  unfold isAmountChar at htrim
  unfold amountParts signed isAmountChar
  simp only [hsolid.trim, hinner, if_true, List.drop_succ_cons, List.drop_zero, List.dropLast_concat, if_neg hlast,
    decide_eq_false hlast, Bool.true_or, htrim]

/-! ## Figures -/

namespace Figures

theorem whole_amountChar (f : Figures) : ∀ x ∈ f.whole, isAmountChar x = true ∧ x ≠ dash := by
  intro x hx
  unfold isAmountChar
  rcases f.whole_chars x hx with h | h
  · refine ⟨by rw [h]; rfl, ?_⟩
    rintro rfl
    exact absurd h (by decide)
  · rw [h]
    split <;> exact ⟨by decide, by decide⟩

theorem text_amountChar (f : Figures) : ∀ x ∈ f.text, isAmountChar x = true ∧ x ≠ dash := by
  have hdigit : ∀ d < 10, isAmountChar (digitText d) = true ∧ digitText d ≠ dash := by decide
  intro x hx
  unfold text decimal at hx
  rcases List.mem_append.mp hx with hx | hx
  · exact f.whole_amountChar x hx
  · rcases List.mem_cons.mp hx with rfl | hx
    · split <;> exact ⟨by decide, by decide⟩
    · rcases List.mem_cons.mp hx with rfl | hx
      · exact hdigit _ f.tenths_lt
      · rw [List.mem_singleton.mp hx]
        exact hdigit _ f.hundredths_lt

theorem text_ne_nil (f : Figures) : f.text ≠ [] := by
  unfold text
  exact List.append_ne_nil_of_right_ne_nil _ (List.cons_ne_nil _ _)

theorem filter_text (f : Figures) : f.text.filter isAmountChar = f.text :=
  List.filter_eq_self.mpr (fun x hx => (f.text_amountChar x hx).1)

end Figures

/-! ## Marks and symbols -/

theorem isAmountChar_of_symbol {x : CodeUnit} (h : isSymbolChar x = true) : isAmountChar x = false := by
  unfold isSymbolChar at h
  unfold isAmountChar
  simp only [Bool.and_eq_true, Bool.not_eq_true', decide_eq_true_eq] at h
  obtain ⟨⟨⟨⟨⟨⟨hdigit, hcomma⟩, hpoint⟩, hdash⟩, -⟩, -⟩, -⟩ := h
  rw [hdigit, decide_eq_false hcomma, decide_eq_false hpoint, decide_eq_false hdash]
  rfl

theorem isAmountChar_of_gap {x : CodeUnit} (h : isGapChar x = true) : isAmountChar x = false := by
  unfold isGapChar at h
  rw [Bool.and_eq_true] at h
  refine Bool.eq_false_iff.mpr (fun hamount => ?_)
  rw [isStrWhiteSpace_of_amountChar hamount] at h
  exact Bool.false_ne_true h.1

/-- A symbol is neither white space nor a mark. -/
theorem symbolChar_facts {x : CodeUnit} (h : isSymbolChar x = true) :
    isStrWhiteSpace x = false ∧ x ≠ dash ∧ x ≠ unit '(' ∧ x ≠ unit ')' := by
  unfold isSymbolChar at h
  simp only [Bool.and_eq_true, Bool.not_eq_true', decide_eq_true_eq] at h
  obtain ⟨⟨⟨⟨-, hdash⟩, hopening⟩, hclosing⟩, hspace⟩ := h
  exact ⟨hspace, hdash, hopening, hclosing⟩

theorem isLineTerminator_of_space {x : CodeUnit} (h : isStrWhiteSpace x = false) : isLineTerminator x = false := by
  refine Bool.eq_false_iff.mpr (fun hline => ?_)
  unfold isLineTerminator at hline
  rw [List.contains_iff_mem] at hline
  have hspace : isStrWhiteSpace x = true := by
    unfold isStrWhiteSpace
    simp only [List.mem_cons, List.not_mem_nil, or_false] at hline
    rcases hline with h | h | h | h <;> rw [h] <;> rfl
  rw [hspace] at h
  cases h

namespace AmountCell

/-- What stands in a text with its symbol. -/
theorem mem_withSymbol {x : CodeUnit} (h : x ∈ c.withSymbol t) : isSymbolChar x = true ∨ isGapChar x = true ∨ x ∈ t := by
  unfold withSymbol at h
  cases hplace : c.place with
  | absent =>
    rw [hplace] at h
    exact Or.inr (Or.inr h)
  | before =>
    rw [hplace] at h
    rcases List.mem_append.mp h with h | h
    · exact Or.inl (c.symbol_chars x h)
    · exact Or.inr ((List.mem_append.mp h).imp (c.gap_chars x) id)
  | after =>
    rw [hplace] at h
    rcases List.mem_append.mp h with h | h
    · exact Or.inr (Or.inr h)
    · exact (List.mem_append.mp h).elim (fun h => Or.inr (Or.inl (c.gap_chars x h))) (fun h => Or.inl (c.symbol_chars x h))

theorem filter_symbol (c : AmountCell) : c.symbol.filter isAmountChar = [] ∧ c.gap.filter isAmountChar = [] := by
  refine ⟨List.filter_eq_nil_iff.mpr (fun x hx => ?_), List.filter_eq_nil_iff.mpr (fun x hx => ?_)⟩
  · rw [isAmountChar_of_symbol (c.symbol_chars x hx)]
    exact Bool.false_ne_true
  · rw [isAmountChar_of_gap (c.gap_chars x hx)]
    exact Bool.false_ne_true

/-- The symbol is dropped, and the gap. -/
theorem filter_withSymbol (c : AmountCell) (t : JsString) : (c.withSymbol t).filter isAmountChar = t.filter isAmountChar := by
  obtain ⟨hsymbol, hgap⟩ := c.filter_symbol
  unfold withSymbol
  cases c.place with
  | absent => rfl
  | before => rw [List.filter_append, List.filter_append, hsymbol, hgap, List.nil_append, List.nil_append]
  | after => rw [List.filter_append, List.filter_append, hsymbol, hgap, List.append_nil, List.append_nil]

theorem solid_symbol (c : AmountCell) : Solid c.symbol :=
  .of_forall c.symbol_ne_nil (fun x hx => (symbolChar_facts (c.symbol_chars x hx)).1)

theorem solid_withSymbol (c : AmountCell) (h : Solid t) : Solid (c.withSymbol t) := by
  unfold withSymbol
  cases c.place with
  | absent => exact h
  | before => exact c.solid_symbol.append h _
  | after => exact h.append c.solid_symbol _

/-- Where a text with its symbol begins. -/
theorem head_withSymbol {x : CodeUnit} (ht : t ≠ []) (h : (c.withSymbol t).head? = some x) :
    isSymbolChar x = true ∨ c.place ≠ .before ∧ t.head? = some x := by
  unfold withSymbol at h
  cases hplace : c.place with
  | absent =>
    rw [hplace] at h
    exact Or.inr ⟨SymbolPlace.noConfusion, h⟩
  | before =>
    rw [hplace] at h
    replace h : (c.symbol ++ (c.gap ++ t)).head? = some x := h
    rw [List.head?_append_of_ne_nil _ c.symbol_ne_nil] at h
    exact Or.inl (c.symbol_chars x (List.mem_of_mem_head? h))
  | after =>
    rw [hplace] at h
    replace h : (t ++ (c.gap ++ c.symbol)).head? = some x := h
    rw [List.head?_append_of_ne_nil _ ht] at h
    exact Or.inr ⟨SymbolPlace.noConfusion, h⟩

/-- Where a text with its symbol ends. -/
theorem getLast_withSymbol {x : CodeUnit} (ht : t ≠ []) (h : (c.withSymbol t).getLast? = some x) :
    isSymbolChar x = true ∨ c.place ≠ .after ∧ t.getLast? = some x := by
  unfold withSymbol at h
  cases hplace : c.place with
  | absent =>
    rw [hplace] at h
    exact Or.inr ⟨SymbolPlace.noConfusion, h⟩
  | before =>
    rw [hplace] at h
    replace h : (c.symbol ++ (c.gap ++ t)).getLast? = some x := h
    rw [← List.append_assoc, List.getLast?_append_of_ne_nil _ ht] at h
    exact Or.inr ⟨SymbolPlace.noConfusion, h⟩
  | after =>
    rw [hplace] at h
    replace h : (t ++ (c.gap ++ c.symbol)).getLast? = some x := h
    rw [← List.append_assoc, List.getLast?_append_of_ne_nil _ c.symbol_ne_nil] at h
    exact Or.inl (c.symbol_chars x (List.mem_of_getLast? h))

/-! ### The parts of a cell -/

theorem solid_figures (c : AmountCell) : Solid c.figures.text :=
  .of_forall c.figures.text_ne_nil (fun x hx => isStrWhiteSpace_of_amountChar (c.figures.text_amountChar x hx).1)

theorem head_figures {x : CodeUnit} (h : c.figures.text.head? = some x) : isAmountChar x = true ∧ x ≠ dash :=
  c.figures.text_amountChar x (List.mem_of_mem_head? h)

theorem getLast_figures {x : CodeUnit} (h : c.figures.text.getLast? = some x) : isAmountChar x = true ∧ x ≠ dash :=
  c.figures.text_amountChar x (List.mem_of_getLast? h)

/-- Figures beside a symbol, which bear no mark. -/
theorem bare_withSymbol (c : AmountCell) : isParenthesised (c.withSymbol c.figures.text) = false ∧
    (c.withSymbol c.figures.text).getLast? ≠ some dash ∧ ∀ x ∈ c.withSymbol c.figures.text, isLineTerminator x = false := by
  refine ⟨isParenthesised_of_head (fun h => ?_), fun h => ?_, fun x hx => ?_⟩
  · rcases head_withSymbol c.figures.text_ne_nil h with h | ⟨-, h⟩
    · exact absurd h (by decide)
    · exact absurd (head_figures h).1 (by decide)
  · rcases getLast_withSymbol c.figures.text_ne_nil h with h | ⟨-, h⟩
    · exact absurd h (by decide)
    · exact (getLast_figures h).2 rfl
  · rcases mem_withSymbol hx with h | h | h
    · exact isLineTerminator_of_space (symbolChar_facts h).1
    · unfold isGapChar at h
      simp only [Bool.and_eq_true, Bool.not_eq_true'] at h
      exact h.2
    · exact isLineTerminator_of_space (isStrWhiteSpace_of_amountChar (c.figures.text_amountChar x h).1)

theorem signed_figures (c : AmountCell) (negative : Bool) : signed negative c.figures.text = (negative, c.figures.text) := by
  have hhead : c.figures.text.head? ≠ some dash := fun h => (head_figures h).2 rfl
  unfold signed
  rw [if_neg hhead, decide_eq_false hhead, Bool.or_false]

theorem filter_bare (c : AmountCell) : (c.withSymbol c.figures.text).filter isAmountChar = c.figures.text := by
  rw [filter_withSymbol, c.figures.filter_text]

/-- A mark that is put around the figures and their symbol. -/
theorem amountParts_outside (c : AmountCell) :
    amountParts (c.mark.around (c.withSymbol c.figures.text)) = (decide (c.mark ≠ .unmarked), c.figures.text) := by
  have hsolid := c.solid_withSymbol c.solid_figures
  obtain ⟨hinner, hlast, hline⟩ := c.bare_withSymbol
  cases c.mark with
  | unmarked =>
    show amountParts (c.withSymbol c.figures.text) = (false, c.figures.text)
    rw [amountParts_plain hsolid hinner hlast, filter_bare, signed_figures]
  | leading =>
    obtain ⟨init, x, hx, hspace⟩ := hsolid.last
    have hmarked : Solid (dash :: c.withSymbol c.figures.text) :=
      ⟨⟨_, _, rfl, by decide⟩, dash :: init, x, by rw [hx, List.cons_append], hspace⟩
    have hend : (dash :: c.withSymbol c.figures.text).getLast? ≠ some dash := by
      rw [hx, List.getLast?_concat] at hlast
      rw [hx, ← List.cons_append, List.getLast?_concat]
      exact hlast
    show amountParts (dash :: c.withSymbol c.figures.text) = (true, c.figures.text)
    have hinner : isParenthesised (dash :: c.withSymbol c.figures.text) = false :=
      isParenthesised_of_head (fun h => absurd (Option.some.inj h) (by decide))
    rw [amountParts_plain hmarked hinner hend, List.filter_cons_of_pos (by decide), filter_bare]
    rfl
  | trailing =>
    obtain ⟨x, rest, hx, hspace⟩ := hsolid.head
    have hmarked : Solid (c.withSymbol c.figures.text ++ [dash]) :=
      ⟨⟨x, rest ++ [dash], by rw [hx, List.cons_append], hspace⟩, _, dash, rfl, by decide⟩
    have hend : (c.withSymbol c.figures.text ++ [dash]).getLast? ≠ some (unit ')') := by
      rw [List.getLast?_concat]
      decide
    show amountParts (c.withSymbol c.figures.text ++ [dash]) = (true, c.figures.text)
    rw [amountParts_trailing hmarked (isParenthesised_of_last hend), filter_bare, signed_figures]
  | parentheses =>
    show amountParts (unit '(' :: (c.withSymbol c.figures.text ++ [unit ')'])) = (true, c.figures.text)
    rw [amountParts_inner hline hlast, filter_bare, signed_figures]

/-- A leading minus within the symbol. -/
theorem amountParts_leading (c : AmountCell) :
    amountParts (c.withSymbol (dash :: c.figures.text)) = (true, c.figures.text) := by
  obtain ⟨init, x, hx, hspace⟩ := c.solid_figures.last
  have hmarked : Solid (dash :: c.figures.text) :=
    ⟨⟨_, _, rfl, by decide⟩, dash :: init, x, by rw [hx, List.cons_append], hspace⟩
  have hhead : (c.withSymbol (dash :: c.figures.text)).head? ≠ some (unit '(') := by
    intro h
    rcases head_withSymbol (List.cons_ne_nil _ _) h with h | ⟨-, h⟩
    · exact absurd h (by decide)
    · exact absurd (Option.some.inj h) (by decide)
  have hend : (c.withSymbol (dash :: c.figures.text)).getLast? ≠ some dash := by
    intro h
    rcases getLast_withSymbol (List.cons_ne_nil _ _) h with h | ⟨-, h⟩
    · exact absurd h (by decide)
    · rw [List.getLast?_cons_of_ne_nil c.figures.text_ne_nil] at h
      exact (getLast_figures h).2 rfl
  rw [amountParts_plain (c.solid_withSymbol hmarked) (isParenthesised_of_head hhead) hend, filter_withSymbol,
    List.filter_cons_of_pos (by decide), c.figures.filter_text]
  rfl

/-- Parentheses within a symbol are dropped. -/
theorem amountParts_parentheses (hplace : c.place ≠ .absent) :
    amountParts (c.withSymbol (unit '(' :: (c.figures.text ++ [unit ')']))) = (false, c.figures.text) := by
  have hmarked : Solid (unit '(' :: (c.figures.text ++ [unit ')'])) :=
    ⟨⟨_, _, rfl, by decide⟩, unit '(' :: c.figures.text, _, List.cons_append.symm, by decide⟩
  have hinner : isParenthesised (c.withSymbol (unit '(' :: (c.figures.text ++ [unit ')']))) = false := by
    cases h : c.place with
    | absent => exact absurd h hplace
    | before =>
      refine isParenthesised_of_head (fun hhead => ?_)
      rcases head_withSymbol (List.cons_ne_nil _ _) hhead with hx | ⟨hbefore, -⟩
      · exact absurd hx (by decide)
      · exact hbefore h
    | after =>
      refine isParenthesised_of_last (fun hlast => ?_)
      rcases getLast_withSymbol (List.cons_ne_nil _ _) hlast with hx | ⟨hafter, -⟩
      · exact absurd hx (by decide)
      · exact hafter h
  have hend : (c.withSymbol (unit '(' :: (c.figures.text ++ [unit ')']))).getLast? ≠ some dash := by
    intro h
    rcases getLast_withSymbol (List.cons_ne_nil _ _) h with h | ⟨-, h⟩
    · exact absurd h (by decide)
    · rw [← List.cons_append, List.getLast?_concat] at h
      exact absurd h (by decide)
  rw [amountParts_plain (c.solid_withSymbol hmarked) hinner hend, filter_withSymbol, List.filter_cons_of_neg (by decide),
    List.filter_append, c.figures.filter_text]
  exact (congrArg (signed false) (List.append_nil _)).trans (c.signed_figures false)

/-- A minus that trails before a symbol is taken for one of the figures. -/
theorem amountParts_within (hplace : c.place = .after) :
    amountParts (c.withSymbol (c.figures.text ++ [dash])) = (false, c.figures.text ++ [dash]) := by
  have hne : c.figures.text ++ [dash] ≠ [] := List.append_ne_nil_of_right_ne_nil _ (List.cons_ne_nil _ _)
  obtain ⟨x, rest, hx, hspace⟩ := c.solid_figures.head
  have hmarked : Solid (c.figures.text ++ [dash]) :=
    ⟨⟨x, rest ++ [dash], by rw [hx, List.cons_append], hspace⟩, _, dash, rfl, by decide⟩
  have hhead : (c.figures.text ++ [dash]).head? = c.figures.text.head? := List.head?_append_of_ne_nil _ c.figures.text_ne_nil
  have hinner : isParenthesised (c.withSymbol (c.figures.text ++ [dash])) = false := by
    refine isParenthesised_of_head (fun h => ?_)
    rcases head_withSymbol hne h with h | ⟨-, h⟩
    · exact absurd h (by decide)
    · rw [hhead] at h
      exact absurd (head_figures h).1 (by decide)
  have hend : (c.withSymbol (c.figures.text ++ [dash])).getLast? ≠ some dash := by
    intro h
    rcases getLast_withSymbol hne h with h | ⟨hafter, -⟩
    · exact absurd h (by decide)
    · exact hafter hplace
  have hsign : (c.figures.text ++ [dash]).head? ≠ some dash := by
    rw [hhead]
    exact fun h => (head_figures h).2 rfl
  rw [amountParts_plain (c.solid_withSymbol hmarked) hinner hend, filter_withSymbol, List.filter_append, c.figures.filter_text]
  show signed false (c.figures.text ++ [dash]) = _
  unfold signed
  rw [if_neg hsign, decide_eq_false hsign, Bool.or_false]

/-- A mark that the symbol does not hide. -/
theorem amountParts_text (hparentheses : c.inside = true → c.mark = .parentheses → c.place = .absent)
    (htrailing : c.inside = true → c.mark = .trailing → c.place ≠ .after) :
    amountParts c.text = (decide (c.mark ≠ .unmarked), c.figures.text) := by
  have houtside := c.amountParts_outside
  unfold text
  cases hinside : c.inside with
  | false => exact houtside
  | true =>
    show amountParts (c.withSymbol (c.mark.around c.figures.text)) = _
    cases hmark : c.mark with
    | unmarked =>
      rw [hmark] at houtside
      exact houtside
    | leading => exact c.amountParts_leading
    | trailing =>
      have hsame : c.withSymbol (c.figures.text ++ [dash]) = c.withSymbol c.figures.text ++ [dash] := by
        have hplace := htrailing hinside hmark
        unfold withSymbol
        cases h : c.place with
        | absent => rfl
        | before => simp only [List.append_assoc]
        | after => exact absurd h hplace
      rw [hmark] at houtside
      exact (congrArg amountParts hsame).trans houtside
    | parentheses =>
      have hplace := hparentheses hinside hmark
      rw [hmark] at houtside
      unfold withSymbol at houtside ⊢
      rw [hplace] at houtside ⊢
      exact houtside

end AmountCell

/-! ## The decimal point -/

section Point

variable {mark other : CodeUnit} {ds : List ℕ} {e : ℕ}

theorem ne_of_notMem (h : mark ∉ t) : ∀ x ∈ t, decide (x ≠ mark) = true :=
  fun _ hx => decide_eq_true (fun heq => h (heq ▸ hx))

theorem lastIndexOf_append (h : mark ∉ t) : lastIndexOf (s ++ mark :: t) mark = s.length := by
  have hstop : (s ++ mark :: t).reverse.takeWhile (· ≠ mark) = t.reverse := by
    rw [List.reverse_append, List.reverse_cons, List.append_assoc,
      List.takeWhile_append_of_pos (ne_of_notMem (fun hin => h (List.mem_reverse.mp hin)))]
    simp
  unfold lastIndexOf
  rw [hstop, List.length_append, List.length_cons, List.length_reverse]
  push_cast
  ring

theorem lastIndexOf_lt (h : mark ∉ t) (hne : mark ≠ other) : lastIndexOf (s ++ other :: t) mark < s.length := by
  have hlong : t.length + 1 ≤ ((s ++ other :: t).reverse.takeWhile (· ≠ mark)).length := by
    rw [List.reverse_append, List.takeWhile_append_of_pos]
    · rw [List.length_append, List.length_reverse, List.length_cons]
      omega
    · refine ne_of_notMem (fun hin => ?_)
      rcases List.mem_cons.mp (List.mem_reverse.mp hin) with heq | hin
      · exact hne heq
      · exact h hin
  unfold lastIndexOf
  rw [List.length_append, List.length_cons]
  push_cast
  omega

/-- What is left of the digits when what groups them is taken away. -/
theorem filter_grouping (h : ∀ x ∈ s, isDigit x = true ∨ x = other) (hother : isDigit other = false) :
    s.filter (· ≠ other) = s.filter isDigit := by
  refine List.filter_congr (fun x hx => ?_)
  rcases h x hx with hdigit | rfl
  · rw [hdigit]
    exact decide_eq_true (fun heq => absurd (heq ▸ hdigit) (by rw [hother]; exact Bool.false_ne_true))
  · rw [hother]
    exact decide_eq_false (fun hne => hne rfl)

theorem filter_isDigit (h : ∀ x ∈ s, isDigit x = true ∨ x = other) (hother : other ∉ s) : s.filter isDigit = s := by
  refine List.filter_eq_self.mpr (fun x hx => (h x hx).resolve_right ?_)
  rintro rfl
  exact hother hx

theorem notMem_filter_isDigit (h : isDigit mark = false) : mark ∉ s.filter isDigit := by
  intro hmem
  rw [List.mem_filter, h] at hmem
  exact Bool.false_ne_true hmem.2

/-- A comma is taken for the decimal point unless points stand before it, or it is alone and three characters follow. -/
theorem normalise_comma (h : ∀ x ∈ s, isDigit x = true ∨ x = point) (hcomma : comma ∉ t) (hpoint : point ∉ t) :
    normalise (s ++ comma :: t) = s.filter isDigit ++ if point ∉ s ∧ t.length = 3 then t else point :: t := by
  have hmem : comma ∈ s ++ comma :: t := List.mem_append_right _ List.mem_cons_self
  have hlast : lastIndexOf (s ++ comma :: t) comma = s.length := lastIndexOf_append hcomma
  unfold normalise
  by_cases hgrouped : point ∈ s
  · have hlt : lastIndexOf (s ++ comma :: t) point < lastIndexOf (s ++ comma :: t) comma := by
      rw [hlast]
      exact lastIndexOf_lt hpoint (by decide)
    have hfilter : (s ++ comma :: t).filter (· ≠ point) = s.filter isDigit ++ comma :: t := by
      rw [List.filter_append, filter_grouping h (by decide), List.filter_cons_of_pos (by decide),
        List.filter_eq_self.mpr (ne_of_notMem hpoint)]
    have hlone : ¬ (point ∉ s ∧ t.length = 3) := fun hboth => hboth.1 hgrouped
    rw [if_pos ⟨hmem, List.mem_append_left _ hgrouped⟩, if_neg hlone]
    simp only [if_pos hlt, if_true, hfilter]
    exact replaceFirst_append (notMem_filter_isDigit (by decide))
  · have hpoint' : point ∉ s ++ comma :: t := by
      rw [List.mem_append, List.mem_cons]
      exact not_or.mpr ⟨hgrouped, not_or.mpr ⟨by decide, hpoint⟩⟩
    have hcomma' : comma ∉ s := fun hin => (h comma hin).elim (by decide) (by decide)
    have hafter : ((s ++ comma :: t).length : ℤ) - lastIndexOf (s ++ comma :: t) comma - 1 = t.length := by
      rw [hlast, List.length_append, List.length_cons]
      push_cast
      ring
    rw [if_neg (fun hboth => hpoint' hboth.2), if_pos hmem, hafter, filter_isDigit h hgrouped]
    by_cases hthree : t.length = 3
    · rw [if_pos (by exact_mod_cast hthree), if_pos ⟨hgrouped, hthree⟩, List.filter_append,
        List.filter_cons_of_neg (by decide), List.filter_eq_self.mpr (ne_of_notMem hcomma'),
        List.filter_eq_self.mpr (ne_of_notMem hcomma)]
    · rw [if_neg (by exact_mod_cast hthree), if_neg (fun hlone => hthree hlone.2), replaceFirst_append hcomma']

theorem normalise_point (h : ∀ x ∈ s, isDigit x = true ∨ x = comma) (hcomma : comma ∉ t) (hpoint : point ∉ t) :
    normalise (s ++ point :: t) = s.filter isDigit ++ point :: t := by
  have hmem : point ∈ s ++ point :: t := List.mem_append_right _ List.mem_cons_self
  unfold normalise
  by_cases hgrouped : comma ∈ s
  · have hlt : ¬ lastIndexOf (s ++ point :: t) point < lastIndexOf (s ++ point :: t) comma := by
      rw [lastIndexOf_append hpoint]
      exact (lastIndexOf_lt hcomma (by decide)).not_gt
    have hfilter : (s ++ point :: t).filter (· ≠ comma) = s.filter isDigit ++ point :: t := by
      rw [List.filter_append, filter_grouping h (by decide), List.filter_cons_of_pos (by decide),
        List.filter_eq_self.mpr (ne_of_notMem hcomma)]
    have hne : ¬ point = comma := by decide
    rw [if_pos ⟨List.mem_append_left _ hgrouped, hmem⟩]
    simp only [if_neg hlt, if_neg hne, hfilter]
    exact replaceFirst_append (notMem_filter_isDigit (by decide))
  · have hcomma' : comma ∉ s ++ point :: t := by
      rw [List.mem_append, List.mem_cons]
      exact not_or.mpr ⟨hgrouped, not_or.mpr ⟨by decide, hcomma⟩⟩
    rw [if_neg (fun hboth => hcomma' hboth.1), if_neg hcomma', filter_isDigit h hgrouped]

/-- Figures as `Number` is given them. -/
theorem normalise_text (f : Figures) :
    normalise f.text = f.whole.filter isDigit ++ point :: [digitText f.tenths, digitText f.hundredths] := by
  have hdigit : ∀ d < 10, digitText d ≠ comma ∧ digitText d ≠ point := by decide
  obtain ⟨htc, htp⟩ := hdigit _ f.tenths_lt
  obtain ⟨hhc, hhp⟩ := hdigit _ f.hundredths_lt
  have hcomma : comma ∉ [digitText f.tenths, digitText f.hundredths] := by simp [htc.symm, hhc.symm]
  have hpoint : point ∉ [digitText f.tenths, digitText f.hundredths] := by simp [htp.symm, hhp.symm]
  have hchars := f.whole_chars
  unfold Figures.text Figures.decimal
  cases h : f.decimalComma with
  | false =>
    rw [h] at hchars
    exact normalise_point hchars hcomma hpoint
  | true =>
    rw [h] at hchars
    have htwo : ¬ (point ∉ f.whole ∧ [digitText f.tenths, digitText f.hundredths].length = 3) :=
      fun hboth => by simp at hboth
    exact (normalise_comma hchars hcomma hpoint).trans (congrArg _ (if_neg htwo))

end Point

/-! ## What `Number` is given -/

section Number

variable {ds fraction : List ℕ} {e : ℕ} {x : ℚ}

theorem minorUnitExponent_cases (T : Text) (currency : JsString) : minorUnitExponent T currency = 0 ∨
    minorUnitExponent T currency = 2 ∨ minorUnitExponent T currency = 3 := by
  have hall : ∀ p ∈ EXPONENTS, p.2 = 0 ∨ p.2 = 3 := by decide
  unfold minorUnitExponent
  cases h : EXPONENTS.lookup (T.toUpperCase currency) with
  | none => exact Or.inr (Or.inl rfl)
  | some e =>
    obtain ⟨before, after, heq, -⟩ := List.lookup_eq_some_iff.mp h
    have hmem : (T.toUpperCase currency, e) ∈ EXPONENTS := by
      rw [heq]
      exact List.mem_append_right _ List.mem_cons_self
    exact (hall _ hmem).imp id Or.inr

/-- As many decimals as the currency has are read to the last minor unit. -/
theorem scaled_decimalText (hne : ds ≠ []) (hds : ∀ d ∈ ds, d < 10) (hfraction : ∀ d ∈ fraction, d < 10)
    (he : fraction.length = e) :
    exactly.scaled (decimalText ds fraction) e = some (.exact (value 10 (ds ++ fraction))) := by
  have hmarks : ∀ c ∈ decimalText ds fraction, isMark c = true := fun c hc => (decimalText_marks hds hfraction c hc).1
  have hsign : splitSign (decimalText ds fraction) = (false, decimalText ds fraction) := by
    have h : splitSign (decimalText ds fraction ++ []) = (false, decimalText ds fraction ++ []) :=
      splitSign_decimalText hne hds
    rwa [List.append_nil] at h
  have hread : unsignedDecimal (decimalText ds fraction) =
      some ((value 10 (ds ++ fraction) : ℚ) * 10 ^ ((0 : ℤ) - fraction.length)) := by
    have h : unsignedDecimal (decimalText ds fraction ++ []) = _ :=
      unsignedDecimal_decimalText hne hds hfraction (Or.inl rfl) rfl
    rwa [List.append_nil] at h
  have hne' : decimalText ds fraction ≠ [] := by
    unfold decimalText
    simp [hne]
  have hnumber : number (decimalText ds fraction) =
      .exact ((value 10 (ds ++ fraction) : ℚ) * 10 ^ ((0 : ℤ) - fraction.length)) := by
    rw [number_of_marks hne' hmarks]
    unfold decimalLiteral
    simp only [hsign, if_neg (ne_infinity hmarks), hread, Bool.false_eq_true, if_false]
  have hscale : (value 10 (ds ++ fraction) : ℚ) * 10 ^ ((0 : ℤ) - fraction.length) * 10 ^ (e : ℤ) =
      value 10 (ds ++ fraction) := by
    rw [he, mul_assoc, ← zpow_add₀ (by norm_num), zero_sub, neg_add_cancel, zpow_zero, mul_one]
  have hfloor : ⌊((value 10 (ds ++ fraction) : ℕ) : ℚ) + 1 / 2⌋ = (value 10 (ds ++ fraction) : ℕ) := by
    rw [Int.floor_natCast_add, show ⌊(1 / 2 : ℚ)⌋ = 0 by norm_num, add_zero]
  unfold exactly
  simp only [hnumber, hscale, hfloor]

theorem numberOf_digitText (hds : ∀ d ∈ ds, d < 10) : numberOf (ds.map digitText) = value 10 ds := by
  have hval : ∀ d < 10, (digitText d).val - 48 = d := by decide
  unfold numberOf
  rw [List.map_map]
  refine congrArg (value 10) ?_
  conv_rhs => rw [← List.map_id ds]
  exact List.map_congr_left (fun d hd => hval d (hds d hd))

theorem scaled_figures (f : Figures) : exactly.scaled (normalise f.text) 2 = some (.exact f.minor) := by
  obtain ⟨ds, hds, heq⟩ := exists_digits_of_isDigit (s := f.whole.filter isDigit) (fun c hc => (List.mem_filter.mp hc).2)
  have hne : ds ≠ [] := by
    rintro rfl
    obtain ⟨x, hx, hdigit⟩ := f.has_digit
    exact absurd (List.mem_filter.mpr ⟨hx, hdigit⟩) (by rw [heq]; exact List.not_mem_nil)
  have hfraction : ∀ d ∈ [f.tenths, f.hundredths], d < 10 := by
    intro d hd
    rcases List.mem_cons.mp hd with rfl | hd
    · exact f.tenths_lt
    · rw [List.mem_singleton.mp hd]
      exact f.hundredths_lt
  have htext : normalise f.text = decimalText ds [f.tenths, f.hundredths] := by
    rw [normalise_text, heq]
    unfold decimalText
    rw [if_neg (List.cons_ne_nil _ _)]
    rfl
  have hminor : f.minor = value 10 (ds ++ [f.tenths, f.hundredths]) := by
    unfold Figures.minor
    rw [heq, numberOf_digitText hds, value_concat]
    show _ = value 10 ds * 100 + (10 * (10 * 0 + f.tenths) + f.hundredths)
    ring
  rw [htext, hminor]
  exact scaled_decimalText hne hds hfraction rfl

/-- Figures that a dash follows keep it. -/
theorem exists_normalise_dash (f : Figures) : ∃ init, normalise (f.text ++ [dash]) = init ++ [dash] ∧ init ≠ [] ∧
    ∀ x ∈ init, isDigit x = true ∨ x = point := by
  have hdigit : ∀ d < 10, isDigit (digitText d) = true ∧ digitText d ≠ comma ∧ digitText d ≠ point := by decide
  obtain ⟨htd, htc, htp⟩ := hdigit _ f.tenths_lt
  obtain ⟨hhd, hhc, hhp⟩ := hdigit _ f.hundredths_lt
  have hcomma : comma ∉ [digitText f.tenths, digitText f.hundredths, dash] := by
    simp [htc.symm, hhc.symm, show comma ≠ dash by decide]
  have hpoint : point ∉ [digitText f.tenths, digitText f.hundredths, dash] := by
    simp [htp.symm, hhp.symm, show point ≠ dash by decide]
  have hwhole : ∀ x ∈ f.whole.filter isDigit, isDigit x = true ∨ x = point := fun x hx => Or.inl (List.mem_filter.mp hx).2
  have hdecimals : ∀ x ∈ [digitText f.tenths, digitText f.hundredths], isDigit x = true ∨ x = point := by
    intro x hx
    rcases List.mem_cons.mp hx with rfl | hx
    · exact Or.inl htd
    · rw [List.mem_singleton.mp hx]
      exact Or.inl hhd
  have hlone : ∀ x ∈ f.whole.filter isDigit ++ [digitText f.tenths, digitText f.hundredths], isDigit x = true ∨ x = point :=
    List.forall_mem_append.mpr ⟨hwhole, hdecimals⟩
  have hpointed : ∀ x ∈ f.whole.filter isDigit ++ point :: [digitText f.tenths, digitText f.hundredths],
      isDigit x = true ∨ x = point :=
    List.forall_mem_append.mpr ⟨hwhole, List.forall_mem_cons.mpr ⟨Or.inr rfl, hdecimals⟩⟩
  have hne : ∀ x (rest : JsString), f.whole.filter isDigit ++ x :: rest ≠ [] :=
    fun x rest => List.append_ne_nil_of_right_ne_nil _ (List.cons_ne_nil x rest)
  have htext : f.text ++ [dash] = f.whole ++ f.decimal :: [digitText f.tenths, digitText f.hundredths, dash] := by
    unfold Figures.text
    simp
  have hchars := f.whole_chars
  rw [htext]
  unfold Figures.decimal
  cases h : f.decimalComma with
  | false =>
    rw [h] at hchars
    refine ⟨_, (normalise_point hchars hcomma hpoint).trans ?_, hne _ _, hpointed⟩
    simp
  | true =>
    rw [h] at hchars
    have hread := normalise_comma hchars hcomma hpoint
    split at hread
    · refine ⟨_, hread.trans ?_, hne _ _, hlone⟩
      simp
    · refine ⟨_, hread.trans ?_, hne _ _, hpointed⟩
      simp

/-- A digit, or the point. -/
theorem isMark_of_figure {c : CodeUnit} (h : isDigit c = true ∨ c = point) :
    isMark c = true ∧ isExponentMark c = false ∧ c ≠ unit '-' ∧ c ≠ unit '+' := by
  rcases h with h | rfl
  · obtain ⟨ds, hds, heq⟩ := exists_digits_of_isDigit (s := [c]) (fun y hy => by rw [List.mem_singleton.mp hy]; exact h)
    have hmem : c ∈ decimalText ds [] := by
      unfold decimalText
      rw [← heq]
      exact List.mem_cons_self
    obtain ⟨hmark, hexponent⟩ := decimalText_marks hds (fun d hd => absurd hd List.not_mem_nil) c hmem
    refine ⟨hmark, hexponent, ?_, ?_⟩ <;> rintro rfl <;> exact absurd h (by decide)
  · exact ⟨by decide, by decide, by decide, by decide⟩

/-- Digits and points before a text of marks, as `Number` reads them. -/
theorem number_of_figures (hne : s ≠ []) (h : ∀ c ∈ s, isDigit c = true ∨ c = point) (ht : ∀ c ∈ t, isMark c = true) :
    number (s ++ t) = ((unsignedDecimal (s ++ t)).map JsNumber.exact).getD .nan := by
  have hmarks : ∀ c ∈ s ++ t, isMark c = true := by
    intro c hc
    exact (List.mem_append.mp hc).elim (fun hc => (isMark_of_figure (h c hc)).1) (ht c)
  have hsign : splitSign (s ++ t) = (false, s ++ t) := by
    obtain ⟨x, rest, rfl⟩ := List.exists_cons_of_ne_nil hne
    obtain ⟨-, -, hminus, hplus⟩ := isMark_of_figure (h x List.mem_cons_self)
    unfold splitSign
    simp only [List.cons_append, if_neg hminus, if_neg hplus]
  rw [number_of_marks (List.append_ne_nil_of_left_ne_nil hne _) hmarks]
  unfold decimalLiteral
  simp only [hsign, if_neg (ne_infinity hmarks), Bool.false_eq_true, if_false]
  cases unsignedDecimal (s ++ t) <;> rfl

/-- A decimal without an exponent. -/
theorem unsignedDecimal_of_marks (h : ∀ c ∈ s, isExponentMark c = false) : unsignedDecimal s =
    (digitsIn 10 (s.takeWhile (· ≠ unit '.') ++ (s.dropWhile (· ≠ unit '.')).drop 1)).map
      (fun n => (n : ℚ) * 10 ^ ((0 : ℤ) - ((s.dropWhile (· ≠ unit '.')).drop 1).length)) := by
  have hmantissa : s.takeWhile (fun c => !isExponentMark c) = s :=
    List.takeWhile_eq_self_iff.mpr (fun c hc => by rw [h c hc]; rfl)
  have hexponent : s.dropWhile (fun c => !isExponentMark c) = [] :=
    List.dropWhile_eq_nil_iff.mpr (fun c hc => by rw [h c hc]; rfl)
  unfold unsignedDecimal
  simp only [hmantissa, hexponent, exponentOf]
  cases digitsIn 10 (s.takeWhile (· ≠ unit '.') ++ (s.dropWhile (· ≠ unit '.')).drop 1) <;> rfl

/-- What stands beside a point is in one of the parts it divides. -/
theorem mem_parts {mark y : CodeUnit} (hne : y ≠ mark) : ∀ {s : JsString}, y ∈ s →
    y ∈ s.takeWhile (· ≠ mark) ++ (s.dropWhile (· ≠ mark)).drop 1
  | [], h => absurd h List.not_mem_nil
  | c :: s, h => by
    by_cases hc : c = mark
    · rw [List.takeWhile_cons_of_neg (by simpa using hc), List.dropWhile_cons_of_neg (by simpa using hc)]
      exact (List.mem_cons.mp h).resolve_left (fun heq => hne (heq.trans hc))
    · rw [List.takeWhile_cons_of_pos (by simpa using hc), List.dropWhile_cons_of_pos (by simpa using hc), List.cons_append]
      rcases List.mem_cons.mp h with rfl | h
      · exact List.mem_cons_self
      · exact List.mem_cons_of_mem _ (mem_parts hne h)

theorem digitsIn_eq_none {y : CodeUnit} (hy : y ∈ s) (h : isDigitIn 10 y = false) : digitsIn 10 s = none := by
  refine if_neg (fun hall => ?_)
  rw [List.all_eq_true.mp hall.2 y hy] at h
  cases h

/-- A dash that follows figures is no part of a number. -/
theorem number_of_dash (hne : s ≠ []) (h : ∀ c ∈ s, isDigit c = true ∨ c = point) : number (s ++ [dash]) = .nan := by
  have hmark : ∀ c ∈ [dash], isMark c = true ∧ isExponentMark c = false := by
    intro c hc
    rw [List.mem_singleton.mp hc]
    exact ⟨by decide, by decide⟩
  have hplain : ∀ c ∈ s ++ [dash], isExponentMark c = false := by
    intro c hc
    exact (List.mem_append.mp hc).elim (fun hc => (isMark_of_figure (h c hc)).2.1) (fun hc => (hmark c hc).2)
  have hne' : dash ≠ unit '.' := by decide
  have hmem := mem_parts hne' (List.mem_append_right s (List.mem_singleton_self dash))
  rw [number_of_figures hne h (fun c hc => (hmark c hc).1), unsignedDecimal_of_marks hplain, digitsIn_eq_none hmem (by decide)]
  rfl

/-- Figures stand for less than their digits before the point allow. -/
theorem le_of_number (hne : s ≠ []) (h : ∀ c ∈ s, isDigit c = true ∨ c = point) (hs : number s = .exact x) :
    0 ≤ x ∧ x < 10 ^ (s.takeWhile (· ≠ unit '.')).length := by
  have hread := number_of_figures (t := []) hne h (fun c hc => absurd hc List.not_mem_nil)
  rw [List.append_nil, hs, unsignedDecimal_of_marks (fun c hc => (isMark_of_figure (h c hc)).2.1)] at hread
  generalize s.takeWhile (· ≠ unit '.') = before at hread ⊢
  generalize (s.dropWhile (· ≠ unit '.')).drop 1 = after at hread
  unfold digitsIn at hread
  split_ifs at hread with hdigits
  · have hlt : valueIn 10 (before ++ after) < 10 ^ (before ++ after).length := by
      refine value_lt _ _ (List.length_map _) (fun d hd => ?_)
      obtain ⟨c, hc, rfl⟩ := List.mem_map.mp hd
      have hdigit := List.all_eq_true.mp hdigits.2 c hc
      unfold isDigitIn at hdigit
      cases hof : digitOf c with
      | none => exact Nat.succ_pos 9
      | some d =>
        rw [hof] at hdigit
        exact of_decide_eq_true hdigit
    have hx : x = (valueIn 10 (before ++ after) : ℚ) * 10 ^ ((0 : ℤ) - after.length) := JsNumber.exact.inj hread
    rw [hx, zero_sub, zpow_neg, zpow_natCast, ← div_eq_mul_inv]
    refine ⟨by positivity, ?_⟩
    rw [div_lt_iff₀ (by positivity), ← pow_add, ← List.length_append]
    exact_mod_cast hlt
  · cases hread

end Number

/-! ## What is read -/

section Reading

variable {x : Minor} {negative : Bool} {r : JsString}

/-- A cell that has figures. -/
theorem parseAmountCell_of_parts (h : amountParts s = (negative, r)) (hr : r ≠ []) : parseAmountCell exactly T s currency =
    (exactly.scaled (normalise r) (minorUnitExponent T currency)).map (fun n => if negative then n.neg else n) := by
  have htrim : trim s ≠ [] := by
    intro hnil
    have hparts : (amountParts s).2 = [] := by
      unfold amountParts
      simp only [hnil]
      rfl
    rw [h] at hparts
    exact hr hparts
  unfold parseAmountCell
  rw [if_neg htrim, h, if_neg hr]

theorem parse_figures (h : amountParts s = (negative, c.figures.text)) (htwo : minorUnitExponent T currency = 2) :
    parseAmountCell exactly T s currency = some (.exact (if negative then -(c.figures.minor : ℤ) else c.figures.minor)) := by
  rw [parseAmountCell_of_parts h c.figures.text_ne_nil, htwo, scaled_figures]
  cases negative <;> rfl

/-- Parentheses within the symbol are dropped, and the sign with them. -/
theorem parse_parentheses (htwo : minorUnitExponent T currency = 2) (hinside : c.inside = true) (hplace : c.place ≠ .absent)
    (hmark : c.mark = .parentheses) : parseAmountCell exactly T c.text currency = some (.exact c.figures.minor) := by
  have htext : c.text = c.withSymbol (unit '(' :: (c.figures.text ++ [unit ')'])) := by
    unfold AmountCell.text
    rw [if_pos hinside, hmark]
    rfl
  rw [htext]
  exact parse_figures (AmountCell.amountParts_parentheses hplace) htwo

/-- With a minus left among them, the figures are no number. -/
theorem parse_within (hinside : c.inside = true) (hplace : c.place = .after) (hmark : c.mark = .trailing) :
    parseAmountCell exactly T c.text currency = none := by
  have htext : c.text = c.withSymbol (c.figures.text ++ [dash]) := by
    unfold AmountCell.text
    rw [if_pos hinside, hmark]
    rfl
  obtain ⟨init, hinit, hne, hchars⟩ := exists_normalise_dash c.figures
  rw [htext, parseAmountCell_of_parts (AmountCell.amountParts_within hplace)
    (List.append_ne_nil_of_right_ne_nil _ (List.cons_ne_nil _ _)), hinit]
  unfold exactly
  simp only [number_of_dash hne hchars]
  rfl

theorem parse_shown (htwo : minorUnitExponent T currency = 2)
    (hparentheses : c.inside = true → c.mark = .parentheses → c.place = .absent)
    (htrailing : c.inside = true → c.mark = .trailing → c.place ≠ .after) :
    parseAmountCell exactly T c.text currency = some (.exact c.amount) := by
  rw [parse_figures (AmountCell.amountParts_text hparentheses htrailing) htwo]
  unfold AmountCell.amount
  by_cases hmark : c.mark = .unmarked
  · rw [if_pos hmark, decide_eq_false (not_not.mpr hmark), if_neg Bool.false_ne_true]
  · rw [if_neg hmark, decide_eq_true hmark, if_pos rfl]

/-- What is read as it is written is not read as positive if it is marked. -/
theorem ReadsCell.of_amount (h : parseAmountCell exactly T c.text currency = some (.exact c.amount)) :
    ReadsCell T currency c where
  amount := h
  negative := by
    intro hmark n hn
    have hsame := Rounded.exact.inj (Option.some.inj (h.symm.trans hn))
    unfold AmountCell.amount at hsame
    rw [if_neg hmark] at hsame
    rw [← hsame]
    exact neg_nonpos.mpr (Int.natCast_nonneg _)

theorem readsCell_iff (htwo : minorUnitExponent T currency = 2) : ReadsCell T currency c ↔ ¬ c.Hidden := by
  by_cases hparentheses : c.inside = true ∧ c.place ≠ .absent ∧ c.mark = .parentheses
  · obtain ⟨hinside, hplace, hmark⟩ := hparentheses
    have hread := parse_parentheses htwo hinside hplace hmark
    have hamount : c.amount = -c.figures.minor := by
      unfold AmountCell.amount
      rw [hmark, if_neg (by decide)]
    constructor
    · intro h
      have hsame : (c.figures.minor : ℤ) = -(c.figures.minor : ℤ) :=
        (Rounded.exact.inj (Option.some.inj (hread.symm.trans h.amount))).trans hamount
      rintro ⟨-, ⟨-, -, hne⟩ | ⟨-, htrailing⟩⟩
      · omega
      · rw [hmark] at htrailing
        cases htrailing
    · intro h
      have hzero : c.figures.minor = 0 := by
        by_contra hne
        exact h ⟨hinside, Or.inl ⟨hplace, hmark, hne⟩⟩
      refine .of_amount ?_
      rw [hread, hamount, hzero]
      rfl
  · by_cases htrailing : c.inside = true ∧ c.place = .after ∧ c.mark = .trailing
    · obtain ⟨hinside, hplace, hmark⟩ := htrailing
      refine iff_of_false (fun h => ?_) (not_not.mpr ⟨hinside, Or.inr ⟨hplace, hmark⟩⟩)
      have hread := h.amount
      rw [parse_within hinside hplace hmark] at hread
      cases hread
    · have hread : parseAmountCell exactly T c.text currency = some (.exact c.amount) := by
        refine parse_shown htwo (fun hinside hmark => ?_) (fun hinside hmark hplace => htrailing ⟨hinside, hplace, hmark⟩)
        by_contra hplace
        exact hparentheses ⟨hinside, hplace, hmark⟩
      refine iff_of_true (.of_amount hread) ?_
      rintro ⟨hinside, ⟨hplace, hmark, -⟩ | ⟨hplace, hmark⟩⟩
      · exact hparentheses ⟨hinside, hplace, hmark⟩
      · exact htrailing ⟨hinside, hplace, hmark⟩

/-! ## Amounts as they are shown -/

theorem normalise_of_notMem (h : comma ∉ s) : normalise s = s := by
  unfold normalise
  rw [if_neg (fun hboth => h hboth.1), if_neg h]

/-- A sign before marks of a number, of which none is a dash. -/
theorem amountParts_signed (negative : Bool) (hr : r ≠ []) (h : ∀ c ∈ r, isMark c = true) (hdash : dash ∉ r) :
    amountParts ((if negative then [dash] else []) ++ r) = (negative, r.filter isAmountChar) := by
  have hplain : ∀ c ∈ (if negative then [dash] else []) ++ r, isMark c = true := by
    intro c hc
    rcases List.mem_append.mp hc with hc | hc
    · split at hc
      · rw [List.mem_singleton.mp hc]
        decide
      · exact absurd hc List.not_mem_nil
    · exact h c hc
  have hsolid : Solid ((if negative then [dash] else []) ++ r) :=
    .of_forall (List.append_ne_nil_of_right_ne_nil _ hr) (fun c hc => (Plain.of_mark (hplain c hc)).space)
  have hinner : isParenthesised ((if negative then [dash] else []) ++ r) = false :=
    isParenthesised_of_head (fun hhead => absurd (hplain _ (List.mem_of_mem_head? hhead)) (by decide))
  have hlast : ((if negative then [dash] else []) ++ r).getLast? ≠ some dash := by
    rw [List.getLast?_append_of_ne_nil _ hr]
    exact fun hend => hdash (List.mem_of_getLast? hend)
  rw [amountParts_plain hsolid hinner hlast, List.filter_append]
  cases negative with
  | true => rfl
  | false =>
    have hhead : (r.filter isAmountChar).head? ≠ some dash :=
      fun hhead => hdash (List.mem_filter.mp (List.mem_of_mem_head? hhead)).1
    show signed false (r.filter isAmountChar) = _
    unfold signed
    rw [if_neg hhead, decide_eq_false hhead]
    rfl

theorem cast_decimals (T : Text) (currency : JsString) : (decimals T currency : ℤ) = minorUnitExponent T currency := by
  refine Int.toNat_of_nonneg ?_
  rcases minorUnitExponent_cases T currency with h | h | h <;> rw [h] <;> decide

theorem decimals_le (T : Text) (currency : JsString) : decimals T currency ≤ 3 := by
  have hcast := cast_decimals T currency
  rcases minorUnitExponent_cases T currency with he | he | he <;> rw [he] at hcast <;> omega

/-- The figures of a shown amount. -/
theorem figures_shown (x : Minor) (e : ℕ) : (shown x e).figures = decimalText (shown x e).whole (shown x e).fraction := by
  have hlen := length_fraction_shown x e
  unfold Decimal.figures decimalText
  refine congrArg _ ?_
  by_cases he : e = 0
  · have hpoint : (shown x e).point = false := decide_eq_false (not_not.mpr he)
    rw [hpoint, if_neg Bool.false_ne_true, if_pos (List.length_eq_zero_iff.mp (hlen.trans he))]
  · have hpoint : (shown x e).point = true := decide_eq_true he
    rw [if_pos hpoint, if_neg (fun hnil => he (by rw [← hlen, hnil]; rfl))]

theorem decimalText_figures (hds : ∀ d ∈ ds, d < 10) (hfraction : ∀ d ∈ fraction, d < 10) :
    ∀ c ∈ decimalText ds fraction, isDigit c = true ∨ c = point := by
  intro c hc
  unfold decimalText at hc
  rcases List.mem_append.mp hc with hc | hc
  · exact Or.inl (isDigit_of_digits hds c hc)
  · split at hc
    · exact absurd hc List.not_mem_nil
    · exact (List.mem_cons.mp hc).elim Or.inr (fun hc => Or.inl (isDigit_of_digits hfraction c hc))

theorem isAmountChar_of_figure {c : CodeUnit} (h : isDigit c = true ∨ c = point) : isAmountChar c = true := by
  rcases h with h | rfl
  · unfold isAmountChar
    rw [h]
    rfl
  · decide

/-- An amount that is shown without an exponent is read again as it was. -/
theorem parse_formatAmount (h : x.natAbs < 10 ^ 21) :
    parseAmountCell exactly T (formatAmount T x currency) currency = some (.exact x) := by
  have hwhole := (shown x (decimals T currency)).whole_lt
  have hfraction := (shown x (decimals T currency)).fraction_lt
  have hne := whole_shown_ne_nil x (decimals T currency)
  have hchars := decimalText_figures hwhole hfraction
  have htext : decimalText (shown x (decimals T currency)).whole (shown x (decimals T currency)).fraction ≠ [] := by
    unfold decimalText
    simp [hne]
  have hnone : ∀ c, isDigit c = false → c ≠ point →
      c ∉ decimalText (shown x (decimals T currency)).whole (shown x (decimals T currency)).fraction := by
    intro c hdigit hpoint hc
    rcases hchars c hc with h | h
    · rw [hdigit] at h
      cases h
    · exact hpoint h
  have hparts := amountParts_signed (decide (x < 0)) htext (fun c hc => (isMark_of_figure (hchars c hc)).1)
    (hnone dash (by decide) (by decide))
  rw [List.filter_eq_self.mpr (fun c hc => isAmountChar_of_figure (hchars c hc))] at hparts
  have hshown : formatAmount T x currency = (if decide (x < 0) then [dash] else []) ++
      decimalText (shown x (decimals T currency)).whole (shown x (decimals T currency)).fraction := by
    rw [formatAmount_eq h, ← figures_shown]
    rfl
  rw [hshown, parseAmountCell_of_parts hparts htext, normalise_of_notMem (hnone comma (by decide) (by decide)),
    ← cast_decimals, scaled_decimalText hne hwhole hfraction (length_fraction_shown _ _),
    value_shown]
  by_cases hneg : x < 0
  · rw [decide_eq_true hneg]
    show some (Rounded.exact (-(x.natAbs : ℤ))) = _
    rw [Int.ofNat_natAbs_of_nonpos hneg.le, neg_neg]
  · rw [decide_eq_false hneg]
    show some (Rounded.exact (x.natAbs : ℤ)) = _
    rw [Int.natAbs_of_nonneg (not_lt.mp hneg)]

/-! ## Amounts with an exponent -/

/-- The text of a large number: a digit, perhaps a fraction, and the exponent. -/
theorem magnitude_parts {n : ℕ} (h : 10 ^ 21 ≤ n) : ∃ d fraction, d < 10 ∧ (∀ k ∈ fraction, k < 10) ∧
    magnitude 10 (n : ℚ) =
      decimalText [d] fraction ++ unit 'e' :: unit '+' :: (numeral 10 (Nat.log 10 n)).map digitText := by
  have hpow : (0 : ℚ) < 10 ^ Nat.log 10 n := pow_pos (by norm_num) _
  have hnonneg : (0 : ℚ) ≤ n / 10 ^ Nat.log 10 n := div_nonneg (Nat.cast_nonneg n) hpow.le
  have hlt : (n : ℚ) / 10 ^ Nat.log 10 n < 10 := by
    have hsucc : n < 10 ^ (Nat.log 10 n + 1) := Nat.lt_pow_succ_log_self (by decide) n
    rw [div_lt_iff₀ hpow, ← pow_succ']
    exact_mod_cast hsucc
  have hfloor : ⌊(n : ℚ) / 10 ^ Nat.log 10 n⌋₊ < 10 := (Nat.floor_lt hnonneg).mpr (by exact_mod_cast hlt)
  have hlen : (numeral 10 ⌊(n : ℚ) / 10 ^ Nat.log 10 n⌋₊).length ≤ 1 :=
    (padStart_numeralFor (by decide) _ 0 _ Nat.lt_log2_self (by rw [pow_one]; exact hfloor)).1
  obtain ⟨d, hd⟩ := List.length_eq_one_iff.mp (le_antisymm hlen (List.length_pos_of_ne_nil numeral_ne_nil))
  have hmem : d < 10 := mem_numeral (by decide) d (by rw [hd]; exact List.mem_singleton_self d)
  rw [magnitude_large h, positional_text, hd]
  exact ⟨d, _, hmem, mem_fractionDigits (Int.fract_nonneg _) (Int.fract_lt_one _), rfl⟩

/-- A point put into a text leaves no more before the first one. -/
theorem length_takeWhile_insert (before after : JsString) (q : CodeUnit → Bool) (y : CodeUnit) (hy : q y = false) :
    ((before ++ y :: after).takeWhile q).length ≤ ((before ++ after).takeWhile q).length := by
  induction before with
  | nil =>
    rw [List.nil_append, List.takeWhile_cons_of_neg (by rw [hy]; exact Bool.false_ne_true)]
    exact Nat.zero_le _
  | cons c before ih =>
    cases hc : q c with
    | true =>
      rw [List.cons_append, List.cons_append, List.takeWhile_cons_of_pos hc, List.takeWhile_cons_of_pos hc]
      exact Nat.succ_le_succ ih
    | false =>
      rw [List.cons_append, List.takeWhile_cons_of_neg (by rw [hc]; exact Bool.false_ne_true)]
      exact Nat.zero_le _

/-- An exponent has few digits. -/
theorem length_exponent {k : ℕ} (h : 21 ≤ k) : (numeral 10 k).length + 5 ≤ k := by
  have hlt : k < 10 ^ (k - 5) := by
    induction k, h using Nat.le_induction with
    | base => decide
    | succ k hk ih =>
      rw [Nat.sub_add_comm (by omega), pow_succ]
      omega
  obtain ⟨w, hw⟩ := Nat.exists_eq_add_of_le' (show 1 ≤ k - 5 by omega)
  rw [hw] at hlt
  have hlen : (numeral 10 k).length ≤ w + 1 := (padStart_numeralFor (by decide) _ w _ Nat.lt_log2_self hlt).1
  omega

/-- The figures of a number with an exponent: few of them stand before a point. -/
theorem magnitude_figures {n : ℕ} (h : 10 ^ 21 ≤ n) : (∃ y rest, magnitude 10 (n : ℚ) = y :: rest ∧ isDigit y = true) ∧
    dash ∉ magnitude 10 (n : ℚ) ∧ 4 ≤ (magnitude 10 (n : ℚ)).length ∧
    (((magnitude 10 (n : ℚ)).filter isAmountChar).takeWhile (· ≠ unit '.')).length ≤
      (numeral 10 (Nat.log 10 n)).length + 1 := by
  obtain ⟨d, fraction, hd, hfraction, htext⟩ := magnitude_parts h
  have hds : ∀ k ∈ [d], k < 10 := fun k hk => by rw [List.mem_singleton.mp hk]; exact hd
  have hexponent : ∀ k ∈ numeral 10 (Nat.log 10 n), k < 10 := mem_numeral (by decide)
  have hchars := decimalText_figures hds hfraction
  have hdigits := isDigit_of_digits hexponent
  have hhead : decimalText [d] fraction =
      digitText d :: if fraction = [] then [] else unit '.' :: fraction.map digitText := rfl
  have hpos : 0 < (numeral 10 (Nat.log 10 n)).length := List.length_pos_of_ne_nil numeral_ne_nil
  have hfilter : (magnitude 10 (n : ℚ)).filter isAmountChar =
      decimalText [d] fraction ++ (numeral 10 (Nat.log 10 n)).map digitText := by
    rw [htext, List.filter_append, List.filter_eq_self.mpr (fun c hc => isAmountChar_of_figure (hchars c hc)),
      List.filter_cons_of_neg (by decide), List.filter_cons_of_neg (by decide),
      List.filter_eq_self.mpr (fun c hc => isAmountChar_of_figure (Or.inl (hdigits c hc)))]
  refine ⟨⟨digitText d, _, by rw [htext, hhead, List.cons_append], isDigit_digitText hd⟩, ?_, ?_, ?_⟩
  · rw [htext]
    intro hc
    rcases List.mem_append.mp hc with hc | hc
    · exact (hchars dash hc).elim (by decide) (by decide)
    · rcases List.mem_cons.mp hc with hc | hc
      · exact absurd hc (by decide)
      · rcases List.mem_cons.mp hc with hc | hc
        · exact absurd hc (by decide)
        · exact absurd (hdigits dash hc) (by decide)
  · rw [htext, hhead]
    simp only [List.length_append, List.length_cons, List.length_map]
    omega
  · have hfirst : digitText d ≠ unit '.' := (plain_of_lower d (by omega)).2.2.2.1
    rw [hfilter, hhead, List.cons_append, List.takeWhile_cons_of_pos (by simpa using hfirst), List.length_cons]
    refine Nat.succ_le_succ ?_
    split
    · refine (List.takeWhile_prefix _).length_le.trans ?_
      rw [List.nil_append, List.length_map]
    · rw [List.cons_append, List.takeWhile_cons_of_neg (by decide)]
      exact Nat.zero_le _

/-- An amount with an exponent, as it is shown: the decimal point stands among its digits. -/
theorem formatAmount_large (T : Text) (currency : JsString) (h : 10 ^ 21 ≤ x.natAbs) : ∃ before after,
    magnitude 10 (x.natAbs : ℚ) = before ++ after ∧ before ≠ [] ∧
    formatAmount T x currency = (if decide (x < 0) then [dash] else []) ++
      (before ++ if decimals T currency = 0 then after else unit '.' :: after) := by
  obtain ⟨-, -, hlen, -⟩ := magnitude_figures h
  have hsmall := decimals_le T currency
  have htext : toText 10 (.exact (x.natAbs : ℚ)) = magnitude 10 (x.natAbs : ℚ) := if_neg (not_lt.mpr (Nat.cast_nonneg _))
  have hpad : padStart (decimals T currency + 1) (unit '0') (magnitude 10 (x.natAbs : ℚ)) = magnitude 10 (x.natAbs : ℚ) := by
    unfold padStart
    rw [Nat.sub_eq_zero_of_le (by omega), List.replicate_zero, List.nil_append]
  have hne : (magnitude 10 (x.natAbs : ℚ)).take ((magnitude 10 (x.natAbs : ℚ)).length - decimals T currency) ≠ [] := by
    intro hnil
    have hzero := congrArg List.length hnil
    rw [List.length_take, List.length_nil] at hzero
    omega
  have hsign : (if x < 0 then js "-" else []) = if decide (x < 0) then [dash] else [] := by
    by_cases hneg : x < 0
    · rw [if_pos hneg, decide_eq_true hneg]
      rfl
    · rw [if_neg hneg, decide_eq_false hneg]
      rfl
  refine ⟨_, _, (List.take_append_drop _ _).symm, hne, ?_⟩
  unfold formatAmount
  simp only [htext, hpad, if_neg hne, hsign]
  rw [List.append_assoc]
  by_cases he : decimals T currency = 0
  · rw [if_pos he, if_pos he, he, Nat.sub_zero, List.drop_length]
  · rw [if_neg he, if_neg he]

/-- What figures are scaled to has few digits besides those before the point. -/
theorem le_of_scaled {n : Rounded} {e : ℕ} (hne : s ≠ []) (h : ∀ c ∈ s, isDigit c = true ∨ c = point)
    (hs : exactly.scaled s e = some n) :
    ∃ k : ℤ, n = .exact k ∧ k ≤ 10 ^ ((s.takeWhile (· ≠ unit '.')).length + e) := by
  unfold exactly at hs
  cases hnumber : number s with
  | nan => simp [hnumber] at hs
  | infinity m => simp [hnumber] at hs
  | exact q =>
    simp only [hnumber, Option.some.injEq] at hs
    obtain ⟨-, hlt⟩ := le_of_number hne h hnumber
    refine ⟨_, hs.symm, Int.lt_add_one_iff.mp (Int.floor_lt.mpr ?_)⟩
    have hscaled : q * 10 ^ (e : ℤ) < 10 ^ ((s.takeWhile (· ≠ unit '.')).length + e) := by
      rw [zpow_natCast, pow_add]
      exact mul_lt_mul_of_pos_right hlt (pow_pos (by norm_num) _)
    push_cast
    linarith

theorem point_or_mem {y : CodeUnit} {before after : JsString} {e : ℕ}
    (h : y ∈ before ++ if e = 0 then after else unit '.' :: after) : y ∈ before ++ after ∨ y = point := by
  rcases List.mem_append.mp h with h | h
  · exact Or.inl (List.mem_append_left _ h)
  · split at h
    · exact Or.inl (List.mem_append_right _ h)
    · exact (List.mem_cons.mp h).elim Or.inr (fun h => Or.inl (List.mem_append_right _ h))

/-- What is kept of such a text: few of its figures stand before a point. -/
theorem exists_figures (T : Text) (currency : JsString) (h : 10 ^ 21 ≤ x.natAbs) : ∃ r, r.filter isAmountChar ≠ [] ∧
    formatAmount T x currency = (if decide (x < 0) then [dash] else []) ++ r ∧ (∀ c ∈ r, isMark c = true) ∧ dash ∉ r ∧
    ((r.filter isAmountChar).takeWhile (· ≠ unit '.')).length ≤ (numeral 10 (Nat.log 10 x.natAbs)).length + 1 := by
  obtain ⟨⟨y, rest, hfirst, hdigit⟩, hdash, -, hlen⟩ := magnitude_figures h
  obtain ⟨before, after, hparts, hbefore, htext⟩ := formatAmount_large T currency h
  have hmark := (reads_magnitude x.natAbs).marks
  rw [hparts] at hfirst hdash hlen hmark
  refine ⟨_, ?_, htext, fun c hc => ?_, fun hc => (point_or_mem hc).elim hdash (by decide), ?_⟩
  · -- a digit comes first
    obtain ⟨z, init, rfl⟩ := List.exists_cons_of_ne_nil hbefore
    have hz : isDigit z = true := (List.cons.inj hfirst).1 ▸ hdigit
    exact List.ne_nil_of_mem (List.mem_filter.mpr
      ⟨List.mem_append_left _ List.mem_cons_self, isAmountChar_of_figure (Or.inl hz)⟩)
  · rcases point_or_mem hc with hc | rfl
    · exact hmark c hc
    · decide
  · refine le_trans ?_ hlen
    rw [List.filter_append, List.filter_append]
    split
    · exact le_rfl
    · rw [List.filter_cons_of_pos (by decide)]
      exact length_takeWhile_insert _ _ _ _ (by decide)

theorem figures_of_filter (hmarks : ∀ c ∈ r, isMark c = true) (hdash : dash ∉ r) :
    ∀ c ∈ r.filter isAmountChar, isDigit c = true ∨ c = point := by
  intro c hc
  obtain ⟨hc, hamount⟩ := List.mem_filter.mp hc
  unfold isAmountChar at hamount
  simp only [Bool.or_eq_true, decide_eq_true_eq] at hamount
  rcases hamount with ((hamount | rfl) | hamount) | rfl
  · exact Or.inl hamount
  · exact absurd (hmarks _ hc) (by decide)
  · exact Or.inr hamount
  · exact absurd hc hdash

/-- An amount that is shown with an exponent is not read as it was, but as a far smaller one. -/
theorem parse_formatAmount_ne (h : 10 ^ 21 ≤ x.natAbs) :
    parseAmountCell exactly T (formatAmount T x currency) currency ≠ some (.exact x) := by
  obtain ⟨r, hne, htext, hmarks, hdash, hlen⟩ := exists_figures T currency h
  have hfigures := figures_of_filter hmarks hdash
  have hcomma : comma ∉ r.filter isAmountChar := fun hc => (hfigures comma hc).elim (by decide) (by decide)
  have hparts := amountParts_signed (decide (x < 0)) (fun hnil => hne (by rw [hnil]; rfl)) hmarks hdash
  intro hread
  rw [htext, parseAmountCell_of_parts hparts hne, normalise_of_notMem hcomma, ← cast_decimals] at hread
  obtain ⟨n, hn, hsigned⟩ := Option.map_eq_some_iff.mp hread
  obtain ⟨k, rfl, hk⟩ := le_of_scaled hne hfigures hn
  have habs : k = x.natAbs := by
    by_cases hneg : x < 0
    · rw [decide_eq_true hneg] at hsigned
      have hx : -k = x := Rounded.exact.inj hsigned
      rw [Int.ofNat_natAbs_of_nonpos hneg.le, ← hx, neg_neg]
    · rw [decide_eq_false hneg] at hsigned
      have hx : k = x := Rounded.exact.inj hsigned
      rw [Int.natAbs_of_nonneg (not_lt.mp hneg), hx]
  have hlog : 21 ≤ Nat.log 10 x.natAbs := (Nat.le_log_iff_pow_le (by decide) (by omega)).mpr h
  have hexponent := length_exponent hlog
  have hsmall := decimals_le T currency
  have hlt : 10 ^ (((r.filter isAmountChar).takeWhile (· ≠ unit '.')).length + decimals T currency) <
      10 ^ Nat.log 10 x.natAbs := Nat.pow_lt_pow_right (by decide) (by omega)
  have hle : 10 ^ Nat.log 10 x.natAbs ≤ x.natAbs := Nat.pow_log_le_self 10 (by omega)
  have hbound : x.natAbs ≤ 10 ^ (((r.filter isAmountChar).takeWhile (· ≠ unit '.')).length + decimals T currency) := by
    rw [habs] at hk
    exact_mod_cast hk
  omega

end Reading

/-- Cells are read right but where the symbol hides the mark, and what is shown is read again as it was, but where it has
an exponent. -/
theorem readsAmounts_iff (T : Text) :
    (∀ currency : JsString, minorUnitExponent T currency = 2 → ∀ c : AmountCell, ReadsCell T currency c ↔ ¬ c.Hidden) ∧
    ∀ (x : Minor) (currency : JsString),
      parseAmountCell exactly T (formatAmount T x currency) currency = some (.exact x) ↔ x.natAbs < 10 ^ 21 := by
  refine ⟨fun currency htwo c => readsCell_iff htwo, fun x currency => ⟨fun h => ?_, parse_formatAmount⟩⟩
  by_contra hlarge
  exact parse_formatAmount_ne (not_lt.mp hlarge) h

theorem exists_not_readsAmounts : minorUnitExponent ascii (js "USD") = 2 ∧
    ∃ c : AmountCell, c.text = js "$(12.34)" ∧ c.mark = .parentheses ∧
      parseAmountCell exactly ascii c.text (js "USD") = some (.exact 1234) ∧ ¬ ReadsCell ascii (js "USD") c := by
  have hread : parseAmountCell exactly ascii (js "$(12.34)") (js "USD") = some (.exact 1234) := by decide +kernel
  have hwhole : ∀ c ∈ js "12", isDigit c = true ∨ c = if false then point else comma :=
    @of_decide_eq_true _ (List.decidableBAll _ _) (by decide)
  have hsymbol : ∀ c ∈ js "$", isSymbolChar c = true := @of_decide_eq_true _ (List.decidableBAll _ _) (by decide)
  have hdigit : ∃ c ∈ js "12", isDigit c = true := ⟨unit '1', by decide, by decide⟩
  refine ⟨by decide, ⟨⟨false, js "12", 3, 4, hwhole, hdigit, by decide, by decide⟩, .parentheses, true, .before, js "$", [],
    by decide, hsymbol, fun x hx => absurd hx List.not_mem_nil⟩, rfl, rfl, hread, fun h => ?_⟩
  exact absurd (h.negative Mark.noConfusion 1234 hread) (by decide)

end Import

end EasyDocket
