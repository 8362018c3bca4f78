import EasyDocket.Books.Dates
import EasyDocket.Books.Domain
import EasyDocket.JsNumberText

/-!
# Planning an import

Rows of a file are read, checked and told apart from repeats, before anything is written.  Repeats are found by a key of
date, amount and payee, in which the direction of the amount does not stand: the flags are right just where no row
agrees in all three with an earlier transaction of the other direction only (`flagsRight_iff`).
-/

namespace EasyDocket

namespace Import

open Books JsNumber

/-! ## Amounts -/

/-- An amount that was rounded; the largest texts give an infinity. -/
inductive Rounded
  | exact (n : Minor)
  | infinity (negative : Bool)
  deriving DecidableEq

namespace Rounded

def neg : Rounded → Rounded
  | exact n => exact (-n)
  | infinity m => infinity (!m)

/-- `Math.abs`. -/
def abs : Rounded → Rounded
  | exact n => exact n.natAbs
  | infinity _ => infinity false

def isNegative : Rounded → Bool
  | exact n => n < 0
  | infinity m => m

/-- `String`. -/
def toText : Rounded → JsString
  | exact n => JsNumber.toText 10 (.exact n)
  | infinity m => JsNumber.toText 10 (.infinity m)

end Rounded

/-- What is taken from the language: lower case, and `Math.round(Number(s) * 10 ** e)` as floating point has it, which is
none where `Number(s)` is not finite. -/
structure Language where
  toLowerCase : JsString → JsString
  scaled : JsString → ℤ → Option Rounded

/-- The language of samples: letters are ASCII, and numbers are exact. -/
def exactly : Language where
  toLowerCase s := s.map (fun c => if unit 'A' ≤ c ∧ c ≤ unit 'Z' then c + 32 else c)
  scaled s e :=
    match number s with
    | .exact x => some (.exact ⌊x * 10 ^ e + 1 / 2⌋)
    | _ => none

/-! ## Reading dates -/

/-- `normaliseYear`: a two-digit year is of this century until proven otherwise. -/
def normaliseYear (year : ℕ) : ℕ := if 100 ≤ year then year else year + if year ≤ 68 then 2000 else 1900

/-- `assemble`: a day that the month does not have is rejected. -/
def assemble (year month day : ℕ) : Option JsString :=
  if month < 1 ∨ 12 < month ∨ day < 1 ∨ 31 < day then none
  else if daysInMonth year month < day then none
  else some (padded 4 year ++ dash :: padded 2 month ++ dash :: padded 2 day)

/-- Digits at the start of a text, as many as there are up to a bound, and what follows them. -/
def takeDigits (atLeast atMost : ℕ) (s : JsString) : Option (ℕ × JsString) :=
  let ds := (s.take atMost).takeWhile isDigit
  if ds.length < atLeast then none else some (numberOf ds, s.drop ds.length)

/-- A character of a class, and what follows it. -/
def takeMark (accepts : CodeUnit → Bool) : JsString → Option JsString
  | c :: rest => if accepts c then some rest else none
  | [] => none

/-- `/^(\d{4})-(\d{1,2})-(\d{1,2})/`. -/
def isoParts (text : JsString) : Option (ℕ × ℕ × ℕ) := do
  let (year, rest) ← takeDigits 4 4 text
  let rest ← takeMark (· = dash) rest
  let (month, rest) ← takeDigits 1 2 rest
  let rest ← takeMark (· = dash) rest
  let (day, _) ← takeDigits 1 2 rest
  return (year, month, day)

/-- `[/.\-]`. -/
def isDateSeparator (c : CodeUnit) : Bool := c = unit '/' || c = unit '.' || c = dash

/-- `/^(\d{1,2})[/.\-](\d{1,2})[/.\-](\d{2,4})$/`. -/
def slashParts (text : JsString) : Option (ℕ × ℕ × ℕ) := do
  let (first, rest) ← takeDigits 1 2 text
  let rest ← takeMark isDateSeparator rest
  let (second, rest) ← takeDigits 1 2 rest
  let rest ← takeMark isDateSeparator rest
  let (year, rest) ← takeDigits 2 4 rest
  if rest = [] then return (first, second, year) else none

/-- `parseDate`. -/
def parseDate (value : JsString) (dayFirst : Bool) : Option JsString :=
  let text := trim value
  if text = [] then none
  else
    match isoParts text with
    | some (year, month, day) => assemble year month day
    | none =>
      match slashParts text with
      | some (first, second, year) =>
        -- A value above 12 can only be a day, whichever convention the file uses.
        let swapped := dayFirst || 12 < first
        assemble (normaliseYear year) (if swapped then second else first) (if swapped then first else second)
      | none => none

/-! ## Reading amounts -/

def comma : CodeUnit := unit ','

def point : CodeUnit := unit '.'

/-- `/^\(.*\)$/`. -/
def isParenthesised : JsString → Bool
  | c :: rest => c = unit '(' && rest.getLast? = some (unit ')') && rest.dropLast.all (fun c => !isLineTerminator c)
  | [] => false

/-- `s.lastIndexOf(c)`. -/
def lastIndexOf (s : JsString) (c : CodeUnit) : ℤ := s.length - (s.reverse.takeWhile (· ≠ c)).length - 1

/-- The text that `Number` is given: whichever separator appears last is the decimal point. -/
def normalise (text : JsString) : JsString :=
  if comma ∈ text ∧ point ∈ text then
    let decimal := if lastIndexOf text point < lastIndexOf text comma then comma else point
    let grouping := if decimal = comma then point else comma
    replaceFirst (text.filter (· ≠ grouping)) decimal point
  else if comma ∈ text then
    -- A lone comma groups thousands when three digits follow it.
    if text.length - lastIndexOf text comma - 1 = 3 then text.filter (· ≠ comma) else replaceFirst text comma point
  else text

/-- The sign of an amount cell, and its figures. -/
def amountParts (value : JsString) : Bool × JsString :=
  let text := trim value
  let inner := isParenthesised text
  let text := if inner then (text.drop 1).dropLast else text
  let trailing := text.getLast? = some dash
  let text := if trailing then text.dropLast else text
  let text := trim (text.filter (fun c => isDigit c || c = comma || c = point || c = dash))
  let leading := text.head? = some dash
  (inner || trailing || leading, if leading then text.drop 1 else text)

variable (L : Language) (T : Text)

/-- `parseAmountCell`: minor units, signed. -/
def parseAmountCell (value currency : JsString) : Option Rounded :=
  if trim value = [] then none
  else if (amountParts value).2 = [] then none
  else
    (L.scaled (normalise (amountParts value).2) (minorUnitExponent T currency)).map
      (fun scaled => if (amountParts value).1 then scaled.neg else scaled)

/-! ## Planning -/

structure ColumnMapping where
  date : ℕ
  amount : ℕ
  payee : Option ℕ
  note : Option ℕ
  category : Option ℕ

structure ImportOptions where
  accountId : JsString
  currency : JsString
  /-- Interpret ambiguous slash dates as day-first rather than month-first. -/
  dayFirst : Bool
  /-- Dates and amounts already in the ledger, for spotting repeats. -/
  existing : Option (Finset JsString)

structure PlannedTransaction where
  date : JsString
  amount : Rounded
  kind : TransactionKind
  payee : JsString
  note : JsString
  categoryName : JsString
  deriving DecidableEq

structure PlannedRow where
  line : ℕ
  transaction : Option PlannedTransaction
  error : Option JsString
  duplicate : Option Bool
  deriving DecidableEq

structure ImportPlan where
  rows : List PlannedRow
  ready : ℕ
  duplicates : ℕ
  failed : ℕ
  deriving DecidableEq

/-- `duplicateKey`: same day, same amount, same payee. -/
def duplicateKey (date : JsString) (amount : Rounded) (payee : JsString) : JsString :=
  date ++ unit '|' :: (amount.toText ++ unit '|' :: L.toLowerCase (trim payee))

/-- `row[column] ?? ''`. -/
def cell (row : List JsString) (column : ℕ) : JsString := row.getD column []

/-- `row[column] ?? ''` of a column that may be absent, trimmed. -/
def trimmedCell (row : List JsString) (column : Option ℕ) : JsString :=
  trim (match column with
    | some column => cell row column
    | none => [])

/-- A blank line. -/
def isBlank (mapping : ColumnMapping) (row : List JsString) : Bool :=
  trim (cell row mapping.date) = [] && trim (cell row mapping.amount) = []

/-- A row that is not blank, as a transaction or with the reason why it cannot be imported. -/
def resolve (mapping : ColumnMapping) (options : ImportOptions) (row : List JsString) :
    Except JsString PlannedTransaction :=
  let rawDate := cell row mapping.date
  let rawAmount := cell row mapping.amount
  match parseDate rawDate options.dayFirst with
  | none => .error (js "Could not read the date \"" ++ trim rawDate ++ js "\"")
  | some date =>
    match parseAmountCell L T rawAmount options.currency with
    | none => .error (js "Could not read the amount \"" ++ trim rawAmount ++ js "\"")
    | some amount =>
      if amount = .exact 0 then .error (js "The amount is zero")
      else .ok {
        date := date
        -- Direction is carried by the kind.
        amount := amount.abs
        kind := if amount.isNegative then .expense else .income
        payee := trimmedCell row mapping.payee
        note := trimmedCell row mapping.note
        categoryName := trimmedCell row mapping.category }

/-- The key of a planned transaction. -/
def keyOf (t : PlannedTransaction) : JsString := duplicateKey L t.date t.amount t.payee

/-- The plan so far, and the keys seen. -/
structure Planning where
  plan : List PlannedRow
  seen : Finset JsString

/-- The body of the loop of `planImport`. -/
def Planning.next (mapping : ColumnMapping) (options : ImportOptions) (s : Planning) (row : List JsString) (index : ℕ) :
    Planning :=
  if isBlank mapping row then s
  else
    match resolve L T mapping options row with
    | .error e => { s with plan := s.plan ++ [⟨index + 2, none, some e, none⟩] }
    | .ok t =>
      { plan := s.plan ++ [⟨index + 2, some t, none, some (decide (keyOf L t ∈ s.seen))⟩]
        seen := insert (keyOf L t) s.seen }

/-- The loop of `planImport`. -/
def planning (mapping : ColumnMapping) (options : ImportOptions) (rows : List (List JsString)) : Planning :=
  rows.zipIdx.foldl (fun s r => s.next L T mapping options r.1 r.2) ⟨[], options.existing.getD ∅⟩

def PlannedRow.isReady (row : PlannedRow) : Bool := row.transaction.isSome && row.duplicate ≠ some true

def PlannedRow.isDuplicate (row : PlannedRow) : Bool := row.duplicate = some true

/-- A text is true when it is not empty. -/
def PlannedRow.isFailed (row : PlannedRow) : Bool := row.error.any (· ≠ [])

/-- `planImport`: resolve every row without writing anything. -/
def planImport (rows : List (List JsString)) (mapping : ColumnMapping) (options : ImportOptions) : ImportPlan :=
  let plan := (planning L T mapping options rows).plan
  { rows := plan
    ready := (plan.filter PlannedRow.isReady).length
    duplicates := (plan.filter PlannedRow.isDuplicate).length
    failed := (plan.filter PlannedRow.isFailed).length }

/-- A transaction of the ledger with its payee. -/
structure RecordedTransaction extends Transaction where
  payee : JsString

/-- `existingKeys`: keys for everything already recorded. -/
def existingKeys (transactions : List RecordedTransaction) : Finset JsString :=
  (transactions.map (fun t => duplicateKey L t.date (.exact t.amount) t.payee)).toFinset

example : parseAmountCell exactly ascii (js "(1.234,50) EUR") (js "EUR") = some (.exact 123450) ∧
    parseDate (js "29/02/24") true = some (js "2024-02-29") ∧ parseDate (js "29/02/23") true = none := by decide +kernel

/-! ## Keys -/

/-- What repeats are recognised by; the kind is the direction. -/
structure Entry where
  date : JsString
  amount : Rounded
  kind : TransactionKind
  payee : JsString

def PlannedTransaction.entry (t : PlannedTransaction) : Entry := ⟨t.date, t.amount, t.kind, t.payee⟩

def RecordedTransaction.entry (t : RecordedTransaction) : Entry := ⟨t.date, .exact t.amount, t.kind, t.payee⟩

/-- The same day, the same amount, and the same payee up to case and surrounding space. -/
structure Agree (a b : Entry) : Prop where
  date : a.date = b.date
  amount : a.amount = b.amount
  payee : L.toLowerCase (trim a.payee) = L.toLowerCase (trim b.payee)

variable {L T} {a b : Entry} {s t : JsString} {mapping : ColumnMapping} {options : ImportOptions}
  {rows : List (List JsString)} {row : List JsString} {ledger : List RecordedTransaction} {p : PlannedRow}

theorem Rounded.toText_injective : ∀ {x y : Rounded}, x.toText = y.toText → x = y
  | exact _, exact _, h => congrArg exact (JsNumber.toText_injective h)
  | exact n, infinity m, h => absurd h (toText_ne_infinity n m)
  | infinity m, exact n, h => absurd h.symm (toText_ne_infinity n m)
  | infinity false, infinity false, _ => rfl
  | infinity true, infinity true, _ => rfl
  | infinity false, infinity true, h => absurd h (by decide)
  | infinity true, infinity false, h => absurd h (by decide)

theorem Rounded.bar_notMem : ∀ x : Rounded, unit '|' ∉ x.toText
  | exact n => fun h => (Plain.of_mark (toText_marks n _ h)).bar rfl
  | infinity false => by decide
  | infinity true => by decide

/-- The key of an entry. -/
def Entry.key (L : Language) (e : Entry) : JsString := duplicateKey L e.date e.amount e.payee

/-- Keys are equal just where day, amount and payee are. -/
theorem key_eq_iff (ha : unit '|' ∉ a.date) (hb : unit '|' ∉ b.date) : a.key L = b.key L ↔ Agree L a b := by
  constructor
  · intro h
    obtain ⟨hdate, hrest⟩ := split_at_mark ha hb h
    obtain ⟨hamount, hpayee⟩ := split_at_mark a.amount.bar_notMem b.amount.bar_notMem hrest
    exact ⟨hdate, Rounded.toText_injective hamount, hpayee⟩
  · rintro ⟨hdate, hamount, hpayee⟩
    unfold Entry.key duplicateKey
    rw [hdate, hamount, hpayee]

theorem bar_notMem_padded (w n : ℕ) : unit '|' ∉ padded w n := by
  have hdigit : ∀ d < 10, digitUnit d ≠ unit '|' := by decide +kernel
  intro h
  unfold padded Numeral.padStart at h
  rcases List.mem_append.mp h with h | h
  · exact absurd (List.eq_of_mem_replicate h) (by decide)
  · obtain ⟨d, hd, heq⟩ := List.mem_map.mp h
    exact hdigit d (Numeral.mem_numeral (by decide) d hd) heq

/-- The dates that are read are of digits and dashes. -/
theorem bar_notMem_assemble {year month day : ℕ} (h : assemble year month day = some s) : unit '|' ∉ s := by
  unfold assemble at h
  split at h
  · cases h
  · split at h
    · cases h
    · cases h
      have hdash : unit '|' ≠ dash := by decide
      simp only [List.mem_append, List.mem_cons, bar_notMem_padded, hdash, or_self, not_false_eq_true]

theorem bar_notMem_parseDate {dayFirst : Bool} (h : parseDate t dayFirst = some s) : unit '|' ∉ s := by
  unfold parseDate at h
  dsimp only at h
  split at h
  · cases h
  · split at h
    · exact bar_notMem_assemble h
    · split at h
      · exact bar_notMem_assemble h
      · cases h

/-- A date of the ledger, which is checked when it is recorded. -/
theorem bar_notMem_date (h : datePattern.isMatch s = true) : unit '|' ∉ s := by
  intro hmem
  exact absurd (digit_or_dash h _ hmem) (by decide)

/-! ## The loop -/

/-- The transaction of a row that is resolvable. -/
def resolved (L : Language) (T : Text) (mapping : ColumnMapping) (options : ImportOptions) (row : List JsString) :
    Option PlannedTransaction :=
  if isBlank mapping row then none else (resolve L T mapping options row).toOption

/-- What the plan says of a row that is not blank, when some keys were seen. -/
def plannedRow (L : Language) (T : Text) (mapping : ColumnMapping) (options : ImportOptions) (seen : Finset JsString)
    (row : List JsString) (index : ℕ) : PlannedRow :=
  match resolve L T mapping options row with
  | .error e => ⟨index + 2, none, some e, none⟩
  | .ok t => ⟨index + 2, some t, none, some (decide (keyOf L t ∈ seen))⟩

theorem planning_append (rows : List (List JsString)) (row : List JsString) :
    planning L T mapping options (rows ++ [row]) =
      (planning L T mapping options rows).next L T mapping options row rows.length := by
  unfold planning
  rw [List.zipIdx_append, List.foldl_append, Nat.zero_add]
  rfl

theorem next_plan (s : Planning) (index : ℕ) : (s.next L T mapping options row index).plan =
    s.plan ++ if isBlank mapping row then [] else [plannedRow L T mapping options s.seen row index] := by
  unfold Planning.next plannedRow
  by_cases hblank : isBlank mapping row = true
  · rw [if_pos hblank, if_pos hblank, List.append_nil]
  · rw [if_neg hblank, if_neg hblank]
    cases resolve L T mapping options row <;> rfl

theorem mem_next_seen (s : Planning) (index : ℕ) : t ∈ (s.next L T mapping options row index).seen ↔
    t ∈ s.seen ∨ ∃ r, resolved L T mapping options row = some r ∧ keyOf L r = t := by
  unfold Planning.next resolved
  by_cases hblank : isBlank mapping row = true
  · rw [if_pos hblank, if_pos hblank]
    simp
  · rw [if_neg hblank, if_neg hblank]
    cases resolve L T mapping options row with
    | error e => simp [Except.toOption]
    | ok r =>
      simp only [Except.toOption, Option.some.injEq, exists_eq_left', Finset.mem_insert]
      tauto

/-- The keys seen are those that were there, and those of rows; by induction on the rows, the last one first. -/
theorem mem_seen : t ∈ (planning L T mapping options rows).seen ↔ t ∈ options.existing.getD ∅ ∨
    ∃ row ∈ rows, ∃ r, resolved L T mapping options row = some r ∧ keyOf L r = t := by
  induction rows using List.reverseRecOn with
  | nil => simp [planning]
  | append_singleton rows row ih =>
    rw [planning_append, mem_next_seen, ih]
    simp only [List.mem_append, List.mem_singleton]
    constructor
    · rintro ((h | ⟨row', h, h'⟩) | h)
      · exact Or.inl h
      · exact Or.inr ⟨row', Or.inl h, h'⟩
      · exact Or.inr ⟨row, Or.inr rfl, h⟩
    · rintro (h | ⟨row', h | rfl, h'⟩)
      · exact Or.inl (Or.inl h)
      · exact Or.inl (Or.inr ⟨row', h, h'⟩)
      · exact Or.inr h'

/-- Every row of the plan is of a row of the file. -/
theorem mem_plan : p ∈ (planning L T mapping options rows).plan → ∃ i row, rows[i]? = some row ∧
    isBlank mapping row = false ∧ p = plannedRow L T mapping options (planning L T mapping options (rows.take i)).seen row i := by
  induction rows using List.reverseRecOn with
  | nil => exact fun h => absurd h List.not_mem_nil
  | append_singleton rows row ih =>
    intro h
    rw [planning_append, next_plan] at h
    rcases List.mem_append.mp h with h | h
    · obtain ⟨i, row', hi, hblank, rfl⟩ := ih h
      have hlt : i < rows.length := (List.getElem?_eq_some_iff.mp hi).1
      exact ⟨i, row', by rw [List.getElem?_append_left hlt, hi], hblank, by rw [List.take_append_of_le_length hlt.le]⟩
    · by_cases hblank : isBlank mapping row = true
      · rw [if_pos hblank] at h
        exact absurd h List.not_mem_nil
      · rw [if_neg hblank] at h
        refine ⟨rows.length, row, by simp, Bool.eq_false_iff.mpr hblank, ?_⟩
        rw [List.take_left, List.mem_singleton.mp h]

theorem plannedRow_line (seen : Finset JsString) (index : ℕ) :
    (plannedRow L T mapping options seen row index).line = index + 2 := by
  unfold plannedRow
  cases resolve L T mapping options row <;> rfl

theorem error_ne_nil {e : JsString} (h : resolve L T mapping options row = .error e) : e ≠ [] := by
  unfold resolve at h
  dsimp only at h
  split at h
  · cases h
    exact List.append_ne_nil_of_right_ne_nil _ (by decide)
  · split at h
    · cases h
      exact List.append_ne_nil_of_right_ne_nil _ (by decide)
    · split at h
      · cases h
        decide
      · cases h

theorem date_of_resolved {r : PlannedTransaction} (h : resolved L T mapping options row = some r) : unit '|' ∉ r.date := by
  unfold resolved at h
  split at h
  · cases h
  · have hok : resolve L T mapping options row = .ok r := by
      cases hr : resolve L T mapping options row with
      | error e => rw [hr] at h; cases h
      | ok r' => rw [hr] at h; cases h; rfl
    unfold resolve at hok
    dsimp only at hok
    split at hok
    · cases hok
    · next date hdate =>
      split at hok
      · cases hok
      · split at hok
        · cases hok
        · cases hok
          exact bar_notMem_parseDate hdate

/-! ## What the plan is to say -/

/-- Every row that is not blank is in the plan once, as ready, duplicate or failed, and the counts add up. -/
structure Covers (mapping : ColumnMapping) (rows : List (List JsString)) (plan : ImportPlan) : Prop where
  lines : plan.rows.map PlannedRow.line = (rows.zipIdx.filter (fun r => !isBlank mapping r.1)).map (fun r => r.2 + 2)
  once : ∀ p ∈ plan.rows, p.isReady.toNat + p.isDuplicate.toNat + p.isFailed.toNat = 1
  ready : plan.ready = plan.rows.countP PlannedRow.isReady
  duplicates : plan.duplicates = plan.rows.countP PlannedRow.isDuplicate
  failed : plan.failed = plan.rows.countP PlannedRow.isFailed
  total : plan.ready + plan.duplicates + plan.failed = plan.rows.length

/-- The transactions of the ledger, and those of the rows before one. -/
def earlier (L : Language) (T : Text) (mapping : ColumnMapping) (options : ImportOptions) (ledger : List RecordedTransaction)
    (rows : List (List JsString)) (i : ℕ) : List Entry :=
  ledger.map RecordedTransaction.entry ++
    (rows.take i).filterMap (fun row => (resolved L T mapping options row).map PlannedTransaction.entry)

/-- A row is flagged just where an earlier transaction agrees with it, in the direction too. -/
def FlagsRight (L : Language) (T : Text) (mapping : ColumnMapping) (options : ImportOptions)
    (ledger : List RecordedTransaction) (rows : List (List JsString)) (plan : ImportPlan) : Prop :=
  ∀ i row r, rows[i]? = some row → resolved L T mapping options row = some r →
    ∀ p ∈ plan.rows, p.line = i + 2 → p.transaction = some r ∧ (p.isDuplicate = true ↔
      ∃ e ∈ earlier L T mapping options ledger rows i, Agree L e r.entry ∧ e.kind = r.kind)

/-- No row agrees with earlier transactions of the other direction only. -/
def NoneOpposite (L : Language) (T : Text) (mapping : ColumnMapping) (options : ImportOptions)
    (ledger : List RecordedTransaction) (rows : List (List JsString)) : Prop :=
  ∀ i row r, rows[i]? = some row → resolved L T mapping options row = some r →
    ∀ e ∈ earlier L T mapping options ledger rows i, Agree L e r.entry →
      ∃ e' ∈ earlier L T mapping options ledger rows i, Agree L e' r.entry ∧ e'.kind = r.kind

/-- `planImport` with `existingKeys`. -/
def planAgainst (L : Language) (T : Text) (ledger : List RecordedTransaction) (rows : List (List JsString))
    (mapping : ColumnMapping) (options : ImportOptions) : ImportPlan :=
  planImport L T rows mapping { options with existing := some (existingKeys L ledger) }

theorem lines_planning : (planning L T mapping options rows).plan.map PlannedRow.line =
    (rows.zipIdx.filter (fun r => !isBlank mapping r.1)).map (fun r => r.2 + 2) := by
  induction rows using List.reverseRecOn with
  | nil => rfl
  | append_singleton rows row ih =>
    rw [planning_append, next_plan, List.map_append, ih, List.zipIdx_append, List.filter_append, List.map_append, Nat.zero_add]
    refine congrArg (_ ++ ·) ?_
    by_cases hblank : isBlank mapping row = true
    · simp [hblank]
    · simp [hblank, plannedRow_line]

theorem once_plannedRow (seen : Finset JsString) (index : ℕ) :
    (plannedRow L T mapping options seen row index).isReady.toNat +
      (plannedRow L T mapping options seen row index).isDuplicate.toNat +
      (plannedRow L T mapping options seen row index).isFailed.toNat = 1 := by
  unfold plannedRow
  cases hr : resolve L T mapping options row with
  | error e => simp [PlannedRow.isReady, PlannedRow.isDuplicate, PlannedRow.isFailed, error_ne_nil hr]
  | ok r => by_cases hseen : keyOf L r ∈ seen <;> simp [PlannedRow.isReady, PlannedRow.isDuplicate, PlannedRow.isFailed, hseen]

/-- Three predicates of which just one holds of each count all. -/
theorem countP_add_countP {α : Type} {f g h : α → Bool} : ∀ {l : List α}, (∀ x ∈ l, (f x).toNat + (g x).toNat + (h x).toNat = 1) →
    l.countP f + l.countP g + l.countP h = l.length
  | [], _ => rfl
  | x :: l, hl => by
    have ih := @countP_add_countP α f g h l (fun y hy => hl y (List.mem_cons_of_mem _ hy))
    have hx := hl x List.mem_cons_self
    rw [List.countP_cons, List.countP_cons, List.countP_cons, List.length_cons]
    revert hx
    cases f x <;> cases g x <;> cases h x <;> simp <;> omega

theorem covers_planImport : Covers mapping rows (planImport L T rows mapping options) := by
  have honce : ∀ p ∈ (planning L T mapping options rows).plan,
      p.isReady.toNat + p.isDuplicate.toNat + p.isFailed.toNat = 1 := by
    intro p hp
    obtain ⟨i, row, -, -, rfl⟩ := mem_plan hp
    exact once_plannedRow _ i
  refine ⟨lines_planning, honce, List.countP_eq_length_filter.symm, List.countP_eq_length_filter.symm,
    List.countP_eq_length_filter.symm, ?_⟩
  have htotal := countP_add_countP honce
  simp only [List.countP_eq_length_filter] at htotal
  exact htotal

/-- What a row is flagged by: a key among those of the ledger and of the rows before it. -/
theorem flagged_iff (hdates : ∀ t ∈ ledger, datePattern.isMatch t.date = true) {i : ℕ} {r : PlannedTransaction}
    (hr : resolved L T mapping options row = some r) :
    keyOf L r ∈ (planning L T mapping { options with existing := some (existingKeys L ledger) } (rows.take i)).seen ↔
      ∃ e ∈ earlier L T mapping options ledger rows i, Agree L e r.entry := by
  have hbar : unit '|' ∉ r.entry.date := date_of_resolved hr
  have hkey : keyOf L r = r.entry.key L := rfl
  have hledger : keyOf L r ∈ existingKeys L ledger ↔ ∃ t ∈ ledger, Agree L t.entry r.entry := by
    unfold existingKeys
    rw [List.mem_toFinset, List.mem_map, hkey]
    refine exists_congr (fun t => and_congr_right (fun ht => ?_))
    exact key_eq_iff (a := t.entry) (bar_notMem_date (hdates t ht)) hbar
  have hrows : (∃ row ∈ rows.take i, ∃ r', resolved L T mapping options row = some r' ∧ keyOf L r' = keyOf L r) ↔
      ∃ row ∈ rows.take i, ∃ r', resolved L T mapping options row = some r' ∧ Agree L r'.entry r.entry := by
    refine exists_congr (fun row => and_congr_right (fun _ => exists_congr (fun r' => and_congr_right (fun hr' => ?_))))
    exact key_eq_iff (a := r'.entry) (date_of_resolved hr') hbar
  have hseen := @mem_seen L T (keyOf L r) mapping { options with existing := some (existingKeys L ledger) } (rows.take i)
  refine hseen.trans ?_
  show (keyOf L r ∈ existingKeys L ledger ∨
    ∃ row ∈ rows.take i, ∃ r', resolved L T mapping options row = some r' ∧ keyOf L r' = keyOf L r) ↔ _
  rw [hledger, hrows]
  unfold earlier
  simp only [List.mem_append, List.mem_map, List.mem_filterMap, Option.map_eq_some_iff]
  constructor
  · rintro (⟨t, ht, hagree⟩ | ⟨row', hrow', r', hr', hagree⟩)
    · exact ⟨t.entry, Or.inl ⟨t, ht, rfl⟩, hagree⟩
    · exact ⟨r'.entry, Or.inr ⟨row', hrow', r', hr', rfl⟩, hagree⟩
  · rintro ⟨e, ⟨t, ht, rfl⟩ | ⟨row', hrow', r', hr', rfl⟩, hagree⟩
    · exact Or.inl ⟨t, ht, hagree⟩
    · exact Or.inr ⟨row', hrow', r', hr', hagree⟩

/-- The row of the plan for a row of the file that is resolvable. -/
theorem planned_of_resolved (hdates : ∀ t ∈ ledger, datePattern.isMatch t.date = true) {i : ℕ} {r : PlannedTransaction}
    (hi : rows[i]? = some row) (hr : resolved L T mapping options row = some r)
    (hp : p ∈ (planAgainst L T ledger rows mapping options).rows) (hline : p.line = i + 2) :
    p.transaction = some r ∧ (p.isDuplicate = true ↔ ∃ e ∈ earlier L T mapping options ledger rows i, Agree L e r.entry) := by
  obtain ⟨j, row', hj, hblank, rfl⟩ := mem_plan (show p ∈ (planning _ _ _ _ _).plan from hp)
  rw [plannedRow_line] at hline
  obtain rfl : j = i := by omega
  obtain rfl : row' = row := Option.some.inj (hj.symm.trans hi)
  have hok : resolve L T mapping { options with existing := some (existingKeys L ledger) } row' = .ok r := by
    have hresolve : resolve L T mapping { options with existing := some (existingKeys L ledger) } row' =
      resolve L T mapping options row' := rfl
    unfold resolved at hr
    rw [if_neg (by rw [hblank]; exact Bool.false_ne_true)] at hr
    rw [hresolve]
    cases hcase : resolve L T mapping options row' with
    | error e => rw [hcase] at hr; cases hr
    | ok r' => rw [hcase] at hr; cases hr; rfl
  unfold plannedRow
  rw [hok]
  refine ⟨rfl, ?_⟩
  rw [← flagged_iff hdates hr]
  simp [PlannedRow.isDuplicate]

/-- The plan has every row that is not blank once; its flags are right just where no row agrees with earlier transactions
of the other direction only. -/
theorem flagsRight_iff (L : Language) (T : Text) (mapping : ColumnMapping) (options : ImportOptions)
    (ledger : List RecordedTransaction) (rows : List (List JsString))
    (hdates : ∀ t ∈ ledger, datePattern.isMatch t.date = true) :
    (FlagsRight L T mapping options ledger rows (planAgainst L T ledger rows mapping options) ∧
      Covers mapping rows (planAgainst L T ledger rows mapping options)) ↔
        NoneOpposite L T mapping options ledger rows := by
  have hcovers : Covers mapping rows (planAgainst L T ledger rows mapping options) := covers_planImport
  constructor
  · rintro ⟨hflags, -⟩ i row r hi hr e he hagree
    have hblank : isBlank mapping row = false := by
      by_contra hne
      unfold resolved at hr
      rw [if_pos (Bool.not_eq_false _ ▸ hne)] at hr
      cases hr
    -- the row stands in the plan
    have hmem : i + 2 ∈ (planAgainst L T ledger rows mapping options).rows.map PlannedRow.line := by
      rw [hcovers.lines, List.mem_map]
      exact ⟨(row, i), List.mem_filter.mpr ⟨List.mem_zipIdx_iff_getElem?.mpr hi, by rw [hblank]; rfl⟩, rfl⟩
    obtain ⟨p, hp, hline⟩ := List.mem_map.mp hmem
    have hflag := (planned_of_resolved hdates hi hr hp hline).2
    exact (hflags i row r hi hr p hp hline).2.mp (hflag.mpr ⟨e, he, hagree⟩)
  · intro hnone
    refine ⟨?_, hcovers⟩
    intro i row r hi hr p hp hline
    obtain ⟨htransaction, hflag⟩ := planned_of_resolved hdates hi hr hp hline
    refine ⟨htransaction, hflag.trans ⟨?_, ?_⟩⟩
    · rintro ⟨e, he, hagree⟩
      exact hnone i row r hi hr e he hagree
    · rintro ⟨e, he, hagree, -⟩
      exact ⟨e, he, hagree⟩

/-- Columns of a sample file: date, amount, payee. -/
def columns : ColumnMapping := ⟨0, 1, some 2, none, none⟩

def euros : ImportOptions := ⟨js "a1", js "EUR", true, none⟩

/-- A purchase and its refund on the same day. -/
def refunded : List (List JsString) :=
  [[js "2024-05-01", js "-10.00", js "Shop"], [js "2024-05-01", js "10.00", js "Shop"]]

/-- The refund is flagged, though nothing before it is an income. -/
theorem exists_not_flagsRight : ¬ ∀ (L : Language) (T : Text) (mapping : ColumnMapping) (options : ImportOptions)
    (ledger : List RecordedTransaction) (rows : List (List JsString)),
    (∀ t ∈ ledger, datePattern.isMatch t.date = true ∧ (t.kind = .income ∨ t.kind = .expense)) →
    FlagsRight L T mapping options ledger rows (planAgainst L T ledger rows mapping options) ∧
      Covers mapping rows (planAgainst L T ledger rows mapping options) := by
  intro h
  obtain ⟨hflags, -⟩ := h exactly ascii columns euros [] refunded (fun t ht => absurd ht List.not_mem_nil)
  have hplan : (planAgainst exactly ascii [] refunded columns euros).rows =
      [⟨2, some ⟨js "2024-05-01", .exact 1000, .expense, js "Shop", [], []⟩, none, some false⟩,
        ⟨3, some ⟨js "2024-05-01", .exact 1000, .income, js "Shop", [], []⟩, none, some true⟩] := by decide +kernel
  have hrow : resolved exactly ascii columns euros [js "2024-05-01", js "10.00", js "Shop"] =
      some ⟨js "2024-05-01", .exact 1000, .income, js "Shop", [], []⟩ := by decide +kernel
  have hearlier : (resolved exactly ascii columns euros [js "2024-05-01", js "-10.00", js "Shop"]).map
      PlannedTransaction.kind = some .expense := by decide +kernel
  have hflag := (hflags 1 _ _ rfl hrow ⟨3, some ⟨js "2024-05-01", .exact 1000, .income, js "Shop", [], []⟩, none, some true⟩
    (by rw [hplan]; simp) rfl).2.mp rfl
  obtain ⟨e, he, -, hkind⟩ := hflag
  obtain ⟨r, hr, rfl⟩ := Option.map_eq_some_iff.mp (by simpa [earlier, refunded] using he)
  rw [hr] at hearlier
  have hexpense : r.kind = .expense := Option.some.inj hearlier
  exact absurd (hexpense.symm.trans hkind) (by decide)

/-- A statement that is imported again: what the ledger has is flagged. -/
def bakery : List RecordedTransaction :=
  [⟨⟨js "t1", .expense, 450, js "EUR", js "a1", none, none, js "2024-05-02", none⟩, js "Bakery"⟩]

theorem flagsRight_iff_bakery :
    FlagsRight exactly ascii columns euros bakery [[js "02.05.2024", js "-4,50", js " BAKERY "]]
      (planAgainst exactly ascii bakery [[js "02.05.2024", js "-4,50", js " BAKERY "]] columns euros) ∧
    Covers columns [[js "02.05.2024", js "-4,50", js " BAKERY "]]
      (planAgainst exactly ascii bakery [[js "02.05.2024", js "-4,50", js " BAKERY "]] columns euros) := by
  refine (flagsRight_iff exactly ascii columns euros bakery [[js "02.05.2024", js "-4,50", js " BAKERY "]] ?_).mpr ?_
  · intro t ht
    rw [List.mem_singleton.mp ht]
    decide +kernel
  · have hrow : resolved exactly ascii columns euros [js "02.05.2024", js "-4,50", js " BAKERY "] =
        some ⟨js "2024-05-02", .exact 450, .expense, js "BAKERY", [], []⟩ := by decide +kernel
    intro i row r hi hr e he hagree
    obtain ⟨hlt, hget⟩ := List.getElem?_eq_some_iff.mp hi
    obtain rfl : i = 0 := Nat.lt_one_iff.mp hlt
    obtain rfl := hget
    obtain rfl := Option.some.inj (hrow.symm.trans hr)
    refine ⟨e, he, hagree, ?_⟩
    rw [show e = RecordedTransaction.entry ⟨⟨js "t1", .expense, 450, js "EUR", js "a1", none, none, js "2024-05-02", none⟩,
      js "Bakery"⟩ from List.mem_singleton.mp he]
    rfl

end Import

end EasyDocket
