import EasyDocket.JsNumber
import EasyDocket.Lib.Scanning

/-!
# CSV

`toCsv` writes tables and `parseCsv` reads them.  The reader is one loop over the characters, with a row and a field that
grow; what the writer makes of a field, the reader takes for that field again (`scan_escaped`), so tables are read as they
were written.
-/

namespace EasyDocket

namespace Csv

open Scanning

def quote : CodeUnit := unit '"'

def comma : CodeUnit := unit ','

def carriageReturn : CodeUnit := unit '\r'

def lineFeed : CodeUnit := unit '\n'

/-- The mark that some exports begin with. -/
def byteOrderMark : CodeUnit := 0xfeff

/-! ## Writing -/

inductive CsvValue
  | text (s : JsString)
  | number (x : JsNumber)
  | null
  | undefined

structure CsvTable where
  headers : List JsString
  rows : List (List CsvValue)

/-- `/^[=+\-@\t\r]/`: what spreadsheet software may take for a formula. -/
def looksLikeFormula (text : JsString) : Bool :=
  text.head?.any (fun c => c = unit '=' || c = unit '+' || c = unit '-' || c = unit '@' || c = unit '\t' || c = unit '\r')

/-- The text of a value, with the guard against formulas. -/
def guarded (text : JsString) : JsString := if looksLikeFormula text then unit '\'' :: text else text

/-- `/[",\r\n]/`. -/
def isSpecial (c : CodeUnit) : Bool := c = quote || c = comma || c = carriageReturn || c = lineFeed

/-- `escapeField` of a text: quote it if, and only if, it needs it. -/
def escapeText (text : JsString) : JsString :=
  if (guarded text).any isSpecial then quote :: ([quote, quote].intercalate ((guarded text).splitOn quote) ++ [quote])
  else guarded text

/-- `escapeField`. -/
def escapeField : CsvValue → JsString
  | .text s => escapeText s
  | .number x => escapeText (x.toText 10)
  | .null => []
  | .undefined => []

/-- `toCsv`: lines are separated by CRLF. -/
def toCsv (table : CsvTable) : JsString :=
  [carriageReturn, lineFeed].intercalate
    ((table.headers.map CsvValue.text :: table.rows).map (fun row => [comma].intercalate (row.map escapeField)))

/-! ## Reading -/

/-- The variables of `parseCsv`. -/
structure Reader where
  rows : List (List JsString)
  row : List JsString
  field : JsString
  quoted : Bool
  started : Bool

namespace Reader

def endField (s : Reader) : Reader := { s with row := s.row ++ [s.field], field := [], started := false }

/-- A row of a single empty field is dropped. -/
def isKept (row : List JsString) : Bool := 1 < row.length || row.head? ≠ some []

def endRow (s : Reader) : Reader :=
  let s := s.endField
  { s with rows := if isKept s.row then s.rows ++ [s.row] else s.rows, row := [] }

/-- A character that is data. -/
def add (s : Reader) (c : CodeUnit) : Reader := { s with field := s.field ++ [c] }

/-- The body of the loop of `parseCsv`, and whether it takes the next character too. -/
def read (s : Reader) (c : CodeUnit) (next : Option CodeUnit) : Reader × Bool :=
  if s.quoted then
    if c ≠ quote then (s.add c, false)
    else if next = some quote then (s.add quote, true)
    else ({ s with quoted := false }, false)
  else if c = quote then
    ({ (if !s.started && s.field.isEmpty then { s with quoted := true } else s.add c) with started := true }, false)
  else if c = comma then (s.endField, false)
  else if c = carriageReturn then (s.endRow, decide (next = some lineFeed))
  else if c = lineFeed then (s.endRow, false)
  else ({ s.add c with started := true }, false)

/-- What is done after the loop. -/
def finish (s : Reader) : Reader := if s.field ≠ [] ∨ 0 < s.row.length then s.endRow else s

def start : Reader := ⟨[], [], [], false, false⟩

end Reader

/-- The text without its byte-order mark. -/
def inputOf (text : JsString) : JsString := if text.head? = some byteOrderMark then text.drop 1 else text

/-- `parseCsv`: rows of fields, with blank lines dropped. -/
def parseCsv (text : JsString) : List (List JsString) := (scan Reader.read (inputOf text) Reader.start).finish.rows

example : parseCsv (js "a,\"b\"\"c\r\n\"\n\n,x") = [[js "a", js "b\"c\r\n"], [[], js "x"]] := by decide +kernel

/-! ## What is written -/

variable {s : Reader} {c : CodeUnit} {t g rest : JsString}

/-- The text of a cell, as it is written. -/
def cellText : CsvValue → JsString
  | .text s => guarded s
  | .number x => guarded (x.toText 10)
  | .null => []
  | .undefined => []

/-- A character inside quotes: a quote is written twice. -/
def doubled (c : CodeUnit) : JsString := if c = quote then [quote, quote] else [c]

theorem intercalate_splitOn_quote : ∀ g : JsString, [quote, quote].intercalate (g.splitOn quote) = g.flatMap doubled
  | [] => rfl
  | c :: g => by
    have ih := intercalate_splitOn_quote g
    obtain ⟨first, others, hsplit⟩ := List.exists_cons_of_ne_nil (List.splitOn_ne_nil quote g)
    rw [List.flatMap_cons, List.splitOn_cons_eq_if_modifyHead, ← ih, hsplit]
    unfold doubled
    by_cases hc : c = quote
    · rw [if_pos hc, if_pos (beq_iff_eq.mpr hc), List.intercalate_cons_cons]
      rfl
    · rw [if_neg hc, if_neg (fun h => hc (beq_iff_eq.mp h)), List.modifyHead_cons]
      cases others with
      | nil => simp
      | cons second others =>
        rw [List.intercalate_cons_cons, List.intercalate_cons_cons]
        rfl

theorem escapeField_eq (v : CsvValue) : escapeField v =
    if (cellText v).any isSpecial then quote :: ((cellText v).flatMap doubled ++ [quote]) else cellText v := by
  cases v with
  | text t =>
    show escapeText t = _
    unfold escapeText
    rw [intercalate_splitOn_quote]
    rfl
  | number x =>
    show escapeText (x.toText 10) = _
    unfold escapeText
    rw [intercalate_splitOn_quote]
    rfl
  | null => rfl
  | undefined => rfl

/-! ## What is read -/

theorem isSpecial_eq_false : isSpecial c = false ↔ c ≠ quote ∧ c ≠ comma ∧ c ≠ carriageReturn ∧ c ≠ lineFeed := by
  unfold isSpecial
  simp [and_assoc]

/-- Characters that are not special are data, by induction on them. -/
theorem scan_plain : ∀ {t : JsString} {s : Reader}, s.quoted = false → (∀ c ∈ t, isSpecial c = false) →
    ∃ b, scan Reader.read (t ++ rest) s = scan Reader.read rest { s with field := s.field ++ t, started := b }
  | [], s, _, _ => ⟨s.started, by rw [List.append_nil]; rfl⟩
  | c :: t, s, hs, h => by
    obtain ⟨hquote, hcomma, hcr, hlf⟩ := isSpecial_eq_false.mp (h c List.mem_cons_self)
    have hread : ∀ next, s.read c next = ({ s.add c with started := true }, false) := by
      intro next
      unfold Reader.read
      rw [if_neg (by rw [hs]; decide), if_neg hquote, if_neg hcomma, if_neg hcr, if_neg hlf]
    obtain ⟨b, hb⟩ := @scan_plain t { s.add c with started := true } hs (fun d hd => h d (List.mem_cons_of_mem _ hd))
    refine ⟨b, ?_⟩
    rw [List.cons_append, scan_keep (hread _), hb]
    show scan Reader.read rest { s with field := s.field ++ [c] ++ t, started := b } = _
    rw [List.append_assoc]
    rfl

/-- Inside quotes, doubled quotes are read as quotes, up to the closing one; by induction on what is between. -/
theorem scan_doubled (hrest : rest.head? ≠ some quote) : ∀ {g : JsString} {s : Reader}, s.quoted = true →
    scan Reader.read (g.flatMap doubled ++ quote :: rest) s =
      scan Reader.read rest { s with field := s.field ++ g, quoted := false }
  | [], s, hs => by
    have hread : s.read quote rest.head? = ({ s with quoted := false }, false) := by
      unfold Reader.read
      rw [if_pos hs, if_neg (not_not.mpr rfl), if_neg hrest]
    rw [List.append_nil]
    exact scan_keep hread
  | c :: g, s, hs => by
    have ih := @scan_doubled hrest g (s.add c) hs
    have hfield : (s.add c).field ++ g = s.field ++ c :: g := by
      show s.field ++ [c] ++ g = _
      rw [List.append_assoc]
      rfl
    rw [hfield] at ih
    rw [List.flatMap_cons, List.append_assoc]
    unfold doubled at ih ⊢
    by_cases hc : c = quote
    · have hread : s.read quote (some quote) = (s.add c, true) := by
        unfold Reader.read
        rw [if_pos hs, if_neg (not_not.mpr rfl), if_pos rfl, hc]
      rw [if_pos hc]
      exact (scan_skip hread).trans ih
    · have hread : ∀ next, s.read c next = (s.add c, false) := by
        intro next
        unfold Reader.read
        rw [if_pos hs, if_pos hc]
      rw [if_neg hc]
      exact (scan_keep (hread _)).trans ih

/-- What is written for a field is read as that field. -/
theorem scan_escaped (v : CsvValue) (hrest : rest.head? ≠ some quote) (hquoted : s.quoted = false) (hfield : s.field = [])
    (hstarted : s.started = false) : ∃ b, scan Reader.read (escapeField v ++ rest) s =
      scan Reader.read rest { s with field := cellText v, started := b } := by
  rw [escapeField_eq]
  by_cases hany : (cellText v).any isSpecial = true
  · have hread : ∀ next, s.read quote next = ({ s with quoted := true, started := true }, false) := by
      intro next
      unfold Reader.read
      rw [if_neg (by rw [hquoted]; decide), if_pos rfl, hstarted, hfield]
      rfl
    refine ⟨true, ?_⟩
    rw [if_pos hany, List.cons_append, List.append_assoc, scan_keep (hread _)]
    show scan Reader.read ((cellText v).flatMap doubled ++ quote :: rest) _ = _
    rw [scan_doubled hrest rfl]
    show scan Reader.read rest ⟨s.rows, s.row, s.field ++ cellText v, false, true⟩ =
      scan Reader.read rest ⟨s.rows, s.row, cellText v, s.quoted, true⟩
    rw [hquoted, hfield, List.nil_append]
  · have hall : ∀ c ∈ cellText v, isSpecial c = false := by
      intro c hc
      rw [Bool.not_eq_true, List.any_eq_false] at hany
      exact Bool.eq_false_iff.mpr (hany c hc)
    obtain ⟨b, hb⟩ := @scan_plain rest (cellText v) s hquoted hall
    refine ⟨b, ?_⟩
    rw [if_neg hany, hb, hfield, List.nil_append]

/-! ## Rows -/

/-- A row as it is written. -/
def lineOf (row : List CsvValue) : JsString := [comma].intercalate (row.map escapeField)

/-- The reader stands in a row whose cells so far are told, the last one being the field. -/
structure InRow (s : Reader) (rows : List (List JsString)) (cells : List JsString) : Prop where
  rows : s.rows = rows
  row : s.row ++ [s.field] = cells
  quoted : s.quoted = false

/-- A row that is written is read cell by cell, by induction on its cells. -/
theorem scan_lineOf (hrest : rest.head? ≠ some quote) : ∀ {row : List CsvValue} {rows : List (List JsString)}
    {cells : List JsString}, row ≠ [] → ∃ s, scan Reader.read (lineOf row ++ rest) ⟨rows, cells, [], false, false⟩ =
      scan Reader.read rest s ∧ InRow s rows (cells ++ row.map cellText)
  | [], _, _, hne => absurd rfl hne
  | [v], rows, cells, _ => by
    obtain ⟨b, hb⟩ := @scan_escaped ⟨rows, cells, [], false, false⟩ rest v hrest rfl rfl rfl
    refine ⟨⟨rows, cells, cellText v, false, b⟩, ?_, ⟨rfl, rfl, rfl⟩⟩
    show scan Reader.read ([comma].intercalate [escapeField v] ++ rest) _ = _
    rw [List.intercalate_singleton, hb]
  | v :: w :: row, rows, cells, _ => by
    have hcomma : (comma :: (lineOf (w :: row) ++ rest)).head? ≠ some quote := by
      rw [List.head?_cons]
      decide
    obtain ⟨b, hb⟩ := @scan_escaped ⟨rows, cells, [], false, false⟩ _ v hcomma rfl rfl rfl
    have hread : ∀ next, Reader.read ⟨rows, cells, cellText v, false, b⟩ comma next =
        (⟨rows, cells ++ [cellText v], [], false, false⟩, false) := fun next => rfl
    obtain ⟨s, hs, hin⟩ := @scan_lineOf hrest (w :: row) rows (cells ++ [cellText v]) (List.cons_ne_nil _ _)
    refine ⟨s, ?_, ?_⟩
    · have hsplit : lineOf (v :: w :: row) ++ rest = escapeField v ++ comma :: (lineOf (w :: row) ++ rest) := by
        unfold lineOf
        rw [List.map_cons, List.map_cons, List.intercalate_cons_cons]
        simp only [List.append_assoc, List.cons_append, List.nil_append]
      rw [hsplit, hb, scan_keep (hread _), hs]
    · rw [List.append_assoc] at hin
      exact hin

/-- A row of two cells or more is kept. -/
theorem InRow.endRow {rows : List (List JsString)} {cells : List JsString} (h : InRow s rows cells)
    (hcells : 2 ≤ cells.length) : s.endRow = ⟨rows ++ [cells], [], [], false, false⟩ := by
  have hkept : Reader.isKept (s.row ++ [s.field]) = true := by
    unfold Reader.isKept
    rw [h.row, decide_eq_true (show 1 < cells.length from hcells), Bool.true_or]
  have hquoted := h.quoted
  unfold Reader.endRow Reader.endField
  dsimp only
  rw [if_pos hkept, h.row, h.rows, hquoted]

/-- The end of a line ends the row. -/
theorem scan_lineEnd {rows : List (List JsString)} {cells : List JsString} (h : InRow s rows cells)
    (hcells : 2 ≤ cells.length) : scan Reader.read (carriageReturn :: lineFeed :: rest) s =
      scan Reader.read rest ⟨rows ++ [cells], [], [], false, false⟩ := by
  have hread : s.read carriageReturn (some lineFeed) = (⟨rows ++ [cells], [], [], false, false⟩, true) := by
    unfold Reader.read
    rw [if_neg (by rw [h.quoted]; decide), if_neg (by decide), if_neg (by decide), if_pos rfl, h.endRow hcells]
    rfl
  exact scan_skip hread

/-- Rows that are written are read one by one, by induction on them. -/
theorem scan_lines : ∀ {lines : List (List CsvValue)} {rows : List (List JsString)}, lines ≠ [] →
    (∀ row ∈ lines, 2 ≤ row.length) →
    (scan Reader.read ([carriageReturn, lineFeed].intercalate (lines.map lineOf)) ⟨rows, [], [], false, false⟩).finish.rows =
      rows ++ lines.map (fun row => row.map cellText)
  | [], _, hne, _ => absurd rfl hne
  | [row], rows, _, h => by
    have hlen := h row List.mem_cons_self
    obtain ⟨s, hs, hin⟩ := @scan_lineOf [] (by simp) row rows [] (List.ne_nil_of_length_pos (by omega))
    rw [List.append_nil, List.nil_append] at *
    have hcells : 2 ≤ (row.map cellText).length := by rwa [List.length_map]
    have hrow : 0 < s.row.length := by
      have hlast := congrArg List.length hin.row
      rw [List.length_append, List.length_singleton] at hlast
      omega
    rw [List.map_cons, List.map_nil, List.intercalate_singleton, hs]
    show (if s.field ≠ [] ∨ 0 < s.row.length then s.endRow else s).rows = _
    rw [if_pos (Or.inr hrow), hin.endRow hcells]
    rfl
  | row :: second :: lines, rows, _, h => by
    have hlen := h row List.mem_cons_self
    have hcells : 2 ≤ (row.map cellText).length := by rwa [List.length_map]
    have hend : (carriageReturn :: lineFeed ::
        [carriageReturn, lineFeed].intercalate ((second :: lines).map lineOf)).head? ≠ some quote := by
      rw [List.head?_cons]
      decide
    obtain ⟨s, hs, hin⟩ := @scan_lineOf _ hend row rows [] (List.ne_nil_of_length_pos (by omega))
    rw [List.nil_append] at hin
    have ih := @scan_lines (second :: lines) (rows ++ [row.map cellText]) (List.cons_ne_nil _ _)
      (fun r hr => h r (List.mem_cons_of_mem _ hr))
    have hsplit : [carriageReturn, lineFeed].intercalate ((row :: second :: lines).map lineOf) = lineOf row ++
        carriageReturn :: lineFeed :: [carriageReturn, lineFeed].intercalate ((second :: lines).map lineOf) := by
      rw [List.map_cons, List.map_cons, List.intercalate_cons_cons, List.append_assoc]
      rfl
    rw [hsplit, hs, scan_lineEnd hin hcells, ih, List.append_assoc]
    rfl

/-! ## Round trip -/

theorem toCsv_eq (table : CsvTable) : toCsv table =
    [carriageReturn, lineFeed].intercalate ((table.headers.map CsvValue.text :: table.rows).map lineOf) := rfl

/-- A field is written with a byte-order mark in front only if it begins with one. -/
theorem head?_escapeText (h : t.head? ≠ some byteOrderMark) : (escapeText t).head? ≠ some byteOrderMark := by
  have hguarded : (guarded t).head? ≠ some byteOrderMark := by
    unfold guarded
    split_ifs
    · rw [List.head?_cons]
      decide
    · exact h
  unfold escapeText
  split_ifs
  · rw [List.head?_cons]
    decide
  · exact hguarded

theorem exists_intercalate_cons (sep l : JsString) (ls : List JsString) : ∃ more, sep.intercalate (l :: ls) = l ++ more := by
  cases ls with
  | nil => exact ⟨[], by rw [List.intercalate_singleton, List.append_nil]⟩
  | cons next ls => exact ⟨_, by rw [List.intercalate_cons_cons, List.append_assoc]⟩

/-- A table of two columns or more does not begin with a byte-order mark, unless its first cell does. -/
theorem inputOf_toCsv {first second : JsString} {headers : List JsString} {rows : List (List CsvValue)}
    (hfirst : first.head? ≠ some byteOrderMark) :
    inputOf (toCsv ⟨first :: second :: headers, rows⟩) = toCsv ⟨first :: second :: headers, rows⟩ := by
  obtain ⟨more, hmore⟩ := exists_intercalate_cons [carriageReturn, lineFeed]
    (lineOf ((first :: second :: headers).map CsvValue.text)) (rows.map lineOf)
  have hsplit : ∃ others, toCsv ⟨first :: second :: headers, rows⟩ = escapeText first ++ comma :: others := by
    refine ⟨lineOf ((second :: headers).map CsvValue.text) ++ more, (toCsv_eq _).trans (hmore.trans ?_)⟩
    unfold lineOf
    rw [List.map_cons, List.map_cons, List.map_cons, List.map_cons, List.intercalate_cons_cons, List.append_assoc,
      List.append_assoc]
    rfl
  obtain ⟨others, hothers⟩ := hsplit
  have hhead : (escapeText first ++ comma :: others).head? ≠ some byteOrderMark := by
    have hescaped := head?_escapeText hfirst
    cases htext : escapeText first with
    | nil =>
      rw [List.nil_append, List.head?_cons]
      decide
    | cons c rest =>
      rw [htext] at hescaped
      exact hescaped
  unfold inputOf
  rw [hothers, if_neg hhead]

/-- A table is read as it was written, cell by cell, if every row has two cells or more and the first cell does not begin
with a byte-order mark. -/
theorem parseCsv_toCsv (table : CsvTable) (hheaders : 2 ≤ table.headers.length) (hrows : ∀ row ∈ table.rows, 2 ≤ row.length)
    (hfirst : ∀ cell, table.headers.head? = some cell → cell.head? ≠ some byteOrderMark) :
    parseCsv (toCsv table) = table.headers.map guarded :: table.rows.map (fun row => row.map cellText) := by
  obtain ⟨headers, rows⟩ := table
  match headers, hheaders, hfirst with
  | first :: second :: headers, hheaders, hfirst =>
    have hall : ∀ row ∈ (first :: second :: headers).map CsvValue.text :: rows, 2 ≤ row.length := by
      intro row hrow
      rcases List.mem_cons.mp hrow with rfl | hrow
      · rw [List.length_map]
        exact hheaders
      · exact hrows row hrow
    have hlines := @scan_lines _ [] (List.cons_ne_nil _ _) hall
    unfold parseCsv Reader.start
    rw [inputOf_toCsv (hfirst first rfl), toCsv_eq, hlines, List.nil_append, List.map_cons, List.map_map]
    rfl

/-- A table with quotes, line breaks, a formula and empty cells. -/
theorem parseCsv_toCsv_sample :
    parseCsv (toCsv ⟨[js "a", js "b"], [[.text (js "x,\"y\"\r\n"), .null], [.undefined, .text (js "=1")]]⟩) =
      [js "a", js "b"] :: [[js "x,\"y\"\r\n", []], [[], js "'=1"]] :=
  parseCsv_toCsv ⟨[js "a", js "b"], [[.text (js "x,\"y\"\r\n"), .null], [.undefined, .text (js "=1")]]⟩ (by decide)
    (by decide) (by decide)

end Csv

end EasyDocket
