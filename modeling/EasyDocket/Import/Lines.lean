import EasyDocket.Import.Csv
import EasyDocket.Import.Plan

/-!
# Lines of a file

The planner takes a row's place among the rows for its line; the file has the lines that the reader dropped, and records
of several lines, too.  Records are told with the places where they begin and end, from which lines are counted; the two
agree for a row just where every record before it is kept and takes one line (`linesRight_iff`).
-/

namespace EasyDocket

namespace Import

open Csv Scanning

/-! ## Lines -/

/-- A line break ends here: LF, or CR without LF. -/
def isBreakAt (text : JsString) (i : ℕ) : Bool :=
  text[i]? = some lineFeed || (text[i]? = some carriageReturn && text[i + 1]? ≠ some lineFeed)

/-- The 1-based line of a place in a text. -/
def lineAt (text : JsString) (offset : ℕ) : ℕ := (List.range offset).countP (isBreakAt text) + 1

/-! ## Records and their places -/

/-- A record of a file, with the place where it begins and the place after it. -/
structure Record where
  fields : List JsString
  start : ℕ
  stop : ℕ

/-- A record that the reader does not drop. -/
def Record.isKept (r : Record) : Bool := Reader.isKept r.fields

/-- It takes one line. -/
def Record.OneLine (text : JsString) (r : Record) : Prop := lineAt text r.stop = lineAt text r.start + 1

/-- The reader, where it stands, where the record began, and the records before. -/
structure Tracker where
  reader : Reader
  offset : ℕ
  start : ℕ
  records : List Record

/-- A line end that is not quoted ends the record. -/
def endsRecord (s : Reader) (c : CodeUnit) : Bool := !s.quoted && (c = carriageReturn || c = lineFeed)

namespace Tracker

def read (t : Tracker) (c : CodeUnit) (next : Option CodeUnit) : Tracker × Bool :=
  let taken := t.reader.read c next
  let offset := t.offset + if taken.2 then 2 else 1
  if endsRecord t.reader c then
    (⟨taken.1, offset, offset, t.records ++ [⟨t.reader.endField.row, t.start, offset⟩]⟩, taken.2)
  else (⟨taken.1, offset, t.start, t.records⟩, taken.2)

def finish (t : Tracker) : List Record :=
  if t.reader.field ≠ [] ∨ 0 < t.reader.row.length then t.records ++ [⟨t.reader.endField.row, t.start, t.offset⟩]
  else t.records

def first : Tracker := ⟨Reader.start, 0, 0, []⟩

end Tracker

/-- The records of a file, with those that are dropped. -/
def recordsOf (text : JsString) : List Record := (scan Tracker.read (inputOf text) Tracker.first).finish

example : (recordsOf (js "a,b\r\n\r\n\"x\ny\",z\n")).map (fun r => (r.isKept, lineAt (js "a,b\r\n\r\n\"x\ny\",z\n") r.start)) =
    [(true, 1), (false, 2), (true, 3)] := by decide +kernel

variable {s : Reader} {t : Tracker} {c : CodeUnit} {next : Option CodeUnit} {text rest : JsString} {a b : ℕ}

theorem read_of_ends (h : endsRecord s c = true) :
    s.read c next = (s.endRow, decide (c = carriageReturn ∧ next = some lineFeed)) := by
  unfold endsRecord at h
  simp only [Bool.and_eq_true, Bool.not_eq_true', Bool.or_eq_true, decide_eq_true_eq] at h
  obtain ⟨hquoted, rfl | rfl⟩ := h
  · unfold Reader.read
    rw [if_neg (by rw [hquoted]; decide), if_neg (by decide), if_neg (by decide), if_pos rfl]
    simp
  · unfold Reader.read
    rw [if_neg (by rw [hquoted]; decide), if_neg (by decide), if_neg (by decide), if_neg (by decide), if_pos rfl,
      decide_eq_false (fun h => absurd h.1 (by decide))]

theorem rows_of_not_ends (h : endsRecord s c = false) : (s.read c next).1.rows = s.rows := by
  unfold endsRecord at h
  unfold Reader.read
  cases hquoted : s.quoted with
  | true =>
    rw [if_pos rfl]
    split_ifs <;> rfl
  | false =>
    simp only [hquoted, Bool.not_false, Bool.true_and, Bool.or_eq_false_iff, decide_eq_false_iff_not] at h
    rw [if_neg Bool.false_ne_true]
    simp only [if_neg h.1, if_neg h.2]
    split_ifs <;> rfl

theorem rows_endRow (s : Reader) : s.endRow.rows = s.rows ++ if Reader.isKept s.endField.row then [s.endField.row] else [] := by
  show (if Reader.isKept s.endField.row then s.endField.rows ++ [s.endField.row] else s.endField.rows) = _
  split_ifs
  · rfl
  · exact (List.append_nil _).symm

/-- The rows that a list of records stands for. -/
def rowsOf (records : List Record) : List (List JsString) := (records.filter Record.isKept).map Record.fields

theorem rowsOf_concat (records : List Record) (r : Record) :
    rowsOf (records ++ [r]) = rowsOf records ++ if r.isKept then [r.fields] else [] := by
  unfold rowsOf
  rw [List.filter_append, List.map_append]
  refine congrArg (_ ++ ·) ?_
  by_cases h : r.isKept = true <;> simp [h]

/-- The rows of `parseCsv` are the records that are kept. -/
theorem parseCsv_eq (text : JsString) : parseCsv text = rowsOf (recordsOf text) := by
  have hrel : ∀ (s : Reader) (t : Tracker) (c : CodeUnit) (n : Option CodeUnit), t.reader = s ∧ s.rows = rowsOf t.records →
      ((t.read c n).1.reader = (s.read c n).1 ∧ (s.read c n).1.rows = rowsOf (t.read c n).1.records) ∧
        (s.read c n).2 = (t.read c n).2 := by
    rintro s t c n ⟨rfl, hrows⟩
    unfold Tracker.read
    dsimp only
    cases hends : endsRecord t.reader c with
    | true =>
      refine ⟨⟨rfl, ?_⟩, rfl⟩
      rw [if_pos rfl, rowsOf_concat, read_of_ends hends, rows_endRow, hrows]
      rfl
    | false =>
      refine ⟨⟨rfl, ?_⟩, rfl⟩
      rw [if_neg Bool.false_ne_true, rows_of_not_ends hends]
      exact hrows
  obtain ⟨hreader, hrows⟩ := scan_rel (R := fun s t => t.reader = s ∧ s.rows = rowsOf t.records) hrel
    (inputOf text) Reader.start Tracker.first ⟨rfl, rfl⟩
  unfold parseCsv recordsOf Reader.finish Tracker.finish
  rw [hreader]
  split_ifs
  · rw [rowsOf_concat, rows_endRow, hrows]
    rfl
  · exact hrows

/-! ## Places -/

theorem lineAt_succ (text : JsString) (i : ℕ) : lineAt text (i + 1) = lineAt text i + (isBreakAt text i).toNat := by
  unfold lineAt
  rw [List.range_succ, List.countP_append, List.countP_singleton]
  cases isBreakAt text i <;> simp

theorem lineAt_mono (text : JsString) : Monotone (lineAt text) :=
  monotone_nat_of_le_succ (fun i => by rw [lineAt_succ]; omega)

/-- Records follow one another, and each ends with a line break. -/
def Tiles (text : JsString) : ℕ → List Record → ℕ → Prop
  | a, [], b => a = b
  | a, r :: rs, b => r.start = a ∧ lineAt text a < lineAt text r.stop ∧ Tiles text r.stop rs b

theorem tiles_append : ∀ {a : ℕ} {rs rs' : List Record}, Tiles text a (rs ++ rs') b ↔
    ∃ m, Tiles text a rs m ∧ Tiles text m rs' b
  | a, [], rs' => ⟨fun h => ⟨a, rfl, h⟩, by rintro ⟨m, rfl, h⟩; exact h⟩
  | a, r :: rs, rs' => by
    show (_ ∧ _ ∧ Tiles text r.stop (rs ++ rs') b) ↔ ∃ m, (_ ∧ _ ∧ Tiles text r.stop rs m) ∧ Tiles text m rs' b
    rw [tiles_append]
    constructor
    · rintro ⟨hstart, hline, m, hrs, hrs'⟩
      exact ⟨m, ⟨hstart, hline, hrs⟩, hrs'⟩
    · rintro ⟨m, ⟨hstart, hline, hrs⟩, hrs'⟩
      exact ⟨hstart, hline, m, hrs, hrs'⟩

/-- The tracker stands where what is left begins, after records that follow one another. -/
structure Placed (text rest : JsString) (t : Tracker) : Prop where
  rest : rest = text.drop t.offset
  tiles : Tiles text 0 t.records t.start
  start : t.start ≤ t.offset

theorem getElem?_of_drop {d : CodeUnit} {o : ℕ} (h : d :: rest = text.drop o) : text[o]? = some d ∧ rest = text.drop (o + 1) := by
  have hget : (text.drop o)[0]? = some d := by rw [← h]; rfl
  refine ⟨by rwa [List.getElem?_drop, Nat.add_zero] at hget, ?_⟩
  rw [← List.drop_drop, ← h]
  rfl

/-- A record that ends has a line break at its end. -/
theorem lineAt_lt_of_ends (h : Placed text (c :: rest) t) (hends : endsRecord t.reader c = true) :
    lineAt text t.start < lineAt text (t.offset + if (t.reader.read c rest.head?).2 then 2 else 1) := by
  have hle := lineAt_mono text h.start
  obtain ⟨hget, hrest⟩ := getElem?_of_drop h.rest
  have hnext : rest.head? = text[t.offset + 1]? := by
    rw [hrest, List.head?_drop]
  have hmark : c = carriageReturn ∨ c = lineFeed := by
    unfold endsRecord at hends
    simp only [Bool.and_eq_true, Bool.or_eq_true, decide_eq_true_eq] at hends
    exact hends.2
  rw [read_of_ends hends]
  by_cases hcrlf : c = carriageReturn ∧ rest.head? = some lineFeed
  · have hbreak : isBreakAt text (t.offset + 1) = true := by
      unfold isBreakAt
      rw [← hnext, hcrlf.2]
      rfl
    rw [if_pos (decide_eq_true hcrlf), lineAt_succ, hbreak]
    have hstep := lineAt_mono text (Nat.le_add_right t.offset 1)
    show _ < _ + 1
    omega
  · have hbreak : isBreakAt text t.offset = true := by
      unfold isBreakAt
      rw [hget, ← hnext]
      rcases hmark with rfl | rfl
      · rw [decide_eq_true (show rest.head? ≠ some lineFeed from fun h => hcrlf ⟨rfl, h⟩)]
        simp
      · simp
    rw [if_neg (by rw [decide_eq_true_eq]; exact hcrlf), lineAt_succ, hbreak]
    show _ < _ + 1
    omega

/-- A step of the tracker. -/
theorem Placed.read (h : Placed text (c :: rest) t) :
    Placed text (rest.drop (if (t.read c rest.head?).2 then 1 else 0)) (t.read c rest.head?).1 := by
  obtain ⟨-, hrest⟩ := getElem?_of_drop h.rest
  have hdrop : rest.drop (if (t.reader.read c rest.head?).2 then 1 else 0) =
      text.drop (t.offset + if (t.reader.read c rest.head?).2 then 2 else 1) := by
    rw [hrest, List.drop_drop]
    split_ifs <;> rfl
  have hskip : (t.read c rest.head?).2 = (t.reader.read c rest.head?).2 := by
    unfold Tracker.read
    dsimp only
    split_ifs <;> rfl
  rw [hskip]
  unfold Tracker.read
  dsimp only
  cases hends : endsRecord t.reader c with
  | true =>
    rw [if_pos rfl]
    exact ⟨hdrop, tiles_append.mpr ⟨t.start, h.tiles, rfl, lineAt_lt_of_ends h hends, rfl⟩, le_refl _⟩
  | false =>
    rw [if_neg Bool.false_ne_true]
    exact ⟨hdrop, h.tiles, h.start.trans (Nat.le_add_right _ _)⟩

/-- At the end of the text the records before follow one another. -/
theorem placed_scan (text : JsString) : Placed text [] (scan Tracker.read text Tracker.first) := by
  refine scan_inv (P := Placed text) ?_ ?_ ?_ text Tracker.first ⟨rfl, rfl, le_refl 0⟩
  · intro c rest t h hskip
    have hread := h.read
    rw [hskip] at hread
    exact hread
  · intro c d rest t h hskip
    have hread := h.read
    rw [List.head?_cons, hskip] at hread
    exact hread
  · intro c t h
    have hread := h.read
    rw [List.drop_nil] at hread
    exact hread

/-- The records before one of the records follow one another up to it. -/
theorem tiles_before {pre post : List Record} {r : Record} (h : recordsOf text = pre ++ r :: post) :
    Tiles (inputOf text) 0 pre r.start := by
  have hplaced := placed_scan (inputOf text)
  have hprefix : ∀ {post : List Record}, (scan Tracker.read (inputOf text) Tracker.first).records = pre ++ r :: post →
      Tiles (inputOf text) 0 pre r.start := by
    intro post hrecords
    have htiles := hplaced.tiles
    rw [hrecords, tiles_append] at htiles
    obtain ⟨m, hpre, rfl, -⟩ := htiles
    exact hpre
  unfold recordsOf Tracker.finish at h
  split at h
  · rcases List.eq_nil_or_concat post with rfl | ⟨post, last, rfl⟩
    · obtain ⟨hpre, hlast⟩ := List.append_inj' h rfl
      rw [← hpre, ← (List.cons.inj hlast).1]
      exact hplaced.tiles
    · rw [List.concat_eq_append, ← List.cons_append, ← List.append_assoc] at h
      exact hprefix (List.append_inj' h rfl).1
  · exact hprefix h

/-- Lines are at least as many as the records that are kept, and as many just where each record is kept and takes one. -/
theorem lines_of_tiles : ∀ {a : ℕ} {rs : List Record}, Tiles text a rs b →
    lineAt text a + rs.countP Record.isKept ≤ lineAt text b ∧
      (lineAt text b = lineAt text a + rs.countP Record.isKept ↔ ∀ q ∈ rs, q.isKept = true ∧ q.OneLine text)
  | a, [], h => by
    obtain rfl : a = b := h
    simp
  | a, r :: rs, h => by
    obtain ⟨rfl, hline, h⟩ := h
    obtain ⟨hle, hiff⟩ := lines_of_tiles h
    rw [List.countP_cons, List.forall_mem_cons]
    unfold Record.OneLine at *
    cases hkept : r.isKept with
    | true =>
      rw [if_pos rfl]
      refine ⟨by omega, fun heq => ?_, ?_⟩
      · have hone : lineAt text r.stop = lineAt text r.start + 1 := by omega
        exact ⟨⟨rfl, hone⟩, hiff.mp (by omega)⟩
      · rintro ⟨⟨-, hone⟩, hall⟩
        have heq := hiff.mpr hall
        omega
    | false =>
      rw [if_neg Bool.false_ne_true]
      refine ⟨by omega, fun heq => ?_, ?_⟩
      · omega
      · rintro ⟨⟨hfalse, -⟩, -⟩
        cases hfalse

/-! ## The lines of a plan -/

theorem getElem?_filter_iff {α : Type} {f : α → Bool} {x : α} : ∀ {l : List α} {n : ℕ}, (l.filter f)[n]? = some x ↔
    ∃ pre post, l = pre ++ x :: post ∧ f x = true ∧ pre.countP f = n
  | [], n => by simp
  | y :: l, n => by
    have hcons : (∃ pre post, y :: l = pre ++ x :: post ∧ f x = true ∧ pre.countP f = n) ↔
        (y = x ∧ f x = true ∧ n = 0) ∨ ∃ pre post, l = pre ++ x :: post ∧ f x = true ∧ (y :: pre).countP f = n := by
      constructor
      · rintro ⟨pre, post, heq, hx, hn⟩
        cases pre with
        | nil =>
          obtain ⟨rfl, rfl⟩ := List.cons.inj heq
          exact Or.inl ⟨rfl, hx, hn.symm⟩
        | cons z pre =>
          obtain ⟨rfl, rfl⟩ := List.cons.inj heq
          exact Or.inr ⟨pre, post, rfl, hx, hn⟩
      · rintro (⟨rfl, hx, rfl⟩ | ⟨pre, post, rfl, hx, hn⟩)
        · exact ⟨[], l, rfl, hx, rfl⟩
        · exact ⟨y :: pre, post, rfl, hx, hn⟩
    rw [hcons]
    cases hy : f y with
    | true =>
      simp only [List.filter_cons_of_pos hy, List.countP_cons_of_pos hy]
      cases n with
      | zero =>
        rw [List.getElem?_cons_zero, Option.some.injEq]
        constructor
        · rintro rfl
          exact Or.inl ⟨rfl, hy, rfl⟩
        · rintro (⟨rfl, -, -⟩ | ⟨pre, post, -, -, hn⟩)
          · rfl
          · omega
      | succ n =>
        rw [List.getElem?_cons_succ, getElem?_filter_iff]
        simp
    | false =>
      have hny : ¬ f y = true := by rw [hy]; exact Bool.false_ne_true
      simp only [List.filter_cons_of_neg hny, List.countP_cons_of_neg hny, getElem?_filter_iff]
      constructor
      · exact Or.inr
      · rintro (⟨rfl, hx, -⟩ | h)
        · exact absurd hx hny
        · exact h

variable {mapping : ColumnMapping}

/-- The records of the rows that are planned: the first that is kept is the header. -/
def dataOf (text : JsString) : List Record := ((recordsOf text).filter Record.isKept).drop 1

/-- The plan gives the lines on which its rows' records begin. -/
def LinesRight (text : JsString) (mapping : ColumnMapping) (plan : ImportPlan) : Prop :=
  plan.rows.map PlannedRow.line =
    ((dataOf text).filter (fun r => !isBlank mapping r.fields)).map (fun r => lineAt (inputOf text) r.start)

/-- Before each row that is planned, no record was dropped and none takes several lines. -/
def LineByLine (text : JsString) (mapping : ColumnMapping) : Prop :=
  ∀ pre r post, recordsOf text = pre ++ r :: post → r.isKept = true → pre.any Record.isKept = true →
    isBlank mapping r.fields = false → ∀ q ∈ pre, q.isKept = true ∧ q.OneLine (inputOf text)

theorem rows_eq (text : JsString) : (parseCsv text).drop 1 = (dataOf text).map Record.fields := by
  rw [parseCsv_eq]
  exact List.map_drop.symm

/-- A row of data, with the records before it. -/
theorem mem_dataOf {i : ℕ} {r : Record} : (r, i) ∈ (dataOf text).zipIdx ↔
    ∃ pre post, recordsOf text = pre ++ r :: post ∧ r.isKept = true ∧ pre.countP Record.isKept = i + 1 := by
  rw [List.mem_zipIdx_iff_getElem?]
  show (((recordsOf text).filter Record.isKept).drop 1)[i]? = some r ↔ _
  rw [List.getElem?_drop, Nat.add_comm 1 i]
  exact getElem?_filter_iff

/-- The line of a record, by the records that are kept before it. -/
theorem line_iff {pre post : List Record} {r : Record} {n : ℕ} (h : recordsOf text = pre ++ r :: post)
    (hn : pre.countP Record.isKept = n) : lineAt (inputOf text) r.start = n + 1 ↔
      ∀ q ∈ pre, q.isKept = true ∧ q.OneLine (inputOf text) := by
  have hfirst : lineAt (inputOf text) 0 = 1 := rfl
  rw [← (lines_of_tiles (tiles_before h)).2, hfirst, hn, Nat.add_comm]

/-- The lines of a plan are those of its records just where no record before was dropped or takes several lines. -/
theorem linesRight_iff (L : Language) (T : Books.Text) (text : JsString) (mapping : ColumnMapping) (options : ImportOptions) :
    LinesRight text mapping (planImport L T ((parseCsv text).drop 1) mapping options) ↔ LineByLine text mapping := by
  have hzip : ((dataOf text).map Record.fields).zipIdx = (dataOf text).zipIdx.map (fun x => (x.1.fields, x.2)) := by
    rw [List.zipIdx_map]
    rfl
  have hplan : (planImport L T ((parseCsv text).drop 1) mapping options).rows.map PlannedRow.line =
      ((dataOf text).zipIdx.filter (fun x => !isBlank mapping x.1.fields)).map (fun x => x.2 + 2) := by
    rw [covers_planImport.lines, rows_eq, hzip, List.filter_map, List.map_map]
    rfl
  have hdata : ((dataOf text).filter (fun r => !isBlank mapping r.fields)).map (fun r => lineAt (inputOf text) r.start) =
      ((dataOf text).zipIdx.filter (fun x => !isBlank mapping x.1.fields)).map (fun x => lineAt (inputOf text) x.1.start) := by
    conv_lhs => rw [← List.zipIdx_map_fst 0 (dataOf text)]
    rw [List.filter_map, List.map_map]
    rfl
  unfold LinesRight
  rw [hplan, hdata, List.map_inj_left]
  constructor
  · intro h pre r post hrecords hkept hany hblank
    obtain ⟨n, hn⟩ : ∃ n, pre.countP Record.isKept = n + 1 := by
      refine Nat.exists_eq_succ_of_ne_zero (Nat.pos_iff_ne_zero.mp (List.countP_pos_iff.mpr ?_))
      exact List.any_eq_true.mp hany
    have hmem := mem_dataOf.mpr ⟨pre, post, hrecords, hkept, hn⟩
    have hline := h (r, n) (List.mem_filter.mpr ⟨hmem, by rw [hblank]; rfl⟩)
    exact (line_iff hrecords hn).mp hline.symm
  · rintro h ⟨r, n⟩ hmem
    obtain ⟨hmem, hblank⟩ := List.mem_filter.mp hmem
    obtain ⟨pre, post, hrecords, hkept, hn⟩ := mem_dataOf.mp hmem
    have hany : pre.any Record.isKept = true := by
      rw [List.any_eq_true]
      exact List.countP_pos_iff.mp (by omega)
    have hall := h pre r post hrecords hkept hany (by simpa using hblank)
    exact ((line_iff hrecords hn).mpr hall).symm

/-- After a blank line the plan is one line behind. -/
theorem exists_not_linesRight : ¬ ∀ (L : Language) (T : Books.Text) (text : JsString) (mapping : ColumnMapping)
    (options : ImportOptions), (∃ r post, recordsOf text = r :: post ∧ r.isKept = true) →
    LinesRight text mapping (planImport L T ((parseCsv text).drop 1) mapping options) := by
  intro h
  have hlines := h exactly Books.ascii (js "date,amount\n\n2024-05-01,x\n") columns euros ⟨_, _, rfl, by decide +kernel⟩
  have hplan : (planImport exactly Books.ascii ((parseCsv (js "date,amount\n\n2024-05-01,x\n")).drop 1) columns euros).rows.map
      PlannedRow.line = [2] := by decide +kernel
  have hdata : ((dataOf (js "date,amount\n\n2024-05-01,x\n")).filter (fun r => !isBlank columns r.fields)).map
      (fun r => lineAt (inputOf (js "date,amount\n\n2024-05-01,x\n")) r.start) = [3] := by decide +kernel
  unfold LinesRight at hlines
  rw [hplan, hdata] at hlines
  exact absurd hlines (by decide)

end Import

end EasyDocket
