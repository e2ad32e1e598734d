import InlineImpact.Csv

/-!
What is written is what is read. A field that is written leaves its text in the reading, whatever
characters it has; the comma or the line end after it then finishes the field, and a row of such
fields is the row that was given. Rows without fields and rows of one empty field are left out: both
are blank lines.
-/
namespace InlineImpact.Csv

/-- Rows that are not written as blank lines. -/
def Legible (row : List String) : Prop := row ≠ [] ∧ row ≠ [""]

namespace Reading

variable {s : Reading} {field : List Char} {fields : List String}

/-- A field is about to begin. -/
structure Fresh (s : Reading) : Prop where
  mode : s.mode = .startRow ∨ s.mode = .startField
  field : s.field = []
  returned : s.returned = false

/-- Where a field that was written leaves the reading: nothing tells yet that the field is over. -/
def heldMode (s : Reading) (field : List Char) : Mode :=
  if needsQuotes field then .afterQuote else if field = [] then s.mode else .inField

def held (s : Reading) (field : List Char) : Reading :=
  { s with mode := s.heldMode field, field := field.reverse }

/-- Inside quotes every character stands for itself, once quotes are written twice. -/
theorem foldl_doubleQuotes (hmode : s.mode = .quoted) (hreturned : s.returned = false) :
    (doubleQuotes field).foldl step s = { s with field := field.reverse ++ s.field } := by
  induction field generalizing s with
  | nil => rfl
  | cons c rest ih =>
    have hstep : (if c == '"' then ['"', '"'] else [c]).foldl step s = s.add c .quoted := by
      by_cases hc : c = '"'
      · subst hc
        simp [step, hmode, add]
      · simp [step, hmode, hc]
    have hsame : s.add c .quoted = { s with field := c :: s.field } := by
      simp [add, hmode, hreturned]
    rw [doubleQuotes, List.flatMap_cons, List.foldl_append, hstep, hsame, ← doubleQuotes,
      ih (s := { s with field := c :: s.field }) hmode hreturned]
    simp

/-- Outside of quotes a character that needs none stands for itself. -/
theorem foldl_plain (hmode : s.mode = .inField) (hreturned : s.returned = false)
    (hplain : needsQuotes field = false) :
    field.foldl step s = { s with field := field.reverse ++ s.field } := by
  induction field generalizing s with
  | nil => rfl
  | cons c rest ih =>
    obtain ⟨hc, hrest⟩ : needsQuotes [c] = false ∧ needsQuotes rest = false := by
      simpa [needsQuotes] using hplain
    have hstep : s.step c = { s with field := c :: s.field } := by
      simp_all [needsQuotes, step, plain, add]
    rw [List.foldl_cons, hstep, ih (s := { s with field := c :: s.field }) hmode hreturned hrest]
    simp

theorem foldl_writeField (hs : s.Fresh) : (writeField field).foldl step s = s.held field := by
  by_cases hquotes : needsQuotes field = true
  · have hopen : s.step '"' = { s with mode := .quoted } := by
      rcases hs.mode with h | h <;> simp [step, h, hs.returned]
    rw [writeField, if_pos hquotes, List.foldl_cons, hopen, List.foldl_append,
      foldl_doubleQuotes (s := { s with mode := .quoted }) rfl hs.returned]
    simp [step, held, heldMode, hquotes, hs.field]
  · rw [writeField, if_neg hquotes]
    have hplain : needsQuotes field = false := by simpa using hquotes
    cases field with
    | nil =>
      have hempty := hs.field
      cases s
      cases hempty
      rfl
    | cons c rest =>
      obtain ⟨hc, hrest⟩ : needsQuotes [c] = false ∧ needsQuotes rest = false := by
        simpa [needsQuotes] using hplain
      have hstep : s.step c = { s with mode := .inField, field := [c] } := by
        have hempty := hs.field
        have hreturned := hs.returned
        rcases hs.mode with h | h <;> simp_all [needsQuotes, step, plain, add]
      rw [List.foldl_cons, hstep, foldl_plain (s := { s with mode := .inField, field := [c] }) rfl
        hs.returned hrest]
      simp [held, heldMode, hplain]

/-- The reading is not inside of quotes. -/
theorem heldMode_ne_quoted (hs : s.Fresh) (field : List Char) : s.heldMode field ≠ .quoted := by
  unfold heldMode
  split
  · exact nofun
  · split
    · rcases hs.mode with h | h <;> rw [h] <;> exact nofun
    · exact nofun

/-- A comma finishes the field. -/
theorem step_comma (hs : s.Fresh) : (s.held field).step ',' =
    { s with mode := .startField, fields := String.ofList field :: s.fields } := by
  have hcomma : (s.held field).step ',' = (s.held field).endField := by
    have hne := heldMode_ne_quoted hs field
    unfold step
    split <;> simp_all [held, plain]
  rw [hcomma]
  simp [endField, held, hs.field, hs.returned]

/-- A line end finishes the field and the row. -/
theorem foldl_lineEnd (hs : s.Fresh) (h : s.mode = .startRow → field ≠ []) :
    ['\r', '\n'].foldl step (s.held field) =
      { rows := (s.fields.reverse ++ [String.ofList field]) :: s.rows } := by
  have hreturn : (s.held field).step '\r' = (s.held field).endRow true := by
    have hne := heldMode_ne_quoted hs field
    unfold step
    split <;> simp_all [held, plain]
  have hbegun : (s.held field).mode ≠ .startRow := by
    intro hmode
    have hmode : s.heldMode field = .startRow := hmode
    unfold heldMode at hmode
    split at hmode
    · cases hmode
    · split at hmode
      · exact h hmode ‹_›
      · cases hmode
  rw [List.foldl_cons, hreturn, endRow, if_neg hbegun]
  simp [step, endField, held]

theorem foldl_writeFields (hs : s.Fresh) (hne : fields ≠ []) (h : s.mode = .startRow → fields ≠ [""]) :
    (writeFields (fields.map String.toList) ++ ['\r', '\n']).foldl step s =
      { rows := (s.fields.reverse ++ fields) :: s.rows } := by
  induction fields generalizing s with
  | nil => exact (hne rfl).elim
  | cons field rest ih =>
    cases rest with
    | nil =>
      rw [List.map_singleton, writeFields, List.foldl_append, foldl_writeField hs, foldl_lineEnd hs,
        String.ofList_toList]
      intro hmode hempty
      exact h hmode (by rw [String.toList_eq_nil_iff.1 hempty])
    | cons next rest =>
      have hfresh : Fresh { s with mode := .startField, fields := field :: s.fields } :=
        ⟨.inr rfl, hs.field, hs.returned⟩
      rw [List.map_cons, List.map_cons, writeFields, List.append_assoc, List.foldl_append,
        foldl_writeField hs, List.cons_append, List.foldl_cons, step_comma hs, String.ofList_toList,
        ← List.map_cons, ih hfresh (List.cons_ne_nil _ _) nofun]
      · simp
      · exact nofun

theorem foldl_writeRow {row : List String} (hrow : Legible row) (rows : List (List String)) :
    (writeRow row).toList.foldl step { rows } = { rows := row :: rows } := by
  rw [writeRow, String.toList_ofList, foldl_writeFields ⟨.inl rfl, rfl, rfl⟩ hrow.1 fun _ => hrow.2]
  rfl

end Reading

/-- Some rows, one below the other. -/
def writeRows (rows : List (List String)) : String := String.join (rows.map writeRow)

theorem writeRows_concat (rows : List (List String)) (row : List String) :
    writeRows (rows ++ [row]) = writeRows rows ++ writeRow row := by
  simp [writeRows]

theorem writeRows_cons (row : List String) (rows : List (List String)) :
    writeRows (row :: rows) = writeRow row ++ writeRows rows := by
  simp [writeRows]

theorem writeRows_cons_ne_empty (row : List String) (rows : List (List String)) :
    writeRows (row :: rows) ≠ "" := by
  intro h
  have hchars := congrArg String.toList h
  rw [writeRows_cons, String.toList_append, writeRow, String.toList_ofList] at hchars
  simp at hchars

theorem read_writeRows {rows : List (List String)} (h : ∀ row ∈ rows, Legible row) :
    read (writeRows rows).toList = rows := by
  have hfold (before : List (List String)) : (writeRows rows).toList.foldl Reading.step { rows := before } =
      { rows := rows.reverse ++ before } := by
    induction rows generalizing before with
    | nil => rfl
    | cons row rest ih =>
      obtain ⟨hrow, hrest⟩ := List.forall_mem_cons.1 h
      rw [writeRows_cons, String.toList_append, List.foldl_append, Reading.foldl_writeRow hrow, ih hrest]
      simp
  rw [read, hfold]
  simp [Reading.finish]

end InlineImpact.Csv
