import InlineImpact.Proofs.Csv
import InlineImpact.Proofs.Dataset
import InlineImpact.Proofs.Dataset.Schema
import InlineImpact.Proofs.Text.Utf8
import InlineImpact.Proofs.Workspace.Content
import InlineImpact.Proofs.Workspace.Directory

/-!
Reading a dataset back. Whatever is done with writers for one dataset, from when there is nothing in it,
its file contains one header and below it one line for each row that was appended, in this order. Reading
finds the same rows: in each column the text of the row's value, or nothing where the row has none.
-/
namespace InlineImpact.Dataset

open Workspace (Contains)

section Columns

variable {columns : Columns} {r : Row} {cells : List String}

theorem nodup_distinctNames (names : List String) : (distinctNames names).Nodup := by
  induction names with
  | nil => exact List.nodup_nil
  | cons first rest ih =>
    rw [distinctNames, List.nodup_cons]
    exact ⟨by simp, ih.filter _⟩

theorem Columns.legible_names (columns : Columns) : Csv.Legible columns.names := by
  obtain ⟨more, hmore⟩ := columns.exists_names_eq
  rw [hmore]
  exact ⟨List.cons_ne_nil _ _, by simp⟩

theorem Row.legible_cells (h : r.cells columns = .ok cells) : Csv.Legible cells := by
  obtain ⟨more, rfl⟩ := exists_cells_eq h
  exact ⟨List.cons_ne_nil _ _, by simp⟩

/-- What is found of a row: every column, with the text of the row's value or nothing. -/
def ReadAs (columns : Columns) (r : Row) (found : Keyed (Option String) Found) : Prop :=
  ∃ values, r.record columns = .ok values ∧
    found = columns.names.map fun name => (some name, .text ((values.get? name).elim "" Datum.cell))

/-- The cells of a row go back to their columns. -/
theorem readAs_byColumn (h : r.cells columns = .ok cells) : ReadAs columns r (byColumn columns.names cells) := by
  obtain ⟨values, hvalues, hcells⟩ := exists_of_bind_eq_ok h
  refine ⟨values, hvalues, ?_⟩
  obtain rfl := Except.ok.inj hcells
  have hnodup : columns.names.Nodup := nodup_distinctNames _
  generalize columns.names = names at hnodup ⊢
  let cell (name : String) : String := (values.get? name).elim "" Datum.cell
  have hkeys : ((names.map fun name => (some name, Found.text (cell name))).map Prod.fst).Nodup := by
    rw [List.map_map]
    exact hnodup.map fun _ _ h => Option.some.inj h
  rw [byColumn]
  dsimp only
  rw [if_neg (by simp), List.length_map, List.drop_length, List.map_nil, List.append_nil,
    List.zip_eq_zipWith, List.map_zipWith, List.zipWith_map_right, List.zipWith_self]
  exact Keyed.ofPairs_of_nodup hkeys

end Columns

section Acts

/-- What can be done with a dataset. A new writer for it takes the place of the old one, closed or not. -/
inductive Act where
  | opens
  | appends (r : Row)
  | closes
  | renews

namespace Writer

def renew (w : Writer) : Writer := { path := w.path, columns := w.columns }

def perform (w : Writer) (ws : Workspace) : Act → Change
  | .opens => w.start ws
  | .appends r => w.append ws r
  | .closes => (.ok (), w.close, ws)
  | .renews => (.ok (), w.renew, ws)

end Writer

/-- An act and what came of it. -/
abbrev Deed := Act × Except Failure Unit

/-- Does one thing after the other, whatever comes of each. -/
def Writer.performAll (w : Writer) (ws : Workspace) : List Act → List Deed × Writer × Workspace
  | [] => ([], w, ws)
  | act :: rest =>
    let (result, w, ws) := w.perform ws act
    let (deeds, w, ws) := w.performAll ws rest
    ((act, result) :: deeds, w, ws)

def Act.row? : Act → Option Row
  | .appends r => some r
  | _ => none

/-- The row that was appended. -/
def Deed.row? : Deed → Option Row
  | (act, .ok ()) => act.row?
  | (_, .error _) => none

def appended (deeds : List Deed) : List Row := deeds.filterMap Deed.row?

/-- The file was opened, if only to append. -/
def Deed.Begins (deed : Deed) : Prop := deed.2 = .ok () ∧ (deed.1 = .opens ∨ ∃ r, deed.1 = .appends r)

/-- The file has the header and below it a line for each of the rows. -/
def Written (path : String) (columns : Columns) (ws : Workspace) (rows : List Row) : Prop :=
  ∃ cells, List.Forall₂ (fun r c => r.cells columns = .ok c) rows cells ∧
    ws.Contains path (Csv.writeRows (columns.names :: cells))

/-- The writer is one for this dataset. -/
structure Writer.Serves (w : Writer) (path : String) (columns : Columns) : Prop where
  path : w.path = path
  columns : w.columns = columns

variable {path : String} {columns : Columns} {w w' : Writer} {ws ws' : Workspace} {rows : List Row}
  {result : Except Failure Unit}

/-- The steps of opening a file: its directory is made, a new file gets its header, and the categories are
written beside it unless this fails. -/
def Writer.Opens (w : Writer) (ws ws' : Workspace) : Prop :=
  ∃ made opened,
    ws.makeDirectories (Path.directory (Path.absolute ws.hereText w.path)) = .ok made ∧
    made.appendText w.path (if Writer.startsNew made w.path then Csv.writeRow w.columns.names else "") = .ok opened ∧
    (ws' = opened ∨ opened.writeText w.schemaFile (schemaText w.columns) = .ok ws')

/-- A writer that is open stays as it is; one that is not opens the file or changes nothing. -/
theorem Writer.start_cases (h : w.start ws = (result, w', ws')) :
    (w' = w ∧ ws' = ws ∧ (w.isOpen = false → result ≠ .ok ())) ∨
    (w' = { w with isOpen := true } ∧ w.Opens ws ws') := by
  unfold Writer.start at h
  split at h
  · rename_i hopen
    cases h
    exact .inl ⟨rfl, rfl, fun hclosed => absurd (hopen.symm.trans hclosed) nofun⟩
  · split at h
    · cases h
      exact .inl ⟨rfl, rfl, fun _ => nofun⟩
    · rename_i opened hopened
      obtain ⟨made, hmade, happend⟩ := exists_of_bind_eq_ok hopened
      dsimp only at h
      split at h
      · cases h
        exact .inr ⟨rfl, made, _, hmade, happend, .inl rfl⟩
      · rename_i told htold
        cases h
        exact .inr ⟨rfl, made, opened, hmade, happend, .inr htold⟩

theorem Writer.Serves.start (h : w.Serves path columns) (hstart : w.start ws = (result, w', ws')) :
    w'.Serves path columns := by
  rcases w.start_cases hstart with ⟨rfl, -⟩ | ⟨rfl, -⟩
  · exact h
  · exact ⟨h.path, h.columns⟩

/-- The categories of the columns go somewhere else. -/
theorem contains_of_writeSchema {text schema : String} (h : ws.Contains path text)
    (hwrite : ws.writeText (schemaPath path) schema = .ok ws') : ws'.Contains path text := by
  obtain ⟨place, executable, hplace, hfile⟩ := h
  refine Contains.write_elsewhere ⟨place, executable, hplace, hfile⟩ hwrite ?_
  rw [hplace]
  exact locate_schemaPath_ne hplace

/-- Opening leaves the file as it was, behind the header that a new one gets. -/
theorem Writer.Opens.contains {text : String} (h : w.Opens ws ws')
    (hfile : ∀ made opened, ws.makeDirectories (Path.directory (Path.absolute ws.hereText w.path)) = .ok made →
      made.appendText w.path (if Writer.startsNew made w.path then Csv.writeRow w.columns.names else "") =
        .ok opened → opened.Contains w.path text) : ws'.Contains w.path text := by
  obtain ⟨made, opened, hmade, happend, rfl | hschema⟩ := h
  · exact hfile made _ hmade happend
  · exact contains_of_writeSchema (hfile made opened hmade happend) hschema

/-- A file that has a header gets no other one, whoever opens it. -/
theorem Writer.contains_of_start {header : List String} {lines : List (List String)}
    (h : ws.Contains w.path (Csv.writeRows (header :: lines))) (hstart : w.start ws = (result, w', ws')) :
    ws'.Contains w.path (Csv.writeRows (header :: lines)) := by
  rcases w.start_cases hstart with ⟨-, rfl, -⟩ | ⟨-, hopens⟩
  · exact h
  · refine hopens.contains fun made opened hmade happend => ?_
    have hmade := h.makeDirectories hmade
    have hold : Writer.startsNew made w.path = false := by
      simp only [Writer.startsNew, hmade.read]
      exact Bool.eq_false_iff.2 fun hempty => Csv.writeRows_cons_ne_empty _ _ (String.isEmpty_iff.1 hempty)
    rw [hold] at happend
    simpa using hmade.appendText happend

theorem Written.start (h : Written path columns ws rows) (hw : w.Serves path columns)
    (hstart : w.start ws = (result, w', ws')) : Written path columns ws' rows := by
  obtain ⟨cells, hcells, hfile⟩ := h
  obtain ⟨rfl, rfl⟩ := hw
  exact ⟨cells, hcells, w.contains_of_start hfile hstart⟩

theorem Writer.Serves.append (h : w.Serves path columns) {r : Row}
    (happend : w.appendOpen ws r = (result, w', ws')) : w'.Serves path columns := by
  unfold Writer.appendOpen at happend
  split at happend
  · cases happend
    exact h
  · split at happend <;> cases happend
    · exact h
    · exact ⟨h.path, h.columns⟩

theorem Written.append (h : Written path columns ws rows) (hw : w.Serves path columns) {r : Row}
    (happend : w.appendOpen ws r = (result, w', ws')) :
    Written path columns ws' (rows ++ (Deed.row? (.appends r, result)).toList) := by
  obtain ⟨cells, hcells, hfile⟩ := h
  unfold Writer.appendOpen at happend
  split at happend
  · cases happend
    exact ⟨cells, by simpa [Deed.row?] using hcells, hfile⟩
  · rename_i row hrow
    split at happend
    · cases happend
      exact ⟨cells, by simpa [Deed.row?] using hcells, hfile⟩
    · rename_i grown hgrown
      cases happend
      rw [hw.path] at hgrown
      rw [hw.columns] at hrow
      refine ⟨cells ++ [row], List.rel_append hcells (.cons hrow .nil), ?_⟩
      rw [← List.cons_append, Csv.writeRows_concat]
      exact hfile.appendText hgrown

theorem Deed.row?_eq_none (act : Act) (result : Except Failure Unit) (h : act.row? = none) :
    Deed.row? (act, result) = none := by
  cases result
  · rfl
  · exact h

/-- Each act keeps the file as it has to be, also one that fails. -/
theorem Written.perform (h : Written path columns ws rows) (hw : w.Serves path columns) {act : Act}
    (hact : w.perform ws act = (result, w', ws')) :
    w'.Serves path columns ∧ Written path columns ws' (rows ++ (Deed.row? (act, result)).toList) := by
  cases act with
  | opens =>
    rw [Writer.perform] at hact
    rw [Deed.row?_eq_none .opens _ rfl, Option.toList_none, List.append_nil]
    exact ⟨hw.start hact, h.start hw hact⟩
  | appends r =>
    -- The file is opened first; if this fails, no row is written.
    rw [Writer.perform, Writer.append] at hact
    split at hact
    · rename_i w₁ ws₁ hstart
      exact ⟨(hw.start hstart).append hact, (h.start hw hstart).append (hw.start hstart) hact⟩
    · rename_i hfailed
      cases result with
      | ok => exact (hfailed _ _ hact).elim
      | error e =>
        rw [Deed.row?, Option.toList_none, List.append_nil]
        exact ⟨hw.start hact, h.start hw hact⟩
  | closes =>
    cases hact
    exact ⟨⟨hw.path, hw.columns⟩, by rwa [Deed.row?_eq_none .closes _ rfl, Option.toList_none, List.append_nil]⟩
  | renews =>
    cases hact
    exact ⟨⟨hw.path, hw.columns⟩, by rwa [Deed.row?_eq_none .renews _ rfl, Option.toList_none, List.append_nil]⟩

theorem appended_cons (deed : Deed) (deeds : List Deed) :
    appended (deed :: deeds) = deed.row?.toList ++ appended deeds := by
  rw [appended, List.filterMap_cons]
  cases deed.row? <;> rfl

theorem Deed.row?_of_not_begins {deed : Deed} (h : ¬deed.Begins) : deed.row? = none := by
  obtain ⟨act, result⟩ := deed
  cases result with
  | error e => rfl
  | ok =>
    cases act with
    | appends r => exact (h ⟨rfl, .inr ⟨r, rfl⟩⟩).elim
    | opens | closes | renews => rfl

/-- One act comes after the other. -/
theorem exists_of_performAll_cons {act : Act} {rest : List Act} {deeds : List Deed}
    (h : w.performAll ws (act :: rest) = (deeds, w', ws')) : ∃ result w₁ ws₁ deeds₁,
    w.perform ws act = (result, w₁, ws₁) ∧ w₁.performAll ws₁ rest = (deeds₁, w', ws') ∧
    deeds = (act, result) :: deeds₁ := by
  rcases hact : w.perform ws act with ⟨result, w₁, ws₁⟩
  rcases hrest : w₁.performAll ws₁ rest with ⟨deeds₁, w₂, ws₂⟩
  simp only [Writer.performAll, hact, hrest] at h
  cases h
  exact ⟨result, w₁, ws₁, deeds₁, rfl, hrest, rfl⟩

theorem Written.performAll (h : Written path columns ws rows) (hw : w.Serves path columns) {acts : List Act}
    {deeds : List Deed} (hrun : w.performAll ws acts = (deeds, w', ws')) :
    Written path columns ws' (rows ++ appended deeds) := by
  induction acts generalizing w ws rows deeds with
  | nil =>
    cases hrun
    simpa [appended] using h
  | cons act rest ih =>
    obtain ⟨result, w₁, ws₁, deeds₁, hact, hrest, rfl⟩ := exists_of_performAll_cons hrun
    obtain ⟨hw₁, hwritten⟩ := h.perform hw hact
    rw [appended_cons, ← List.append_assoc]
    exact ih hwritten hw₁ hrest

section Beginning

variable (hws : ws.IsTree) (hnew : ∀ bytes, ws.read path = .ok bytes → bytes = ByteArray.empty)
include hws hnew

/-- A file with nothing in it gets the header. -/
theorem written_of_opens (hw : w.Serves path columns) (h : w.Opens ws ws') : Written path columns ws' [] := by
  obtain ⟨rfl, rfl⟩ := hw
  refine ⟨[], .nil, h.contains fun made opened hmade happend => ?_⟩
  have hnothing (bytes : ByteArray) (hread : made.read w.path = .ok bytes) : bytes = ByteArray.empty :=
    hnew bytes (hws.eq_of_makeDirectories hmade hread ▸ hread)
  have hheader : Writer.startsNew made w.path = true := by
    unfold Writer.startsNew
    cases hread : made.read w.path with
    | ok bytes => rw [hnothing bytes hread]; rfl
    | error fault =>
      rw [Workspace.appendText, Workspace.append, hread] at happend
      simp [Workspace.notFound_of_write happend hread]
  rw [hheader, if_pos rfl] at happend
  rw [Csv.writeRows_cons]
  simpa [Csv.writeRows] using Workspace.contains_of_appendText happend hnothing

/-- The first act that opens the file writes the header; before it nothing changes. -/
theorem perform_first (hw : w.Serves path columns) (hclosed : w.isOpen = false) {act : Act}
    (hact : w.perform ws act = (result, w', ws')) : w'.Serves path columns ∧
    (Written path columns ws' (Deed.row? (act, result)).toList ∨
      w'.isOpen = false ∧ ws' = ws ∧ ¬Deed.Begins (act, result)) := by
  cases act with
  | opens =>
    rw [Writer.perform] at hact
    refine ⟨hw.start hact, ?_⟩
    rcases w.start_cases hact with ⟨rfl, rfl, hfailed⟩ | ⟨-, hopens⟩
    · exact .inr ⟨hclosed, rfl, fun hbegins => hfailed hclosed hbegins.1⟩
    · rw [Deed.row?_eq_none .opens _ rfl]
      exact .inl (written_of_opens hws hnew hw hopens)
  | appends r =>
    rw [Writer.perform, Writer.append] at hact
    split at hact
    · rename_i w₁ ws₁ hstart
      have hwritten : Written path columns ws₁ [] := by
        rcases w.start_cases hstart with ⟨-, -, hfailed⟩ | ⟨-, hopens⟩
        · exact (hfailed hclosed rfl).elim
        · exact written_of_opens hws hnew hw hopens
      exact ⟨(hw.start hstart).append hact, .inl (hwritten.append (hw.start hstart) hact)⟩
    · rename_i hfailed
      refine ⟨hw.start hact, ?_⟩
      cases result with
      | ok => exact (hfailed _ _ hact).elim
      | error e =>
        rcases w.start_cases hact with ⟨rfl, rfl, -⟩ | ⟨-, hopens⟩
        · exact .inr ⟨hclosed, rfl, fun hbegins => absurd hbegins.1 (by simp)⟩
        · exact .inl (written_of_opens hws hnew hw hopens)
  | closes =>
    cases hact
    exact ⟨⟨hw.path, hw.columns⟩, .inr ⟨rfl, rfl, fun hbegins => by simp [Deed.Begins] at hbegins⟩⟩
  | renews =>
    cases hact
    exact ⟨⟨hw.path, hw.columns⟩, .inr ⟨rfl, rfl, fun hbegins => by simp [Deed.Begins] at hbegins⟩⟩

/-- By induction on the acts: up to the first one that opens the file there is nothing to keep, and from
then on the file is kept as it has to be. -/
theorem written_of_performAll (hw : w.Serves path columns) (hclosed : w.isOpen = false) {acts : List Act}
    {deeds : List Deed} (hrun : w.performAll ws acts = (deeds, w', ws'))
    (hbegun : ∃ deed ∈ deeds, deed.Begins) : Written path columns ws' (appended deeds) := by
  induction acts generalizing w deeds with
  | nil =>
    cases hrun
    obtain ⟨deed, hdeed, -⟩ := hbegun
    cases hdeed
  | cons act rest ih =>
    obtain ⟨result, w₁, ws₁, deeds₁, hact, hrest, rfl⟩ := exists_of_performAll_cons hrun
    obtain ⟨hw₁, hwritten | ⟨hclosed₁, rfl, hnone⟩⟩ := perform_first hws hnew hw hclosed hact
    · rw [appended_cons]
      exact hwritten.performAll hw₁ hrest
    · obtain ⟨deed, hdeed, hbegins⟩ := hbegun
      have hlater : deed ∈ deeds₁ := (List.mem_cons.1 hdeed).resolve_left fun h => hnone (h ▸ hbegins)
      rw [appended_cons, Deed.row?_of_not_begins hnone]
      exact ih hw₁ hclosed₁ hrest ⟨deed, hlater, hbegins⟩

end Beginning

end Acts

section Session

/-- What comes later starts from where the first acts have led. -/
theorem performAll_append (w : Writer) (ws : Workspace) (acts more : List Act) :
    (w.performAll ws (acts ++ more)).2 =
      ((w.performAll ws acts).2.1.performAll (w.performAll ws acts).2.2 more).2 := by
  induction acts generalizing w ws with
  | nil => rfl
  | cons act rest ih =>
    simp only [List.cons_append, Writer.performAll]
    exact ih _ _

/-- Rows are appended up to the first one that fails. -/
theorem exists_performAll_appendAllOpen (w : Writer) (ws : Workspace) (rows : List Row) :
    ∃ n, (w.performAll ws ((rows.take n).map .appends)).2 = (w.appendAllOpen ws rows).2 := by
  induction rows generalizing w ws with
  | nil => exact ⟨0, rfl⟩
  | cons r rest ih =>
    rcases happend : w.append ws r with ⟨e | ⟨⟩, w₁, ws₁⟩
    · exact ⟨1, by simp only [List.take_succ_cons, List.take_zero, List.map_cons, List.map_nil,
        Writer.performAll, Writer.perform, Writer.appendAllOpen, happend]⟩
    · obtain ⟨n, hn⟩ := ih w₁ ws₁
      refine ⟨n + 1, ?_⟩
      simp only [List.take_succ_cons, List.map_cons, Writer.performAll, Writer.perform,
        Writer.appendAllOpen, happend]
      exact hn

/-- A session is made of acts, so what holds of these holds of sessions too. -/
theorem exists_performAll_session (w : Writer) (ws : Workspace) (rows : List Row) :
    ∃ acts, (w.performAll ws acts).2 = (w.session ws rows).2 := by
  rcases hstart : w.start ws with ⟨e | ⟨⟩, w₁, ws₁⟩
  · exact ⟨[.opens], by simp only [Writer.performAll, Writer.perform, Writer.session, hstart]⟩
  · obtain ⟨n, hn⟩ := exists_performAll_appendAllOpen w₁ ws₁ rows
    refine ⟨.opens :: ((rows.take n).map .appends ++ [.closes]), ?_⟩
    simp only [Writer.performAll, Writer.perform, Writer.session, hstart, performAll_append, hn]

end Session

section Room

variable {L : Layout} {w : Writer} {ws : Workspace}

/-- Where there is room for the dataset, no act fails, and there still is room after it. -/
theorem exists_performAll_keeps (h : L.Carries w ws) (hws : L.Fits ws) {acts : List Act}
    (hrows : ∀ r ∈ acts.filterMap Act.row?, r.IsOrdinary) :
    ∃ w' ws', w.performAll ws acts = (acts.map fun act => (act, .ok ()), w', ws') ∧ L.Keeps ws ws' := by
  induction acts generalizing w ws with
  | nil => exact ⟨w, ws, rfl, .refl hws⟩
  | cons act rest ih =>
    have hact : ∃ w₁ ws₁, w.perform ws act = (.ok (), w₁, ws₁) ∧ L.Keeps ws ws₁ ∧ L.Carries w₁ ws₁ := by
      cases act with
      | opens =>
        obtain ⟨w₁, ws₁, hstart, hkeep, hpath, hopen⟩ := h.start hws
        exact ⟨w₁, ws₁, hstart, hkeep, hpath ▸ h.takes, fun _ => hpath ▸ hopen⟩
      | appends r => exact h.append hws (hrows r (by simp [Act.row?]))
      | closes => exact ⟨w.close, ws, rfl, .refl hws, h.takes, nofun⟩
      | renews => exact ⟨w.renew, ws, rfl, .refl hws, h.takes, nofun⟩
    obtain ⟨w₁, ws₁, hact, hkeep, hcarries⟩ := hact
    have hlater : ∀ r ∈ rest.filterMap Act.row?, r.IsOrdinary := by
      intro r hr
      obtain ⟨act', hact', hrow⟩ := List.mem_filterMap.1 hr
      exact hrows r (List.mem_filterMap.2 ⟨act', .tail _ hact', hrow⟩)
    obtain ⟨w', ws', hrest, hkeep'⟩ := ih hcarries hkeep.fits hlater
    exact ⟨w', ws', by simp only [Writer.performAll, hact, hrest, List.map_cons], hkeep.trans hkeep'⟩

theorem appended_of_ok (acts : List Act) :
    appended (acts.map fun act => (act, .ok ())) = acts.filterMap Act.row? := by
  rw [appended, List.filterMap_map]
  rfl

end Room

section Reading

/-- No name of a column and no cell of a row is longer than what is read. -/
structure WithinLimit (columns : Columns) (rows : List Row) : Prop where
  names : ∀ name ∈ columns.names, name.length ≤ Csv.fieldLimit
  cells : ∀ r ∈ rows, ∀ cells, r.cells columns = .ok cells → ∀ cell ∈ cells, cell.length ≤ Csv.fieldLimit

theorem WithinLimit.of_cells {columns : Columns} {rows : List Row}
    (hnames : ∀ name ∈ columns.names, name.length ≤ Csv.fieldLimit)
    (h : ∀ r ∈ rows, ∃ cells, r.cells columns = .ok cells ∧ ∀ cell ∈ cells, cell.length ≤ Csv.fieldLimit) :
    WithinLimit columns rows := by
  refine ⟨hnames, fun r hr cells hcells => ?_⟩
  obtain ⟨cells', hcells', hshort⟩ := h r hr
  rwa [Except.ok.inj (hcells.symm.trans hcells')]

/-- Just these rows are read, in this order; the lines of the file are the header and one for each row. -/
structure ReadsBack (path : String) (columns : Columns) (ws : Workspace) (rows : List Row) : Prop where
  lines : ∃ (text : String) (cells : List (List String)), ws.read path = .ok text.toUTF8 ∧
    Csv.read text.toList = columns.names :: cells ∧
    List.Forall₂ (fun r c => r.cells columns = .ok c) rows cells
  found : ∃ found, Dataset.read ws path = .ok found ∧ List.Forall₂ (ReadAs columns) rows found

variable {path : String} {columns : Columns} {ws : Workspace} {rows : List Row} {cells : List (List String)}

/-- What holds of the cells of every row holds of all lines. -/
theorem forall_of_cells {p : List String → Prop}
    (hcells : List.Forall₂ (fun r c => Row.cells r columns = .ok c) rows cells)
    (h : ∀ r ∈ rows, ∀ c, Row.cells r columns = .ok c → p c) : ∀ c ∈ cells, p c := by
  induction hcells with
  | nil => exact nofun
  | cons hr hrest ih =>
    obtain ⟨hfirst, hlater⟩ := List.forall_mem_cons.1 h
    exact List.forall_mem_cons.2 ⟨hfirst _ hr, ih hlater⟩

theorem Written.readsBack (h : Written path columns ws rows) (hlimit : WithinLimit columns rows) :
    ReadsBack path columns ws rows := by
  obtain ⟨cells, hcells, hfile⟩ := h
  have hlegible : ∀ row ∈ cells, Csv.Legible row := forall_of_cells hcells fun _ _ _ => Row.legible_cells
  have hshort : Csv.withinLimit (columns.names :: cells) = true := by
    simpa [Csv.withinLimit] using ⟨hlimit.names, forall_of_cells hcells hlimit.cells⟩
  have hlines : Csv.read (Csv.writeRows (columns.names :: cells)).toList = columns.names :: cells :=
    Csv.read_writeRows (List.forall_mem_cons.2 ⟨columns.legible_names, hlegible⟩)
  have hfound : Dataset.read ws path = .ok (cells.map (byColumn columns.names)) := by
    have hkept : cells.filter (!·.isEmpty) = cells :=
      List.filter_eq_self.2 fun row hrow => by simpa using (hlegible row hrow).1
    simp only [Dataset.read, hfile.read, Except.mapError, bind, Except.bind,
      Text.fromUTF8?_toUTF8, hlines, hshort, if_true, byHeader, hkept]
    rfl
  refine ⟨⟨_, cells, hfile.read, hlines, hcells⟩, _, hfound, ?_⟩
  rw [List.forall₂_map_right_iff]
  exact hcells.imp fun _ _ hr => readAs_byColumn hr

end Reading

/-- Whatever was done to a dataset from when its file was missing or empty, the rows that were appended are
read back, once the file was opened. -/
theorem performAll_readsBack (w : Writer) (ws : Workspace) (acts : List Act) (hclosed : w.isOpen = false)
    (hws : ws.IsTree) (hnew : ∀ bytes, ws.read w.path = .ok bytes → bytes = ByteArray.empty)
    (hbegun : ∃ deed ∈ (w.performAll ws acts).1, deed.Begins)
    (hlimit : WithinLimit w.columns (appended (w.performAll ws acts).1)) :
    ReadsBack w.path w.columns (w.performAll ws acts).2.2 (appended (w.performAll ws acts).1) := by
  have hwritten : Written w.path w.columns (w.performAll ws acts).2.2 (appended (w.performAll ws acts).1) :=
    written_of_performAll hws hnew ⟨rfl, rfl⟩ hclosed rfl hbegun
  exact hwritten.readsBack hlimit

section Sample

/-- Files at the root, and nothing else. -/
def rootLayout : Layout where
  here := []
  purpose
    | [] => some .directory
    | [_] => some .data
    | _ => none
  root := rfl
  start := rfl

theorem empty_fits : rootLayout.Fits (Workspace.empty []) := by
  constructor
  case here => rfl
  case root => rfl
  case start => rfl
  case admits =>
    intro p u hp
    by_cases hroot : p = []
    · subst hroot
      obtain rfl : Purpose.directory = u := Option.some.inj hp
      rfl
    · have hnone : (Workspace.empty []).entries.get? p = none := by
        simp [Workspace.empty, Keyed.get?, Ne.symm hroot]
      rw [hnone]
      cases u <;> trivial

theorem empty_isTree : (Workspace.empty []).IsTree := by
  constructor
  case names => exact nofun
  case parents =>
    intro p part e h
    simp [Workspace.empty, Keyed.get?] at h

def sampleWriter : Writer := { path := "/data.csv", columns := { input := ["IL,Size"], estimate := [] } }

/-- Every file at the root has room. -/
theorem rootLayout_hasFile (name : String) (hslash : '/' ∉ name.toList) (hnull : '\x00' ∉ name.toList)
    (hlong : 2 < name.length) (hshort : name.utf8ByteSize ≤ Workspace.maxNameBytes) :
    rootLayout.HasFile "/" ("/" ++ name) := by
  have hstart (path : String) : rootLayout.startOf path = [] := ite_self _
  refine ⟨[""], name, ?_, hshort⟩
  constructor
  case named => simp [hnull]
  case nonempty => simp
  case file =>
    rw [Bool.eq_false_iff]
    intro hend
    have hlast := Text.endsWith_slash_iff.1 hend
    rw [String.toList_append, List.getLast?_append] at hlast
    cases hname : name.toList.getLast? with
    | none =>
      rw [String.toList_eq_nil_iff.1 (List.getLast?_eq_none_iff.1 hname)] at hlong
      exact absurd hlong (by decide)
    | some c =>
      rw [hname] at hlast
      obtain rfl : c = '/' := Option.some.inj hlast
      exact hslash (List.mem_of_getLast? hname)
  case cut =>
    have hjoin := Text.splitOn_join "" name
    rwa [String.empty_append, Text.splitOn_of_not_mem (s := "") nofun, Text.splitOn_of_not_mem hslash] at hjoin
  case short => decide
  case within =>
    rw [hstart, Layout.way, hstart, Text.splitOn_slash]
    exact fun p hp => .head _ |> (List.mem_singleton.1 hp ▸ ·)
  case purpose =>
    rw [hstart, List.foldl_cons, List.foldl_nil, Workspace.next_of_long hlong]
    rfl

theorem rootLayout_takesTable : rootLayout.TakesTable sampleWriter.path := by
  have hdir : rootLayout.tableDirectory sampleWriter.path = "/" := by
    have hjoin : Path.join rootLayout.hereText "/data.csv" = "/data.csv" :=
      if_pos (Text.startsWith_slash_iff.2 rfl)
    have hnormal : Path.normalize "/data.csv" = "/data.csv" := by
      rw [Path.normalize, Text.splitOn_slash]
      decide
    rw [Layout.tableDirectory, Path.absolute, sampleWriter, hjoin, hnormal]
    decide
  have hparts : "/".splitOn "/" = ["", ""] := by
    rw [Text.splitOn_slash]
    decide
  have hstart : rootLayout.startOf "/" = [] := ite_self _
  have hpath : sampleWriter.path = "/" ++ "data.csv" := by decide
  have hschema : schemaPath sampleWriter.path = "/" ++ "data.schema.json" := by decide
  constructor
  case makes =>
    rw [hdir]
    constructor
    case named => decide
    case nonempty => decide
    case short =>
      rw [hparts]
      decide
    case directories =>
      rw [Layout.way, hparts, hstart]
      intro p hp
      have hall : ∀ q ∈ [[], []], rootLayout.purpose q = some .directory := by simp [rootLayout]
      exact hall p hp
  case rows =>
    rw [hdir, hpath]
    exact rootLayout_hasFile "data.csv" (by decide) (by decide) (by decide) (by decide)
  case schema =>
    rw [hdir, hschema]
    exact rootLayout_hasFile "data.schema.json" (by decide) (by decide) (by decide) (by decide)

/-- A row whose texts have commas, quotes, line ends and blanks in them. -/
def spikyRow : Row where
  benchmark := "say \"hi\",\r\nbye"
  root := ⟨1, 2⟩
  decision :=
    { above := [], site := ⟨4, 200⟩, reason := " \r", features := [("IL,Size", .text "\n"), ("More", .text "x")] }

/-- A row with hardly anything in it. -/
def bareRow : Row where
  benchmark := ""
  root := ⟨1, 2⟩
  decision := { above := [], site := ⟨4, 300⟩ }

def sampleActs : List Act :=
  [.opens, .appends spikyRow, .closes, .appends bareRow, .renews, .opens, .appends spikyRow]

theorem performAll_sample : ∃ w' ws', sampleWriter.performAll (Workspace.empty []) sampleActs =
    (sampleActs.map fun act => (act, .ok ()), w', ws') := by
  have hcarries : rootLayout.Carries sampleWriter (Workspace.empty []) := ⟨rootLayout_takesTable, nofun⟩
  have hrows : ∀ r ∈ sampleActs.filterMap Act.row?, r.IsOrdinary := by
    intro r hr est hest
    have hrow : r ∈ [spikyRow, bareRow, spikyRow] := hr
    have hmissing : r.estimate = none := by
      rcases List.mem_cons.1 hrow with rfl | hrow
      · rfl
      · rcases List.mem_cons.1 hrow with rfl | hrow
        · rfl
        · obtain rfl := List.mem_singleton.1 hrow
          rfl
    exact absurd (hmissing.symm.trans hest) nofun
  obtain ⟨w', ws', hrun, -⟩ := exists_performAll_keeps hcarries empty_fits hrows
  exact ⟨w', ws', hrun⟩

theorem sample_withinLimit : WithinLimit sampleWriter.columns [spikyRow, bareRow, spikyRow] := by
  have hspiky : ∃ cells, spikyRow.cells sampleWriter.columns = .ok cells ∧
      ∀ cell ∈ cells, cell.length ≤ Csv.fieldLimit := ⟨_, rfl, by decide⟩
  have hbare : ∃ cells, bareRow.cells sampleWriter.columns = .ok cells ∧
      ∀ cell ∈ cells, cell.length ≤ Csv.fieldLimit := ⟨_, rfl, by decide⟩
  exact .of_cells (by decide) (List.forall_mem_cons.2 ⟨hspiky, List.forall_mem_cons.2 ⟨hbare,
    List.forall_mem_singleton.2 hspiky⟩⟩)

/-- The rows of three sittings are read back. -/
theorem performAll_readsBack_sample :
    let done := sampleWriter.performAll (Workspace.empty []) sampleActs
    appended done.1 = [spikyRow, bareRow, spikyRow] ∧
      ReadsBack "/data.csv" sampleWriter.columns done.2.2 [spikyRow, bareRow, spikyRow] := by
  obtain ⟨w', ws', hrun⟩ := performAll_sample
  have hrows : appended (sampleWriter.performAll (Workspace.empty []) sampleActs).1 =
      [spikyRow, bareRow, spikyRow] := by
    rw [hrun, appended_of_ok]
    rfl
  have hnew (bytes : ByteArray) (hread : (Workspace.empty []).read sampleWriter.path = .ok bytes) :
      bytes = ByteArray.empty := by
    obtain ⟨place, executable, -, hfile⟩ := Workspace.exists_place_of_read hread
    simp [Workspace.empty, Keyed.get?] at hfile
  have hbegun : ∃ deed ∈ (sampleWriter.performAll (Workspace.empty []) sampleActs).1, deed.Begins := by
    rw [hrun]
    exact ⟨(.opens, .ok ()), .head _, rfl, .inl rfl⟩
  have hback := performAll_readsBack sampleWriter (Workspace.empty []) sampleActs rfl empty_isTree hnew hbegun
    (hrows ▸ sample_withinLimit)
  rw [hrows] at hback
  exact ⟨hrows, hback⟩

end Sample

end InlineImpact.Dataset
