import InlineImpact.Proofs.Dataset.RoundTrip
import InlineImpact.Proofs.Json.RoundTrip

/-!
Several sessions with one dataset, each with columns of its own. The header is that of the first session and stays;
the file beside the dataset is that of the last one; each row is laid out as its own session has it. The three are
in step just as long as all sessions have the same columns.
-/
namespace InlineImpact.Dataset

open Workspace (Contains contains_of_write)

section Told

/-- The names of the columns that the file beside a dataset tells, in their order. -/
def toldNames (ws : Workspace) (path : String) : Option (List String) :=
  match ws.read (schemaPath path) with
  | .error _ => none
  | .ok bytes => (String.fromUTF8? bytes).bind fun text =>
    match Json.read text.toList with
    | .ok (.object fields) => some (fields.map Prod.fst)
    | _ => none

/-- The lines of the table, the header first. -/
def tableLines (ws : Workspace) (path : String) : Option (List (List String)) :=
  match ws.read path with
  | .error _ => none
  | .ok bytes => (String.fromUTF8? bytes).map fun text => Csv.read text.toList

variable {ws : Workspace} {path : String}

/-- The categories are read back with the names of the columns. -/
theorem read_schemaText (columns : Columns) : Json.read (schemaText columns).toList =
    .ok (.object (columns.schema.map fun (n, c) => (n, .string c.text))) := by
  have htexts : (columns.schema.map fun (n, c) => (n, Json.string c.text)) =
      Json.ofTexts (columns.schema.map fun (n, c) => (n, c.text)) := by
    rw [Json.ofTexts, List.map_map]
    rfl
  rw [schemaText, htexts]
  exact Json.read_write Json.indented_blank _

theorem toldNames_of_contains {columns : Columns} (h : ws.Contains (schemaPath path) (schemaText columns)) :
    toldNames ws path = some columns.names := by
  have hnames : (columns.schema.map fun (n, c) => (n, Json.string c.text)).map Prod.fst = columns.names := by
    rw [Columns.schema, List.map_map, List.map_map]
    exact List.map_id _
  simp only [toldNames, h.read, Text.fromUTF8?_toUTF8, Option.bind_some, read_schemaText, hnames]

theorem tableLines_of_contains {rows : List (List String)} (h : ws.Contains path (Csv.writeRows rows))
    (hlegible : ∀ row ∈ rows, Csv.Legible row) : tableLines ws path = some rows := by
  simp only [tableLines, h.read, Text.fromUTF8?_toUTF8, Option.map_some, Csv.read_writeRows hlegible]

end Told

section Session

/-- What is done in a session, with a writer that has columns of its own. -/
structure Session where
  columns : Columns
  acts : List Act

/-- A row, with the columns of the session that appended it. -/
abbrev Entry := Columns × Row

/-- One session after the other. What came of the acts is told for each. -/
def holdAll (path : String) (ws : Workspace) : List Session → List (Columns × List Deed) × Workspace
  | [] => ([], ws)
  | s :: rest =>
    let (deeds, _, ws) := Writer.performAll { path, columns := s.columns } ws s.acts
    let (held, ws) := holdAll path ws rest
    ((s.columns, deeds) :: held, ws)

/-- The act is about the file, which has to be open for it. -/
def Act.opensFile : Act → Bool
  | .opens | .appends _ => true
  | .closes | .renews => false

/-- The columns of the writer, once for each act that is about the file. -/
def openings (columns : Columns) (deeds : List Deed) : List Columns :=
  (deeds.filter (·.1.opensFile)).map fun _ => columns

/-- The rows that were appended, in their order. -/
def entries (columns : Columns) (deeds : List Deed) : List Entry := (appended deeds).map (columns, ·)

/-- The same for a sequence of sessions. -/
def allOpenings (held : List (Columns × List Deed)) : List Columns := held.flatMap fun p => openings p.1 p.2

def allEntries (held : List (Columns × List Deed)) : List Entry := held.flatMap fun p => entries p.1 p.2

/-- No act failed for the storage. -/
def Stored (deeds : List Deed) : Prop := ∀ deed ∈ deeds, ∀ fault, deed.2 ≠ .error (.storage fault)

end Session

section Kept

/-- What is kept of the sessions so far. Until the file is opened for the first time, nothing is in it. -/
inductive Kept (path : String) (ws : Workspace) : List Columns → List Entry → Prop where
  | nothing (tree : ws.IsTree) (fresh : ∀ bytes, ws.read path = .ok bytes → bytes = ByteArray.empty) :
    Kept path ws [] []
  | table {opened : List Columns} {rows : List Entry} {first last : Columns} {lines : List (List String)}
    (head : opened.head? = some first) (latest : opened.getLast? = some last)
    (cells : List.Forall₂ (fun p line => p.2.cells p.1 = .ok line) rows lines)
    (file : ws.Contains path (Csv.writeRows (first.names :: lines)))
    (beside : ws.Contains (schemaPath path) (schemaText last)) : Kept path ws opened rows

variable {path : String} {columns : Columns} {w w' : Writer} {ws ws' : Workspace} {opened : List Columns}
  {rows : List Entry} {result : Except Failure Unit}

/-- A writer that opens the file writes the categories last. -/
theorem Writer.exists_of_start (h : w.start ws = (.ok (), w', ws')) (hclosed : w.isOpen = false) :
    w' = { w with isOpen := true } ∧ w.Opens ws ws' ∧
      ∃ opened : Workspace, opened.writeText (schemaPath w.path) (schemaText w.columns) = .ok ws' := by
  unfold Writer.start at h
  rw [if_neg (by simp [hclosed])] at h
  split at h
  · cases h
  · rename_i headed hheaded
    obtain ⟨made, hmade, happend⟩ := exists_of_bind_eq_ok hheaded
    dsimp only at h
    split at h
    · cases h
    · rename_i told htold
      cases h
      exact ⟨rfl, ⟨made, headed, hmade, happend, .inr htold⟩, headed, htold⟩

/-- Opening fails for the storage only. -/
theorem Writer.storage_of_start {e : Failure} (h : w.start ws = (.error e, w', ws')) : ∃ fault, e = .storage fault := by
  unfold Writer.start at h
  split at h
  · cases h
  · split at h
    · rename_i fault _
      cases h
      exact ⟨fault, rfl⟩
    · dsimp only at h
      split at h
      · rename_i fault _
        cases h
        exact ⟨fault, rfl⟩
      · cases h

/-- A row is added to the file or nothing is changed. -/
theorem Writer.appendOpen_cases {r : Row} (h : w.appendOpen ws r = (result, w', ws')) :
    (∃ e, result = .error e ∧ w' = w ∧ ws' = ws) ∨
    ∃ line, result = .ok () ∧ r.cells w.columns = .ok line ∧
      ws.appendText w.path (Csv.writeRow line) = .ok ws' ∧ w'.isOpen = w.isOpen := by
  unfold Writer.appendOpen at h
  split at h
  · cases h
    exact .inl ⟨_, rfl, rfl, rfl⟩
  · rename_i line hline
    split at h <;> cases h
    · exact .inl ⟨_, rfl, rfl, rfl⟩
    · exact .inr ⟨line, rfl, hline, ‹_›, rfl⟩

/-- What is added to the table does not go to the file beside it. -/
theorem contains_of_appendTable {schema line : String} (h : ws.Contains (schemaPath path) schema)
    (happend : ws.appendText path line = .ok ws') : ws'.Contains (schemaPath path) schema := by
  have hwrite : ∃ content, ws.write path content = .ok ws' := by
    unfold Workspace.appendText Workspace.append at happend
    split at happend <;> exact ⟨_, happend⟩
  obtain ⟨content, hwrite⟩ := hwrite
  refine h.write_elsewhere hwrite fun hsame => ?_
  obtain ⟨place, -, hplace, -⟩ := Workspace.exists_place_of_write hwrite
  exact locate_schemaPath_ne hplace (hsame.symm.trans hplace)

theorem head?_concat_of_head? {first : Columns} (h : opened.head? = some first) (c : Columns) :
    (opened ++ [c]).head? = some first := by
  rw [List.head?_append, h, Option.some_or]

/-- Once a writer has opened the file, the file beside it has its columns. -/
theorem Kept.start (h : Kept path ws opened rows) (hw : w.Serves path columns)
    (hopen : w.isOpen = true → opened.getLast? = some columns) (hstart : w.start ws = (.ok (), w', ws')) :
    Kept path ws' (opened ++ [columns]) rows := by
  obtain ⟨rfl, rfl⟩ := hw
  cases hclosed : w.isOpen with
  | true =>
    have hsame : ws' = ws := by
      unfold Writer.start at hstart
      rw [if_pos hclosed] at hstart
      cases hstart
      rfl
    cases h with
    | nothing => exact absurd (hopen hclosed) nofun
    | table head latest cells file beside =>
      rw [hopen hclosed] at latest
      obtain rfl := Option.some.inj latest
      rw [hsame]
      exact .table (head?_concat_of_head? head _) List.getLast?_concat cells file beside
  | false =>
    obtain ⟨-, hopens, headed, htold⟩ := w.exists_of_start hstart hclosed
    have hbeside : ws'.Contains (schemaPath w.path) (schemaText w.columns) := contains_of_write htold
    cases h with
    | nothing tree fresh =>
      obtain ⟨lines, hlines, hfile⟩ := written_of_opens tree fresh ⟨rfl, rfl⟩ hopens
      cases hlines
      exact .table rfl rfl .nil hfile hbeside
    | table head latest cells file beside =>
      exact .table (head?_concat_of_head? head _) List.getLast?_concat cells (w.contains_of_start file hstart) hbeside

/-- A row goes behind those that are there, laid out as its writer has it. -/
theorem Kept.append (h : Kept path ws opened rows) (hw : w.Serves path columns)
    (hlatest : opened.getLast? = some columns) {r : Row} (happend : w.appendOpen ws r = (result, w', ws')) :
    Kept path ws' opened (rows ++ entries columns [(.appends r, result)]) := by
  obtain ⟨rfl, rfl⟩ := hw
  rcases w.appendOpen_cases happend with ⟨e, rfl, rfl, rfl⟩ | ⟨line, rfl, hline, happended, -⟩
  · rwa [show entries w'.columns [(.appends r, .error e)] = [] from rfl, List.append_nil]
  · cases h with
    | nothing => cases hlatest
    | table head latest cells file beside =>
      refine .table head latest (List.rel_append cells (.cons hline .nil)) ?_ (contains_of_appendTable beside happended)
      rw [← List.cons_append, Csv.writeRows_concat]
      exact file.appendText happended

/-- Where a session is: its writer is one for the dataset, and when this is open the last columns are its own. -/
structure Writer.Holds (w : Writer) (path : String) (columns : Columns) (opened : List Columns) : Prop where
  serves : w.Serves path columns
  latest : w.isOpen = true → opened.getLast? = some columns

theorem entries_of_row?_eq_none {act : Act} (h : act.row? = none) (result : Except Failure Unit) :
    entries columns [(act, result)] = [] := by
  rw [entries, appended, List.filterMap_cons, Deed.row?_eq_none act result h]
  rfl

/-- Each act keeps what has to be kept, as long as it does not fail for the storage. -/
theorem Kept.perform (h : Kept path ws opened rows) (hw : w.Holds path columns opened) {act : Act}
    (hact : w.perform ws act = (result, w', ws')) (hstored : Stored [(act, result)]) :
    w'.Holds path columns (opened ++ openings columns [(act, result)]) ∧
      Kept path ws' (opened ++ openings columns [(act, result)]) (rows ++ entries columns [(act, result)]) := by
  have hstarted {w₁ : Writer} {ws₁ : Workspace} (hstart : w.start ws = (.ok (), w₁, ws₁)) :
      w₁.Serves path columns ∧ Kept path ws₁ (opened ++ [columns]) rows :=
    ⟨hw.serves.start hstart, h.start hw.serves hw.latest hstart⟩
  have hsafe {w₁ : Writer} {ws₁ : Workspace} {e : Failure} (hstart : w.start ws = (.error e, w₁, ws₁))
      (hresult : result = .error e) : False := by
    obtain ⟨fault, rfl⟩ := w.storage_of_start hstart
    exact hstored _ (.head _) fault hresult
  cases act with
  | opens =>
    rw [Writer.perform] at hact
    cases result with
    | error e => exact (hsafe hact rfl).elim
    | ok =>
      obtain ⟨hserves, hkept⟩ := hstarted hact
      rw [entries_of_row?_eq_none rfl, List.append_nil]
      exact ⟨⟨hserves, fun _ => List.getLast?_concat⟩, hkept⟩
  | appends r =>
    rw [Writer.perform, Writer.append] at hact
    split at hact
    · rename_i w₁ ws₁ hstart
      obtain ⟨hserves, hkept⟩ := hstarted hstart
      exact ⟨⟨hserves.append hact, fun _ => List.getLast?_concat⟩, hkept.append hserves List.getLast?_concat hact⟩
    · rename_i hfailed
      cases result with
      | ok => exact (hfailed _ _ hact).elim
      | error e => exact (hsafe hact rfl).elim
  | closes =>
    cases hact
    rw [entries_of_row?_eq_none rfl, List.append_nil, show openings columns _ = [] from rfl, List.append_nil]
    exact ⟨⟨⟨hw.serves.path, hw.serves.columns⟩, fun hopen => (Bool.false_ne_true hopen).elim⟩, h⟩
  | renews =>
    cases hact
    rw [entries_of_row?_eq_none rfl, List.append_nil, show openings columns _ = [] from rfl, List.append_nil]
    exact ⟨⟨⟨hw.serves.path, hw.serves.columns⟩, fun hopen => (Bool.false_ne_true hopen).elim⟩, h⟩

theorem openings_cons (deed : Deed) (deeds : List Deed) :
    openings columns (deed :: deeds) = openings columns [deed] ++ openings columns deeds := by
  rw [openings, openings, openings, ← List.map_append, ← List.filter_append, List.singleton_append]

theorem entries_cons (deed : Deed) (deeds : List Deed) :
    entries columns (deed :: deeds) = entries columns [deed] ++ entries columns deeds := by
  rw [entries, entries, entries, ← List.map_append, appended, appended, appended, ← List.filterMap_append,
    List.singleton_append]

/-- By induction on the acts of a session. -/
theorem Kept.performAll (h : Kept path ws opened rows) (hw : w.Holds path columns opened) {acts : List Act}
    {deeds : List Deed} (hrun : w.performAll ws acts = (deeds, w', ws')) (hstored : Stored deeds) :
    Kept path ws' (opened ++ openings columns deeds) (rows ++ entries columns deeds) := by
  induction acts generalizing w ws opened rows deeds with
  | nil =>
    cases hrun
    simpa [openings, entries, appended] using h
  | cons act rest ih =>
    obtain ⟨result, w₁, ws₁, deeds₁, hact, hrest, rfl⟩ := exists_of_performAll_cons hrun
    obtain ⟨hfirst, hlater⟩ := List.forall_mem_cons.1 hstored
    obtain ⟨hw₁, hkept⟩ := h.perform hw hact (List.forall_mem_singleton.2 hfirst)
    rw [openings_cons, entries_cons, ← List.append_assoc, ← List.append_assoc]
    exact ih hkept hw₁ hrest hlater

/-- By induction on the sessions, each with a writer that is not open yet. -/
theorem Kept.holdAll (h : Kept path ws opened rows) (sessions : List Session)
    (hstored : ∀ p ∈ (Dataset.holdAll path ws sessions).1, Stored p.2) :
    Kept path (Dataset.holdAll path ws sessions).2 (opened ++ allOpenings (Dataset.holdAll path ws sessions).1)
      (rows ++ allEntries (Dataset.holdAll path ws sessions).1) := by
  induction sessions generalizing ws opened rows with
  | nil => simpa [Dataset.holdAll, allOpenings, allEntries] using h
  | cons s rest ih =>
    obtain ⟨hfirst, hlater⟩ := List.forall_mem_cons.1 hstored
    have hkept := h.performAll (w := { path, columns := s.columns }) ⟨⟨rfl, rfl⟩, nofun⟩ rfl hfirst
    have hall := ih hkept hlater
    rw [List.append_assoc, List.append_assoc] at hall
    exact hall

end Kept

section InStep

/-- A line is that of the row and has one cell for each column of the header, under the one it was computed for. -/
structure LaidUnder (header : List String) (entry : Entry) (line : List String) : Prop where
  cells : entry.2.cells entry.1 = .ok line
  width : line.length = header.length
  place : header.zip line = entry.1.names.zip line

/-- The file beside the table names the columns of the header, and each row stands under these. -/
def InStep (path : String) (ws : Workspace) (rows : List Entry) : Prop :=
  ∃ header lines, tableLines ws path = some (header :: lines) ∧ toldNames ws path = some header ∧
    List.Forall₂ (LaidUnder header) rows lines

variable {path : String} {ws : Workspace} {opened : List Columns} {rows : List Entry} {first last : Columns}

theorem length_of_cells {r : Row} {columns : Columns} {line : List String} (h : r.cells columns = .ok line) :
    line.length = columns.names.length := by
  obtain ⟨values, -, hcells⟩ := exists_of_bind_eq_ok h
  obtain rfl := Except.ok.inj hcells
  exact List.length_map _

theorem laidUnder_iff {header : List String} {entry : Entry} {line : List String}
    (h : entry.2.cells entry.1 = .ok line) : LaidUnder header entry line ↔ entry.1.names = header := by
  have hlength := length_of_cells h
  constructor
  · intro hlaid
    calc entry.1.names = (entry.1.names.zip line).map Prod.fst := (List.map_fst_zip hlength.ge).symm
      _ = (header.zip line).map Prod.fst := by rw [hlaid.place]
      _ = header := List.map_fst_zip hlaid.width.ge
  · intro heq
    exact ⟨h, heq ▸ hlength, heq ▸ rfl⟩

theorem forall₂_laidUnder_iff {header : List String} {lines : List (List String)}
    (h : List.Forall₂ (fun p line => p.2.cells p.1 = .ok line) rows lines) :
    List.Forall₂ (LaidUnder header) rows lines ↔ ∀ p ∈ rows, p.1.names = header := by
  induction h with
  | nil => simp
  | cons hfirst _ ih => rw [List.forall₂_cons, laidUnder_iff hfirst, ih, List.forall_mem_cons]

/-- The header is that of the first columns, the file beside it tells the last ones, and every row is as its own
columns have it. -/
structure Follows (path : String) (ws : Workspace) (rows : List Entry) (first last : Columns) : Prop where
  table : ∃ lines, tableLines ws path = some (first.names :: lines) ∧
    List.Forall₂ (fun p line => p.2.cells p.1 = .ok line) rows lines
  told : toldNames ws path = some last.names

theorem Kept.follows (h : Kept path ws opened rows) (hfirst : opened.head? = some first)
    (hlast : opened.getLast? = some last) : Follows path ws rows first last := by
  cases h with
  | nothing => cases hfirst
  | table head latest cells file beside =>
    obtain rfl := Option.some.inj (head.symm.trans hfirst)
    obtain rfl := Option.some.inj (latest.symm.trans hlast)
    refine ⟨⟨_, tableLines_of_contains file ?_, cells⟩, toldNames_of_contains beside⟩
    refine List.forall_mem_cons.2 ⟨Columns.legible_names _, ?_⟩
    clear file
    induction cells with
    | nil => exact nofun
    | cons hline _ ih => exact List.forall_mem_cons.2 ⟨Row.legible_cells hline, ih⟩

theorem Follows.inStep_iff (h : Follows path ws rows first last) :
    InStep path ws rows ↔ last.names = first.names ∧ ∀ p ∈ rows, p.1.names = first.names := by
  obtain ⟨⟨lines, hlines, hcells⟩, htold⟩ := h
  constructor
  · rintro ⟨header, lines', hlines', htold', hlaid⟩
    obtain ⟨rfl, rfl⟩ := List.cons.inj (Option.some.inj (hlines.symm.trans hlines'))
    exact ⟨Option.some.inj (htold.symm.trans htold'), (forall₂_laidUnder_iff hcells).1 hlaid⟩
  · rintro ⟨hlast, hrows⟩
    exact ⟨_, lines, hlines, htold.trans (congrArg some hlast), (forall₂_laidUnder_iff hcells).2 hrows⟩

end InStep

section Prefixes

variable {path : String} {ws : Workspace} {held : List (Columns × List Deed)}

/-- What the first sessions come to does not depend on the later ones. -/
theorem holdAll_take (path : String) (ws : Workspace) (sessions : List Session) (n : Nat) :
    (holdAll path ws (sessions.take n)).1 = (holdAll path ws sessions).1.take n := by
  induction sessions generalizing ws n with
  | nil => simp [holdAll]
  | cons s rest ih =>
    cases n with
    | zero => rfl
    | succ n =>
      simp only [List.take_succ_cons, holdAll]
      rw [ih]

theorem eq_of_mem_openings {columns c : Columns} {deeds : List Deed} (h : c ∈ openings columns deeds) :
    c = columns := by
  obtain ⟨_, -, rfl⟩ := List.mem_map.1 h
  rfl

/-- A row is appended in a session that turns to the file. -/
theorem mem_allOpenings_of_mem_allEntries {p : Entry} (h : p ∈ allEntries held) : p.1 ∈ allOpenings held := by
  obtain ⟨q, hq, hp⟩ := List.mem_flatMap.1 h
  obtain ⟨r, hr, rfl⟩ := List.mem_map.1 hp
  obtain ⟨⟨act, result⟩, hdeed, hrow⟩ := List.mem_filterMap.1 hr
  refine List.mem_flatMap.2 ⟨q, hq, List.mem_map.2 ⟨(act, result), List.mem_filter.2 ⟨hdeed, ?_⟩, rfl⟩⟩
  cases result with
  | error e => cases hrow
  | ok =>
    cases act with
    | opens | appends => rfl
    | closes | renews => cases hrow

/-- Columns with which the file was opened are the last ones after some session. -/
theorem exists_getLast?_take {c : Columns} (h : c ∈ allOpenings held) :
    ∃ n, (allOpenings (held.take n)).getLast? = some c := by
  obtain ⟨p, hp, hc⟩ := List.mem_flatMap.1 h
  obtain ⟨front, back, rfl⟩ := List.append_of_mem hp
  refine ⟨front.length + 1, ?_⟩
  have htake : (front ++ p :: back).take (front.length + 1) = front ++ [p] := by
    simp [List.take_append]
  obtain ⟨c', hlast⟩ : ∃ c', (openings p.1 p.2).getLast? = some c' :=
    Option.isSome_iff_exists.1 (List.getLast?_isSome.2 (List.ne_nil_of_mem hc))
  have hsame : c' = c :=
    (eq_of_mem_openings (List.mem_of_getLast? hlast)).trans (eq_of_mem_openings hc).symm
  rw [htake, allOpenings, List.flatMap_append, List.flatMap_singleton, List.getLast?_append, hlast, hsame,
    Option.some_or]

theorem allOpenings_take (held : List (Columns × List Deed)) (n : Nat) :
    allOpenings (held.take n) <+: allOpenings held := by
  refine ⟨allOpenings (held.drop n), ?_⟩
  rw [allOpenings, allOpenings, ← List.flatMap_append, List.take_append_drop]
  rfl

end Prefixes

section Law

variable {path : String} {ws : Workspace} {sessions : List Session}

/-- All sessions that turn to the file have the same columns, though maybe in other categories. -/
def Agree (opened : List Columns) : Prop := ∀ c ∈ opened, ∀ c' ∈ opened, c.names = c'.names

theorem kept_take (hws : ws.IsTree) (hnew : ∀ bytes, ws.read path = .ok bytes → bytes = ByteArray.empty)
    (hstored : ∀ p ∈ (holdAll path ws sessions).1, Stored p.2) (n : Nat) :
    Kept path (holdAll path ws (sessions.take n)).2 (allOpenings (holdAll path ws (sessions.take n)).1)
      (allEntries (holdAll path ws (sessions.take n)).1) := by
  have htaken : ∀ p ∈ (holdAll path ws (sessions.take n)).1, Stored p.2 := by
    rw [holdAll_take]
    exact fun p hp => hstored p (List.mem_of_mem_take hp)
  have hkept := (Kept.nothing hws hnew).holdAll (sessions.take n) htaken
  rwa [List.nil_append, List.nil_append] at hkept

/-- After each session the header is still that of the first one that opened the file, the file beside it tells the
columns of the last one, and each row is laid out as its own session has it. So the three are in step after each
session just if all sessions agree on the columns. -/
theorem holdAll_inStep_iff (path : String) (ws : Workspace) (sessions : List Session) (hws : ws.IsTree)
    (hnew : ∀ bytes, ws.read path = .ok bytes → bytes = ByteArray.empty)
    (hstored : ∀ p ∈ (holdAll path ws sessions).1, Stored p.2) :
    (∀ n first last, (allOpenings (holdAll path ws (sessions.take n)).1).head? = some first →
      (allOpenings (holdAll path ws (sessions.take n)).1).getLast? = some last →
      Follows path (holdAll path ws (sessions.take n)).2 (allEntries (holdAll path ws (sessions.take n)).1) first last) ∧
    ((∀ n, allOpenings (holdAll path ws (sessions.take n)).1 ≠ [] →
      InStep path (holdAll path ws (sessions.take n)).2 (allEntries (holdAll path ws (sessions.take n)).1)) ↔
        Agree (allOpenings (holdAll path ws sessions).1)) := by
  have hfollows (n : Nat) {first last : Columns}
      (hfirst : (allOpenings (holdAll path ws (sessions.take n)).1).head? = some first)
      (hlast : (allOpenings (holdAll path ws (sessions.take n)).1).getLast? = some last) :=
    (kept_take hws hnew hstored n).follows hfirst hlast
  refine ⟨fun n _ _ => hfollows n, fun hstep => ?_, fun hagree n hopened => ?_⟩
  · -- Some session opened the file first; each of the others is the last one of some prefix.
    cases hhead : (allOpenings (holdAll path ws sessions).1).head? with
    | none =>
      rw [List.head?_eq_none_iff.1 hhead]
      exact nofun
    | some first =>
      have hall : ∀ c ∈ allOpenings (holdAll path ws sessions).1, c.names = first.names := by
        intro c hc
        obtain ⟨n, hlast⟩ := exists_getLast?_take hc
        rw [← holdAll_take] at hlast
        have hne : allOpenings (holdAll path ws (sessions.take n)).1 ≠ [] := by
          intro hnone
          rw [hnone] at hlast
          cases hlast
        obtain ⟨more, hmore⟩ := allOpenings_take (holdAll path ws sessions).1 n
        rw [← holdAll_take] at hmore
        have hfirst := hhead
        rw [← hmore, List.head?_append_of_ne_nil _ hne] at hfirst
        exact ((hfollows n hfirst hlast).inStep_iff.1 (hstep n hne)).1
      exact fun c hc c' hc' => (hall c hc).trans (hall c' hc').symm
  · obtain ⟨first, hfirst⟩ := Option.ne_none_iff_exists'.1 (mt List.head?_eq_none_iff.1 hopened)
    obtain ⟨last, hlast⟩ := Option.ne_none_iff_exists'.1 (mt List.getLast?_eq_none_iff.1 hopened)
    have hwithin : ∀ c ∈ allOpenings (holdAll path ws (sessions.take n)).1, c.names = first.names := by
      have hbegin := allOpenings_take (holdAll path ws sessions).1 n
      rw [← holdAll_take] at hbegin
      exact fun c hc => hagree c (hbegin.subset hc) first (hbegin.subset (List.mem_of_head? hfirst))
    exact (hfollows n hfirst hlast).inStep_iff.2 ⟨hwithin last (List.mem_of_getLast? hlast),
      fun p hp => hwithin p.1 (mem_allOpenings_of_mem_allEntries hp)⟩

/-- Where there is room for the dataset, no act of a session fails. -/
theorem exists_holdAll_eq {L : Layout} (htakes : L.TakesTable path) (hws : L.Fits ws)
    (hrows : ∀ s ∈ sessions, ∀ r ∈ s.acts.filterMap Act.row?, r.IsOrdinary) :
    (holdAll path ws sessions).1 = sessions.map fun s => (s.columns, s.acts.map fun act => (act, .ok ())) := by
  induction sessions generalizing ws with
  | nil => rfl
  | cons s rest ih =>
    obtain ⟨hfirst, hlater⟩ := List.forall_mem_cons.1 hrows
    have hcarries : L.Carries { path, columns := s.columns } ws := ⟨htakes, nofun⟩
    obtain ⟨w', ws', hrun, hkeep⟩ := exists_performAll_keeps hcarries hws hfirst
    simp only [holdAll, hrun, ih hkeep.fits hlater, List.map_cons]

theorem stored_of_ok (acts : List Act) : Stored (acts.map fun act => (act, .ok ())) := by
  rintro deed hdeed fault hfault
  obtain ⟨act, -, rfl⟩ := List.mem_map.1 hdeed
  cases hfault

end Law

section Samples

/-- A session that appends a row. -/
def plainSession (columns : Columns) : Session := ⟨columns, [.opens, .appends bareRow, .closes]⟩

theorem holdAll_plain (columns columns' : Columns) :
    (holdAll "/data.csv" (Workspace.empty []) [plainSession columns, plainSession columns']).1 =
      [(columns, [(.opens, .ok ()), (.appends bareRow, .ok ()), (.closes, .ok ())]),
        (columns', [(.opens, .ok ()), (.appends bareRow, .ok ()), (.closes, .ok ())])] := by
  have hrows : ∀ s ∈ [plainSession columns, plainSession columns'],
      ∀ r ∈ s.acts.filterMap Act.row?, r.IsOrdinary := by
    intro s hs r hr est hest
    have hacts : s.acts = [.opens, .appends bareRow, .closes] := by
      rcases List.mem_cons.1 hs with rfl | hs
      · rfl
      · obtain rfl := List.mem_singleton.1 hs
        rfl
    rw [hacts] at hr
    obtain rfl := List.mem_singleton.1 (show r ∈ [bareRow] from hr)
    cases hest
  exact exists_holdAll_eq rootLayout_takesTable empty_fits hrows

theorem empty_fresh (path : String) (bytes : ByteArray) (h : (Workspace.empty []).read path = .ok bytes) :
    bytes = ByteArray.empty := by
  obtain ⟨place, executable, -, hfile⟩ := Workspace.exists_place_of_read h
  simp [Workspace.empty, Keyed.get?] at hfile

theorem stored_plain (columns columns' : Columns) :
    ∀ p ∈ (holdAll "/data.csv" (Workspace.empty []) [plainSession columns, plainSession columns']).1, Stored p.2 := by
  rw [holdAll_plain]
  have hok := stored_of_ok [.opens, .appends bareRow, .closes]
  exact List.forall_mem_cons.2 ⟨hok, List.forall_mem_singleton.2 hok⟩

/-- Two sessions with the same column in different categories. -/
theorem holdAll_inStep_recategorized :
    let held := holdAll "/data.csv" (Workspace.empty [])
      [plainSession { input := ["A"], estimate := [] }, plainSession { input := [], estimate := ["A"] }]
    allOpenings held.1 ≠ [] ∧ InStep "/data.csv" held.2 (allEntries held.1) := by
  have hopened := holdAll_plain { input := ["A"], estimate := [] } { input := [], estimate := ["A"] }
  have hlaw := holdAll_inStep_iff "/data.csv" (Workspace.empty [])
    [plainSession { input := ["A"], estimate := [] }, plainSession { input := [], estimate := ["A"] }] empty_isTree
    (empty_fresh _) (stored_plain _ _)
  have hagree : Agree (allOpenings (holdAll "/data.csv" (Workspace.empty [])
      [plainSession { input := ["A"], estimate := [] }, plainSession { input := [], estimate := ["A"] }]).1) := by
    rw [hopened]
    unfold Agree
    decide
  have hne : allOpenings (holdAll "/data.csv" (Workspace.empty [])
      [plainSession { input := ["A"], estimate := [] }, plainSession { input := [], estimate := ["A"] }]).1 ≠ [] := by
    rw [hopened]
    decide
  exact ⟨hne, hlaw.2.2 hagree 2 hne⟩

/-- After a session with other columns the row does not stand under the header, and the file beside the table
names columns that are not there. -/
theorem exists_outOfStep : ∃ (ws : Workspace) (path : String) (sessions : List Session),
    ws.IsTree ∧ ws.read path = .error ⟨.notFound, path⟩ ∧
      (∀ p ∈ (holdAll path ws sessions).1, Stored p.2) ∧
      ¬InStep path (holdAll path ws sessions).2 (allEntries (holdAll path ws sessions).1) := by
  refine ⟨Workspace.empty [], "/data.csv",
    [plainSession { input := ["A"], estimate := [] }, plainSession { input := ["B", "C"], estimate := [] }],
    empty_isTree, ?_, stored_plain _ _, fun hstep => ?_⟩
  · have hplace : (Workspace.empty []).locate "/data.csv" = .ok ["data.csv"] :=
      Workspace.locate_rooted rfl "data.csv" (by decide) (by decide) (by decide)
    unfold Workspace.read
    simp only [hplace]
    rfl
  · have hkept := (Kept.nothing empty_isTree (empty_fresh "/data.csv")).holdAll
      [plainSession { input := ["A"], estimate := [] }, plainSession { input := ["B", "C"], estimate := [] }]
      (stored_plain _ _)
    rw [List.nil_append, List.nil_append] at hkept
    rw [holdAll_plain] at hkept hstep
    have hfollows := hkept.follows rfl rfl
    exact absurd (hfollows.inStep_iff.1 hstep).1 (by decide)

end Samples

end InlineImpact.Dataset
