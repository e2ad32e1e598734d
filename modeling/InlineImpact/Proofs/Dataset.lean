import InlineImpact.Dataset
import InlineImpact.Proofs.Estimate
import InlineImpact.Proofs.Keyed
import InlineImpact.Proofs.Workspace

/-!
Appending to a dataset. In a workspace that fits a layout with room for the dataset every row whose
counts can be divided by is appended.
-/
namespace InlineImpact

open Dataset (Row Writer)
open Workspace (maxNameBytes)

namespace Dataset.Row

/-- The counts of the estimate can be divided by, if there is one. -/
def IsOrdinary (r : Row) : Prop :=
  ∀ est, r.estimate = some est → Decimal.IsOrdinary est.callDelta ∧ Decimal.IsOrdinary est.rootCalls

theorem exists_cells {r : Row} (h : r.IsOrdinary) (columns : Columns) :
    ∃ cells, r.cells columns = .ok cells := by
  have houtcome : ∃ values, r.outcome = .ok values := by
    unfold outcome
    cases hest : r.estimate with
    | none => exact ⟨_, rfl⟩
    | some est =>
      obtain ⟨hcalls, hroot⟩ := h est hest
      obtain ⟨perCall, hperCall⟩ := Estimate.exists_share est.delta hcalls
      obtain ⟨perRootCall, hperRootCall⟩ := Estimate.exists_share est.delta hroot
      simp only [Estimate.perCall, Estimate.perRootCall, hperCall, hperRootCall]
      exact ⟨_, rfl⟩
  obtain ⟨values, hvalues⟩ := houtcome
  rw [cells, record, hvalues]
  exact ⟨_, rfl⟩

end Dataset.Row

section Identity

namespace Dataset

/-- The first columns are those of benchmark, root and decision. -/
theorem Columns.exists_names_eq (columns : Columns) :
    ∃ more, columns.names = "Benchmark" :: "Method" :: "Decision" :: more :=
  ⟨_, rfl⟩

/-- What was measured stands under the same names in every row. -/
theorem Row.map_fst_outcome {r : Row} {outcome : List (String × Datum)} (h : r.outcome = .ok outcome) :
    outcome.map Prod.fst = ["Status", "Confidence", "InstRetiredDelta", "InstRetiredSD", "CallDelta",
      "InstRetiredPerCallDelta", "RootCallCount", "InstRetiredPerRootCallDelta"] := by
  unfold Row.outcome at h
  cases hest : r.estimate with
  | none =>
    rw [hest] at h
    exact (Except.ok.inj h) ▸ rfl
  | some est =>
    rw [hest] at h
    obtain ⟨perCall, -, h⟩ := exists_of_bind_eq_ok h
    obtain ⟨perRootCall, -, h⟩ := exists_of_bind_eq_ok h
    exact (Except.ok.inj h) ▸ rfl

/-- The first cells are the texts of benchmark, root and decision. -/
theorem Row.exists_cells_eq {r : Row} {columns : Columns} {cells : List String}
    (h : r.cells columns = .ok cells) :
    ∃ more, cells = r.benchmark :: r.root.text :: r.decision.text :: more := by
  obtain ⟨values, hvalues, hcells⟩ := exists_of_bind_eq_ok h
  obtain ⟨outcome, houtcome, hvalues⟩ := exists_of_bind_eq_ok hvalues
  have hnames := Row.map_fst_outcome houtcome
  have hget (before : List (String × Datum)) {after : List (String × Datum)} {column : String} {v : Datum}
      (hsplit : r.identity = before ++ (column, v) :: after)
      (hlast : column ∉ after.map Prod.fst ++ outcome.map Prod.fst) : values.get? column = some v := by
    rw [← List.map_append] at hlast
    rw [← Except.ok.inj hvalues, hsplit]
    simp only [List.append_assoc, List.cons_append]
    rw [← List.append_assoc]
    refine Keyed.get?_ofPairs_append_cons fun p hp heq => hlast ?_
    exact List.mem_map.2 ⟨p, hp, heq⟩
  have hbenchmark := hget [] rfl (by simp [hnames])
  have hmethod := hget [_] rfl (by simp [hnames])
  have hdecision := hget [_, _] rfl (by simp [hnames])
  obtain ⟨more, hmore⟩ := columns.exists_names_eq
  rw [← Except.ok.inj hcells, hmore, List.map_cons, List.map_cons, List.map_cons, hbenchmark, hmethod,
    hdecision]
  exact ⟨_, rfl⟩

end Dataset

end Identity

namespace Layout

variable (L : Layout)

def hereText : String := "/" ++ "/".intercalate L.here

/-- The directory of a dataset. -/
def tableDirectory (path : String) : String := Path.directory (Path.absolute L.hereText path)

/-- The layout has a file for the path, with a name that is not too long. -/
def HasFile (dir path : String) : Prop :=
  ∃ parts name, L.Leads dir path parts name .data ∧ name.utf8ByteSize ≤ maxNameBytes

/-- The layout has a directory for a dataset, and files for its rows and for its schema. -/
structure TakesTable (path : String) : Prop where
  makes : L.Makes (L.tableDirectory path)
  rows : L.HasFile (L.tableDirectory path) path
  schema : L.HasFile (L.tableDirectory path) (Dataset.schemaPath path)

/-- The layout takes the dataset, and the directory of one that is open is there. -/
structure Carries (w : Writer) (ws : Workspace) : Prop where
  takes : L.TakesTable w.path
  opened : w.isOpen = true → L.Open (L.tableDirectory w.path) ws

variable {L} {ws ws' : Workspace} {w : Writer} {dir path : String}

theorem HasFile.append (h : L.HasFile dir path) (hws : L.Fits ws) (ho : L.Open dir ws) (text : String) :
    ∃ ws', ws.appendText path text = .ok ws' ∧ L.Keeps ws ws' := by
  obtain ⟨parts, name, hl, hname⟩ := h
  exact hws.append hl ho hname text.toUTF8

theorem HasFile.write (h : L.HasFile dir path) (hws : L.Fits ws) (ho : L.Open dir ws) (text : String) :
    ∃ ws', ws.writeText path text = .ok ws' ∧ L.Keeps ws ws' := by
  obtain ⟨parts, name, hl, hname⟩ := h
  exact hws.write hl ho hname nofun fun executable => ⟨_, executable, rfl⟩

namespace Carries

theorem keep (h : L.Carries w ws) (hk : L.Keeps ws ws') : L.Carries w ws' :=
  ⟨h.takes, fun ho => (h.opened ho).keep h.takes.makes hk⟩

theorem start (h : L.Carries w ws) (hws : L.Fits ws) :
    ∃ w' ws', w.start ws = (.ok (), w', ws') ∧ L.Keeps ws ws' ∧ w'.path = w.path ∧
      L.Open (L.tableDirectory w.path) ws' := by
  unfold Writer.start
  cases hopen : w.isOpen with
  | true => exact ⟨w, ws, rfl, .refl hws, rfl, h.opened hopen⟩
  | false =>
    obtain ⟨made, hmade, hkeep, ho⟩ := hws.makeDirectories h.takes.makes
    obtain ⟨headed, hheaded, hkeep'⟩ := h.takes.rows.append hkeep.fits ho
      (if Writer.startsNew made w.path then Csv.writeRow w.columns.names else "")
    have ho' := ho.keep h.takes.makes hkeep'
    obtain ⟨told, htold, hkeep''⟩ := h.takes.schema.write hkeep'.fits ho' (Dataset.schemaText w.columns)
    have hfile : w.openFile ws = .ok headed := by
      unfold Writer.openFile
      rw [← hheaded, show Path.directory (Path.absolute ws.hereText w.path) = L.tableDirectory w.path by
        rw [tableDirectory, hereText, ← hws.here, Workspace.hereText], hmade]
      rfl
    simp only [hfile, Writer.schemaFile, htold]
    exact ⟨_, _, rfl, (hkeep.trans hkeep').trans hkeep'', rfl, ho'.keep h.takes.makes hkeep''⟩

/-- A row is appended, and the next one can be. -/
theorem append (h : L.Carries w ws) (hws : L.Fits ws) {r : Row} (hr : r.IsOrdinary) :
    ∃ w' ws', w.append ws r = (.ok (), w', ws') ∧ L.Keeps ws ws' ∧ L.Carries w' ws' := by
  obtain ⟨w₁, ws₁, hstart, hkeep, hpath, ho⟩ := h.start hws
  obtain ⟨cells, hcells⟩ := Dataset.Row.exists_cells hr w₁.columns
  obtain ⟨ws₂, happend, hkeep'⟩ := h.takes.rows.append hkeep.fits ho (Csv.writeRow cells)
  have ho' := ho.keep h.takes.makes hkeep'
  have hrow : w.append ws r = (.ok (), { w₁ with rowsWritten := w₁.rowsWritten + 1 }, ws₂) := by
    simp only [Writer.append, hstart, Writer.appendOpen, hcells, hpath, happend]
  have hcarries : L.Carries { w₁ with rowsWritten := w₁.rowsWritten + 1 } ws₂ := by
    constructor
    case takes => exact hpath ▸ h.takes
    case opened => exact fun _ => hpath ▸ ho'
  exact ⟨_, ws₂, hrow, hkeep.trans hkeep', hcarries⟩

end Carries

end Layout

end InlineImpact
