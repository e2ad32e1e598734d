import InlineImpact.Proofs.Dataset.Kinds
import InlineImpact.Proofs.Dataset.RoundTrip

/-!
Sources of cells. A cell is the row's own wherever the row is identified or was measured under the name of the
column, and the compiler's everywhere else. The category of a column tells which, except where the compiler is
asked for something that is measured: such a column is labelled as the compiler's and has what was measured.
-/
namespace InlineImpact

namespace Keyed

variable {κ α : Type} [DecidableEq κ] {k : κ}

/-- A key that is kept has the value that it would have among all others. -/
theorem get?_ofPairs_filter (keep : κ → Bool) (hk : keep k = true) (ps : List (κ × α)) :
    (ofPairs (ps.filter fun (k, _) => keep k)).get? k = (ofPairs ps).get? k := by
  -- The two are built in step, so the values that were put before have to agree at the key as well.
  have hstep (ps : List (κ × α)) : ∀ m m' : Keyed κ α, m.get? k = m'.get? k →
      ((ps.filter fun (k, _) => keep k).foldl (fun m (k, v) => m.put k v) m).get? k =
        (ps.foldl (fun m (k, v) => m.put k v) m').get? k := by
    induction ps with
    | nil => exact fun _ _ h => h
    | cons p rest ih =>
      obtain ⟨j, v⟩ := p
      intro m m' h
      rw [List.filter_cons, List.foldl_cons]
      dsimp only
      split
      · rw [List.foldl_cons]
        refine ih _ _ ?_
        rw [get?_put, get?_put, h]
      · rename_i hdropped
        have hne : k ≠ j := fun heq => hdropped (heq ▸ hk)
        exact ih _ _ (h.trans (get?_put_of_ne hne v m').symm)
  exact hstep ps [] [] rfl

end Keyed

namespace Dataset

/-- The text of what the compiler says of the decision under a name; nothing where it says nothing. -/
def Row.feature (r : Row) (name : String) : String :=
  ((Keyed.ofPairs r.decision.features).get? name).elim "" Datum.cell

/-- The text of what identifies the row, or of what was measured for it. -/
def Row.own (r : Row) (measured : List (String × Datum)) (name : String) : String :=
  ((Keyed.ofPairs (r.identity ++ measured)).get? name).elim "" Datum.cell

/-- What a column of a category has in it for a row. -/
def Row.due (r : Row) (measured : List (String × Datum)) (name : String) : Category → String
  | .input | .estimate => r.feature name
  | .identity | .output => r.own measured name

/-- The category that the cells of a column have, whatever the column is labelled. -/
def Columns.source (columns : Columns) (name : String) : Category :=
  if outputColumns.contains name then .output else columns.category name

/-- The compiler is asked for something that is measured. -/
def Columns.Clashes (columns : Columns) (name : String) : Prop :=
  name ∈ outputColumns ∧ (name ∈ columns.input ∨ name ∈ columns.estimate)

/-- Every column once, every cell from the source of its column, and every column labelled by this source
unless it clashes. -/
structure Columns.Sourced (columns : Columns) : Prop where
  distinct : columns.names.Nodup
  whole : ∀ name, name ∈ columns.names ↔
    name ∈ metaColumns ++ columns.input ++ columns.estimate ++ outputColumns
  covered : columns.schema.map Prod.fst = columns.names
  own : ∀ r measured, Row.outcome r = .ok measured →
    ((r.identity ++ measured).map Prod.fst).Perm (metaColumns ++ outputColumns)
  cells : ∀ r : Row, r.cells columns =
    r.outcome.map fun measured => columns.names.map fun name => r.due measured name (columns.source name)
  told : ∀ p ∈ columns.schema, p.2 = columns.source p.1 ↔ ¬columns.Clashes p.1
  mistaken : ∀ p ∈ columns.schema, columns.Clashes p.1 →
    ∃ r measured, Row.outcome r = .ok measured ∧ r.due measured p.1 (columns.source p.1) ≠ r.due measured p.1 p.2

variable {columns : Columns} {r : Row} {measured : List (String × Datum)} {name : String}

/-- The row has a value of its own in each column that is not the compiler's. -/
theorem Row.map_fst_own (h : r.outcome = .ok measured) :
    ((r.identity ++ measured).map Prod.fst).Perm (metaColumns ++ outputColumns) := by
  have hidentity : r.identity.map Prod.fst = ["Benchmark", "Method", "Decision", "Callee", "TreeDepth", "Reason"] := rfl
  rw [List.map_append, map_fst_outcome h, hidentity]
  decide

theorem Row.mem_own (h : r.outcome = .ok measured) :
    name ∈ (r.identity ++ measured).map Prod.fst ↔ name ∈ metaColumns ++ outputColumns :=
  (map_fst_own h).mem_iff

theorem Row.nodup_own (h : r.outcome = .ok measured) : ((r.identity ++ measured).map Prod.fst).Nodup :=
  (map_fst_own h).nodup_iff.2 (by decide)

theorem Columns.category_eq_identity_iff : columns.category name = .identity ↔ name ∈ metaColumns := by
  unfold category
  split
  · exact iff_of_true rfl (List.contains_iff_mem.1 ‹_›)
  · refine iff_of_false ?_ (mt List.contains_iff_mem.2 ‹_›)
    split
    · nofun
    · split <;> nofun

/-- What is measured never identifies a row. -/
theorem not_mem_metaColumns (h : name ∈ outputColumns) : name ∉ metaColumns := by
  have hall : ∀ name ∈ outputColumns, name ∉ metaColumns := by decide
  exact hall name h

theorem Columns.category_eq_output_iff (h : name ∈ outputColumns) :
    columns.category name = .output ↔ ¬columns.Clashes name := by
  have hmeta := not_mem_metaColumns h
  simp only [category, Clashes, List.contains_iff_mem, if_neg hmeta, h, true_and, not_or]
  by_cases hinput : name ∈ columns.input
  · simp [hinput]
  · by_cases hestimate : name ∈ columns.estimate <;> simp [hinput, hestimate]

/-- Only what identifies a row or was measured has cells of the row's own. -/
theorem Columns.source_cases (h : name ∈ columns.names) :
    (name ∈ metaColumns ++ outputColumns ∧ (columns.source name = .identity ∨ columns.source name = .output)) ∨
    (name ∉ metaColumns ++ outputColumns ∧ columns.passesThrough name = true ∧
      (columns.source name = .input ∨ columns.source name = .estimate)) := by
  by_cases houtput : name ∈ outputColumns
  · exact .inl ⟨List.mem_append_right _ houtput, .inr (if_pos (List.contains_iff_mem.2 houtput))⟩
  · have hsource : columns.source name = columns.category name :=
      if_neg (mt List.contains_iff_mem.1 houtput)
    rw [hsource]
    by_cases hmeta : name ∈ metaColumns
    · exact .inl ⟨List.mem_append_left _ hmeta, .inl (category_eq_identity_iff.2 hmeta)⟩
    · have hname := mem_distinctNames.1 h
      simp only [List.mem_append, hmeta, houtput, false_or, or_false] at hname
      refine .inr ⟨by simp [hmeta, houtput], ?_⟩
      simp only [passesThrough, category, Bool.or_eq_true, List.contains_iff_mem, if_neg hmeta]
      by_cases hinput : name ∈ columns.input
      · simp [hinput]
      · simp [hinput, hname.resolve_left hinput]

/-- A cell is found where its column has it from. -/
theorem Row.cell_eq_due (h : r.outcome = .ok measured) (hname : name ∈ columns.names) :
    ((Keyed.ofPairs (r.decision.features.filter (fun (name, _) => columns.passesThrough name) ++ r.identity ++
      measured)).get? name).elim "" Datum.cell = r.due measured name (columns.source name) := by
  rw [List.append_assoc]
  rcases columns.source_cases hname with ⟨hown, hsource⟩ | ⟨hown, hpasses, hsource⟩
  · have hdue : r.due measured name (columns.source name) = r.own measured name := by
      rcases hsource with hsource | hsource <;> rw [hsource] <;> rfl
    obtain ⟨⟨_, v⟩, hmem, rfl⟩ := List.mem_map.1 ((mem_own h).2 hown)
    rw [hdue, own, Keyed.get?_ofPairs_append _ (nodup_own h) hmem, Keyed.get?_ofPairs (nodup_own h) hmem]
  · have hdue : r.due measured name (columns.source name) = r.feature name := by
      rcases hsource with hsource | hsource <;> rw [hsource] <;> rfl
    have hother : ∀ p ∈ r.identity ++ measured, p.1 ≠ name := by
      rintro p hp rfl
      exact hown ((mem_own h).1 (List.mem_map_of_mem hp))
    rw [hdue, feature, Keyed.ofPairs, List.foldl_append, Keyed.get?_foldl_put hother]
    exact congrArg (·.elim "" Datum.cell) (Keyed.get?_ofPairs_filter columns.passesThrough hpasses _)

theorem Row.cells_eq (r : Row) (columns : Columns) : r.cells columns =
    r.outcome.map fun measured => columns.names.map fun name => r.due measured name (columns.source name) := by
  cases houtcome : r.outcome with
  | error e =>
    rw [cells, record, houtcome]
    rfl
  | ok measured =>
    have hcells : columns.names.map (fun name => ((Keyed.ofPairs (r.decision.features.filter
        (fun (name, _) => columns.passesThrough name) ++ r.identity ++ measured)).get? name).elim "" Datum.cell) =
          columns.names.map fun name => r.due measured name (columns.source name) :=
      List.map_congr_left fun _ => cell_eq_due houtcome
    rw [cells, record, houtcome]
    exact congrArg Except.ok hcells

theorem Columns.told_iff {p : String × Category} (h : p ∈ columns.schema) :
    p.2 = columns.source p.1 ↔ ¬columns.Clashes p.1 := by
  obtain ⟨name, -, rfl⟩ := List.mem_map.1 h
  dsimp only
  unfold source
  split
  · exact category_eq_output_iff (List.contains_iff_mem.1 ‹_›)
  · exact iff_of_true rfl fun hclash => ‹¬_› (List.contains_iff_mem.2 hclash.1)

/-- A row that was not measured, of a decision with something said under the name. -/
def saying (name : String) : Row where
  benchmark := ""
  root := ⟨1, 2⟩
  decision := { above := [], site := ⟨4, 300⟩, features := [(name, .text "said")] }

theorem saying_feature (name : String) : (saying name).feature name = "said" := by
  simp [saying, Row.feature, Keyed.ofPairs, Keyed.put, Keyed.get?, Datum.cell]

/-- Without an estimate nothing was measured. -/
theorem exists_outcome_saying (h : name ∈ outputColumns) :
    ∃ measured, (saying name).outcome = .ok measured ∧ (saying name).own measured name = "" := by
  refine ⟨_, Row.outcome_of_none rfl, ?_⟩
  revert name
  decide

/-- What a clashing column is labelled as. -/
theorem Columns.Clashes.category (h : columns.Clashes name) :
    columns.category name = .input ∨ columns.category name = .estimate := by
  obtain ⟨houtput, hasked⟩ := h
  simp only [Columns.category, List.contains_iff_mem, if_neg (not_mem_metaColumns houtput)]
  by_cases hinput : name ∈ columns.input
  · simp [hinput]
  · simp [hinput, hasked.resolve_left hinput]

/-- Where a column clashes, there are rows in which what was measured is not what the compiler said. -/
theorem Columns.Clashes.exists_mistaken (h : columns.Clashes name) :
    ∃ r measured, Row.outcome r = .ok measured ∧
      r.due measured name (columns.source name) ≠ r.due measured name (columns.category name) := by
  obtain ⟨measured, houtcome, hown⟩ := exists_outcome_saying h.1
  refine ⟨saying name, measured, houtcome, ?_⟩
  have hsource : (saying name).due measured name (columns.source name) = "" := by
    rw [source, if_pos (List.contains_iff_mem.2 h.1)]
    exact hown
  have hlabel : (saying name).due measured name (columns.category name) = "said" := by
    rcases h.category with hlabel | hlabel <;> rw [hlabel] <;> exact saying_feature name
  rw [hsource, hlabel]
  decide

/-- The schema tells where the cells of every row come from, for all columns but those that clash. -/
theorem schema_sources (columns : Columns) : columns.Sourced := by
  constructor
  case distinct => exact nodup_distinctNames _
  case whole => exact fun _ => mem_distinctNames
  case covered =>
    rw [Columns.schema, List.map_map]
    exact List.map_id _
  case own => exact fun _ _ => Row.map_fst_own
  case cells => exact fun r => r.cells_eq columns
  case told => exact fun _ => Columns.told_iff
  case mistaken =>
    rintro p hp hclash
    obtain ⟨name, -, rfl⟩ := List.mem_map.1 hp
    exact hclash.exists_mistaken

/-- A row with a feature named like something that is measured. -/
def clashingRow : Row where
  benchmark := "a"
  root := ⟨1, 2⟩
  decision := { above := [], site := ⟨4, 200⟩, features := [("CallDelta", .int 7)] }
  estimate := some { delta := some 0.0, deviation := some 0.0, callDelta := -50, rootCalls := 25, confidence := none }

/-- A column that is labelled as one of the compiler's has what was measured in it. -/
theorem exists_mislabelled : ∃ (columns : Columns) (r : Row) (cells : List String) (p : (String × Category) × String),
    r.cells columns = .ok cells ∧ p ∈ columns.schema.zip cells ∧ p.1.2 = .input ∧ p.2 ≠ r.feature p.1.1 := by
  refine ⟨{ input := ["CallDelta"], estimate := [] }, clashingRow, _, (("CallDelta", .input), "-50"), rfl, ?_, rfl, ?_⟩
  · decide +kernel
  · decide +kernel

end Dataset

end InlineImpact
