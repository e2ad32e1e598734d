import InlineImpact.Proofs.Dataset
import InlineImpact.Proofs.Decimal.Quotient
import InlineImpact.Proofs.Noise
import InlineImpact.Proofs.Replay

/-!
Kinds of rows. From the cells of a row one can tell whether a decision was measured, whether there were too few
samples for confidence, or none at all on one side, or whether there is no estimate. A cell is left empty
only where there is nothing to tell, so that an effect of zero is never taken for one that is not known.
-/
namespace InlineImpact

namespace Decimal

theorem pointAt_ne_nil (ds : List Char) (places : Int) : pointAt ds places ≠ [] := by
  unfold pointAt
  split
  · exact List.cons_ne_nil _ _
  · simp

theorem positive_ne_nil (layout : Layout) (n : Nat) (k : Int) : layout.positive n k ≠ [] := by
  unfold Layout.positive
  dsimp only
  split
  · exact pointAt_ne_nil _ _
  · simp [exponentText]

theorem text_ne_empty (x : Float) : text x ≠ "" := by
  unfold text Layout.text
  split
  · split
    · decide
    · split <;> decide
  · have hbody (b : Binary) : (if b.mantissa = 0 then ['0', '.', '0']
        else plainLayout.positive (shortest b).1 (shortest b).2) ≠ [] := by
      split
      · exact List.cons_ne_nil _ _
      · exact positive_ne_nil _ _ _
    intro h
    have h := String.ofList_eq_empty_iff.1 h
    split at h
    · cases h
    · exact hbody _ h

/-- The double next to an integer other than zero can be divided by. -/
theorem not_isZero_ofInt {n : Int} (h : n ≠ 0) : ¬ IsZero (Float.ofInt n) := by
  obtain ⟨s, hfull⟩ := full_ofInt h
  rintro ⟨s', hzero⟩
  rw [hzero] at hfull
  cases hfull

end Decimal

namespace Estimate

/-- The part of a delta for each call; without calls there is none to divide by. -/
def partOf (delta : Option Float) (count : Int) : Option Float :=
  delta.map fun x => if count = 0 then 0.0 else x / Float.ofInt count

theorem partOf_eq_none_iff (delta : Option Float) (count : Int) : partOf delta count = none ↔ delta = none :=
  Option.map_eq_none_iff

theorem share_eq (delta : Option Float) {count : Int} (h : Decimal.IsOrdinary count) :
    share delta count = .ok (partOf delta count) := by
  cases delta with
  | none => rfl
  | some x =>
    by_cases hzero : count = 0
    · simp only [share, partOf, Option.map_some, if_pos hzero]
    · simp only [share, partOf, Option.map_some, if_neg hzero, Decimal.floatOfInt?_of_isOrdinary h]

namespace Graded

variable {child parent : Measurement} {minSamples : Int} {est : Estimate}

theorem status_eq (h : Graded child parent minSamples est) :
    est.status = if max minSamples 1 ≤ (min child.size parent.size : Int) then .measured else .lowSamples := by
  cases h with
  | empty hempty => exact (if_neg (by omega)).symm
  | few _ hfew => exact (if_neg (Int.not_le.2 hfew)).symm
  | enough _ henough => exact (if_pos henough).symm

theorem confidence_eq_none_iff (h : Graded child parent minSamples est) :
    est.confidence = none ↔ est.status ≠ .measured := by
  cases h <;> simp

theorem delta_eq_none_iff (h : Graded child parent minSamples est) :
    est.delta = none ↔ child.size = 0 ∨ parent.size = 0 := by
  cases h with
  | empty hempty => exact iff_of_true rfl hempty
  | few hfilled => exact iff_of_false nofun hfilled
  | enough hfilled => exact iff_of_false nofun hfilled

theorem deviation_eq_none_iff (h : Graded child parent minSamples est) :
    est.deviation = none ↔ est.delta = none := by
  cases h <;> simp

end Graded

end Estimate

namespace Dataset

theorem mem_distinctNames {name : String} {names : List String} :
    name ∈ distinctNames names ↔ name ∈ names := by
  induction names with
  | nil => rfl
  | cons first rest ih =>
    rw [distinctNames, List.mem_cons, List.mem_filter, ih, List.mem_cons]
    by_cases h : name = first <;> simp [h]

/-- What identifies a row and what was measured always have columns. -/
theorem Columns.mem_names (columns : Columns) {name : String} (h : name ∈ metaColumns ++ outputColumns) :
    name ∈ columns.names := by
  refine mem_distinctNames.2 ?_
  rcases List.mem_append.1 h with h | h <;> simp [h]

theorem cell_rounded_eq_empty_iff (x : Option Float) : (rounded x).cell = "" ↔ x = none := by
  cases x with
  | none => exact iff_of_true rfl rfl
  | some x => exact iff_of_false (Decimal.text_ne_empty _) nofun

theorem cell_int_ne_empty (n : Int) : (Datum.int n).cell ≠ "" := fun h =>
  toString_toList_ne_nil n (congrArg String.toList h)

/-- What was measured stands above what the compiler says under the same names. -/
theorem Row.exists_cells_of_outcome {r : Row} {outcome : List (String × Datum)} (h : r.outcome = .ok outcome)
    (columns : Columns) : ∃ cell : String → String, r.cells columns = .ok (columns.names.map cell) ∧
      ∀ p ∈ outcome, cell p.1 = p.2.cell := by
  rw [cells, record, h]
  refine ⟨_, rfl, fun p hmem => ?_⟩
  have hnodup : (outcome.map Prod.fst).Nodup := by
    rw [map_fst_outcome h]
    decide
  rw [Keyed.get?_ofPairs_append _ hnodup hmem]
  rfl

namespace Row

theorem outcome_of_none {r : Row} (h : r.estimate = none) :
    r.outcome = .ok [("Status", .text "missing"), ("Confidence", .text ""), ("InstRetiredDelta", .text ""),
      ("InstRetiredSD", .text ""), ("CallDelta", .text ""), ("InstRetiredPerCallDelta", .text ""),
      ("RootCallCount", .text ""), ("InstRetiredPerRootCallDelta", .text "")] := by
  simp only [outcome, status, h]
  rfl

theorem outcome_of_some {r : Row} {est : Estimate} (h : r.estimate = some est) (hr : r.IsOrdinary) :
    r.outcome = .ok [("Status", .text est.status.text), ("Confidence", rounded est.confidence),
      ("InstRetiredDelta", rounded est.delta), ("InstRetiredSD", rounded est.deviation),
      ("CallDelta", if est.delta = none then .text "" else .int est.callDelta),
      ("InstRetiredPerCallDelta", rounded (Estimate.partOf est.delta est.callDelta)),
      ("RootCallCount", .int est.rootCalls),
      ("InstRetiredPerRootCallDelta", rounded (Estimate.partOf est.delta est.rootCalls))] := by
  obtain ⟨hcalls, hroot⟩ := hr est h
  simp only [outcome, status, h, Estimate.perCall, Estimate.perRootCall, Estimate.share_eq _ hcalls,
    Estimate.share_eq _ hroot]
  cases hdelta : est.delta <;> simp [pure, Except.pure, bind, Except.bind, hdelta]

end Row

/-- The columns of an effect, and of its share in calls. -/
def effectColumns : List String :=
  ["InstRetiredDelta", "InstRetiredSD", "CallDelta", "InstRetiredPerCallDelta", "InstRetiredPerRootCallDelta"]

/-- A cell has the effect for each call. Where no calls were counted it is zero; otherwise the divisor is not. -/
def SharesOut (delta : Float) (calls share : String) : Prop :=
  (calls = "0" → share = "0.0") ∧
    (calls ≠ "0" → ∃ count : Int, calls = toString count ∧ ¬Decimal.IsZero (Float.ofInt count) ∧
      share = Decimal.text (Decimal.roundTo 6 (delta / Float.ofInt count)))

/-- What the cells of a row tell of its estimate, and of the two runs that this comes from. -/
structure Row.ToldApart (r : Row) (child parent : Measurement) (minSamples : Int) (cell : String → String) :
    Prop where
  missing : cell "Status" = "missing" ↔ r.estimate = none
  measured : r.estimate ≠ none →
    (cell "Status" = "measured" ↔ max minSamples 1 ≤ (min child.size parent.size : Int))
  lowSamples : r.estimate ≠ none →
    (cell "Status" = "low-samples" ↔ (min child.size parent.size : Int) < max minSamples 1)
  confidence : cell "Confidence" ≠ "" ↔ cell "Status" = "measured"
  effects : ∀ name ∈ effectColumns, (cell name = "" ↔ r.estimate = none ∨ child.size = 0 ∨ parent.size = 0)
  rootCalls : cell "RootCallCount" = "" ↔ cell "Status" = "missing"
  shares : cell "InstRetiredDelta" ≠ "" → ∃ delta, r.estimate.bind (·.delta) = some delta ∧
    SharesOut delta (cell "CallDelta") (cell "InstRetiredPerCallDelta") ∧
    SharesOut delta (cell "RootCallCount") (cell "InstRetiredPerRootCallDelta")

theorem sharesOut_partOf (delta : Float) (count : Int) :
    SharesOut delta (Datum.int count).cell (rounded (Estimate.partOf (some delta) count)).cell := by
  constructor
  · intro hzero
    obtain rfl : count = 0 := Int.repr_injective hzero
    show Decimal.text (Decimal.roundTo 6 0.0) = "0.0"
    decide +kernel
  · intro hcount
    have hne : count ≠ 0 := by
      rintro rfl
      exact hcount rfl
    refine ⟨count, rfl, Decimal.not_isZero_ofInt hne, ?_⟩
    rw [Estimate.partOf, Option.map_some, if_neg hne]
    rfl

variable {r : Row} {child parent : Measurement} {minSamples : Int} {cell : String → String}
  {outcome : List (String × Datum)}

theorem toldApart_of_none (h : r.estimate = none) (houtcome : r.outcome = .ok outcome)
    (hcell : ∀ p ∈ outcome, cell p.1 = p.2.cell) : r.ToldApart child parent minSamples cell := by
  obtain rfl := Except.ok.inj ((Row.outcome_of_none h).symm.trans houtcome)
  simp only [List.forall_mem_cons, Datum.cell] at hcell
  obtain ⟨hstatus, hconfidence, hdelta, hdeviation, hcalls, hperCall, hroot, hperRoot, -⟩ := hcell
  constructor
  case missing => exact iff_of_true hstatus h
  case measured => exact fun hne => absurd h hne
  case lowSamples => exact fun hne => absurd h hne
  case confidence =>
    rw [hstatus, hconfidence]
    decide
  case effects =>
    intro name hmem
    simp only [effectColumns, List.mem_cons, List.not_mem_nil, or_false] at hmem
    refine iff_of_true ?_ (.inl h)
    rcases hmem with rfl | rfl | rfl | rfl | rfl <;> assumption
  case rootCalls => exact iff_of_true hroot hstatus
  case shares => exact fun hne => absurd hdelta hne

theorem cell_ite_eq_empty_iff (delta : Option Float) (count : Int) :
    (if delta = none then .text "" else .int count : Datum).cell = "" ↔ delta = none := by
  split
  · exact iff_of_true rfl ‹_›
  · exact iff_of_false (cell_int_ne_empty _) ‹_›

theorem toldApart_of_graded {est : Estimate} (h : r.estimate = some est) (hr : r.IsOrdinary)
    (hgraded : est.Graded child parent minSamples) (houtcome : r.outcome = .ok outcome)
    (hcell : ∀ p ∈ outcome, cell p.1 = p.2.cell) : r.ToldApart child parent minSamples cell := by
  obtain rfl := Except.ok.inj ((Row.outcome_of_some h hr).symm.trans houtcome)
  simp only [List.forall_mem_cons] at hcell
  obtain ⟨hstatus, hconfidence, hdelta, hdeviation, hcalls, hperCall, hroot, hperRoot, -⟩ := hcell
  have hne : r.estimate ≠ none := h ▸ nofun
  have hkind := hgraded.status_eq
  have hmeasured : cell "Status" = "measured" ↔ est.status = .measured := by
    rw [hstatus, hkind]
    split <;> decide
  constructor
  case missing =>
    refine iff_of_false ?_ hne
    rw [hstatus, hkind]
    split <;> decide
  case measured =>
    intro
    rw [hmeasured, hkind]
    split
    · exact iff_of_true rfl ‹_›
    · exact iff_of_false nofun ‹_›
  case lowSamples =>
    intro
    rw [hstatus, hkind]
    split
    · exact iff_of_false (by decide) (Int.not_lt.2 ‹_›)
    · exact iff_of_true rfl (Int.not_le.1 ‹_›)
  case confidence =>
    rw [hmeasured, hconfidence, ne_eq, cell_rounded_eq_empty_iff, hgraded.confidence_eq_none_iff, not_not]
  case effects =>
    intro name hmem
    rw [or_iff_right hne, ← hgraded.delta_eq_none_iff]
    simp only [effectColumns, List.mem_cons, List.not_mem_nil, or_false] at hmem
    rcases hmem with rfl | rfl | rfl | rfl | rfl
    · rw [hdelta, cell_rounded_eq_empty_iff]
    · rw [hdeviation, cell_rounded_eq_empty_iff, hgraded.deviation_eq_none_iff]
    · rw [hcalls, cell_ite_eq_empty_iff]
    · rw [hperCall, cell_rounded_eq_empty_iff, Estimate.partOf_eq_none_iff]
    · rw [hperRoot, cell_rounded_eq_empty_iff, Estimate.partOf_eq_none_iff]
  case rootCalls =>
    refine iff_of_false (hroot ▸ cell_int_ne_empty _) ?_
    rw [hstatus, hkind]
    split <;> decide
  case shares =>
    intro hknown
    rw [hdelta, ne_eq, cell_rounded_eq_empty_iff] at hknown
    obtain ⟨delta, hdelta'⟩ := Option.ne_none_iff_exists'.1 hknown
    rw [hdelta', if_neg nofun] at hcalls
    rw [hdelta'] at hperCall hperRoot
    rw [hcalls, hperCall, hroot, hperRoot, h]
    exact ⟨delta, hdelta', sharesOut_partOf _ _, sharesOut_partOf _ _⟩

/-- Of any two runs there is an estimate, and rows with it and rows without one can be told apart by their cells.
This holds for all columns, and whatever the compiler says under the same names. -/
theorem exists_rows_toldApart (hchild : child.CountsWords) (hparent : parent.CountsWords)
    (callee root : Option MethodId) {rootCalls : Option Int} (hroot : ∀ n ∈ rootCalls, Decimal.IsOrdinary n)
    {resamples seed : Int} (hresamples : 0 ≤ resamples) (hseed : 0 ≤ seed) (minSamples : Int) :
    ∃ est, Estimate.ofRuns child parent callee root rootCalls resamples minSamples seed = .ok est ∧
      ∀ (r : Row) (columns : Columns), r.estimate = some est ∨ r.estimate = none →
        (∀ name ∈ metaColumns ++ outputColumns, name ∈ columns.names) ∧
          ∃ cell : String → String, r.cells columns = .ok (columns.names.map cell) ∧
            r.ToldApart child parent minSamples cell := by
  obtain ⟨est, hest, hgraded, hcalls, hrootCalls⟩ :=
    Estimate.exists_graded child parent callee root rootCalls hresamples hseed minSamples
  have hordinary : Decimal.IsOrdinary est.callDelta ∧ Decimal.IsOrdinary est.rootCalls := by
    rw [hcalls, hrootCalls]
    have := hchild.calls callee
    have := hparent.calls callee
    refine ⟨Decimal.isOrdinary_of_word (by omega), ?_⟩
    cases rootCalls with
    | some n => exact hroot n rfl
    | none =>
      have := hchild.calls root
      have := hparent.calls root
      rw [Option.getD_none, Estimate.orElse]
      split <;> exact Decimal.isOrdinary_of_word (by omega)
  refine ⟨est, hest, fun r columns hr => ⟨fun name => columns.mem_names, ?_⟩⟩
  rcases hr with hr | hr
  · have hcounts : r.IsOrdinary := fun est' hest' => Option.some.inj (hr.symm.trans hest') ▸ hordinary
    have houtcome := Row.outcome_of_some hr hcounts
    obtain ⟨cell, hcells, hcell⟩ := Row.exists_cells_of_outcome houtcome columns
    exact ⟨cell, hcells, toldApart_of_graded hr hcounts hgraded houtcome hcell⟩
  · have houtcome := Row.outcome_of_none hr
    obtain ⟨cell, hcells, hcell⟩ := Row.exists_cells_of_outcome houtcome columns
    exact ⟨cell, hcells, toldApart_of_none hr houtcome hcell⟩

/-- A row where the compiler's own values have the names of what is measured. -/
def echoRow (estimate : Option Estimate) : Row where
  benchmark := "loop"
  root := ⟨1, 2⟩
  decision :=
    { above := [], site := ⟨4, 200⟩, features := [("Status", .text "missing"), ("CallDelta", .none)] }
  estimate := estimate

theorem exists_rows_toldApart_echo :
    let child : Measurement := { samples := [3.0, 5.0] }
    let parent : Measurement := { samples := [4.0] }
    let columns : Columns := { input := ["Status", "CallDelta"] }
    child.CountsWords ∧ parent.CountsWords ∧ Decimal.IsOrdinary 0 ∧
      ∃ est, Estimate.ofRuns child parent none none (some 0) 10 (-3) 7 = .ok est ∧
        ∃ cell : String → String, (echoRow (some est)).cells columns = .ok (columns.names.map cell) ∧
          cell "Status" = "measured" ∧ cell "Confidence" ≠ "" ∧ cell "InstRetiredDelta" ≠ "" ∧
          cell "CallDelta" ≠ "" ∧ cell "RootCallCount" ≠ "" := by
  intro child parent columns
  have hchild : child.CountsWords := nofun
  have hparent : parent.CountsWords := nofun
  have hzero : Decimal.IsOrdinary 0 := Decimal.isOrdinary_of_word (by decide)
  have hroot : ∀ n ∈ some (0 : Int), Decimal.IsOrdinary n := fun n hn => Option.some.inj hn ▸ hzero
  have hresamples : (0 : Int) ≤ 10 := by decide
  have hseed : (0 : Int) ≤ 7 := by decide
  obtain ⟨est, hest, hrows⟩ := exists_rows_toldApart hchild hparent none none hroot hresamples hseed (-3)
  refine ⟨hchild, hparent, hzero, est, hest, ?_⟩
  obtain ⟨-, cell, hcells, htold⟩ := hrows (echoRow (some est)) columns (.inl rfl)
  have hmeasured : cell "Status" = "measured" := (htold.measured nofun).2 (by decide)
  have hknown {name : String} (hname : name ∈ effectColumns) : cell name ≠ "" := fun hempty => by
    have := (htold.effects name hname).1 hempty
    simp [echoRow, child, parent, Measurement.size] at this
  refine ⟨cell, hcells, hmeasured, htold.confidence.2 hmeasured, hknown (by decide), hknown (by decide), ?_⟩
  intro hempty
  have hmissing := htold.rootCalls.1 hempty
  rw [hmeasured] at hmissing
  exact absurd hmissing (by decide)

end Dataset

end InlineImpact
