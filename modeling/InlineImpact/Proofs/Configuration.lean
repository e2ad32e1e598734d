import InlineImpact.Configuration
import InlineImpact.Proofs.Path
import InlineImpact.Proofs.Workspace.Renewal

/-!
Where the artifacts of a run stand: side by side, under names that differ in their endings only. So the log
and the capture of a run never get into each other's way.
-/
namespace InlineImpact.Configuration

open Workspace (next maxNameBytes)

variable (c : Configuration) (benchmark : String)

/-- The path of an artifact without its ending. -/
def artifactStem : String := Path.join c.resultsDir (benchmark ++ "-" ++ c.name)

theorem artifact_eq (suffix : String) : c.artifact benchmark suffix = c.artifactStem benchmark ++ "." ++ suffix := by
  have hstart : (benchmark ++ "-" ++ c.name ++ "." ++ suffix).startsWith "/" =
      (benchmark ++ "-" ++ c.name).startsWith "/" := by
    rw [Bool.eq_iff_iff, Text.startsWith_slash_iff, Text.startsWith_slash_iff]
    simp only [String.toList_append]
    cases benchmark.toList <;> simp
  rw [artifact, artifactStem, Path.join, Path.join, hstart]
  split
  · rfl
  · split <;> simp only [String.append_assoc]

theorem artifactStem_ne_nil : (c.artifactStem benchmark).toList ≠ [] := by
  unfold artifactStem Path.join
  split
  · simp
  · split <;> simp

/-- The artifacts have all their parts but the last in common, and the last begins alike. -/
theorem exists_artifact_parts : ∃ (above : List String) (stem : String), ∀ suffix : String, '/' ∉ suffix.toList →
    (c.artifact benchmark suffix).splitOn "/" = above ++ [stem ++ "." ++ suffix] := by
  let front := (c.artifactStem benchmark).toList.rdropWhile (· != '/')
  let stem := (c.artifactStem benchmark).toList.rtakeWhile (· != '/')
  have hcut : c.artifactStem benchmark = String.ofList (front ++ stem) := by
    rw [List.rdropWhile_append_rtakeWhile, String.ofList_toList]
  have hslash {suffix : String} (h : '/' ∉ suffix.toList) : '/' ∉ (String.ofList stem ++ "." ++ suffix).toList := by
    simpa using ⟨Path.not_mem_rtakeWhile_ne '/' _, h⟩
  have hpath (suffix : String) : c.artifact benchmark suffix =
      String.ofList front ++ (String.ofList stem ++ "." ++ suffix) := by
    rw [artifact_eq, hcut]
    simp only [String.ofList_append, String.append_assoc]
  rcases Path.exists_cut '/' (c.artifactStem benchmark).toList with hnone | ⟨above, habove⟩
  · refine ⟨[], String.ofList stem, fun suffix h => ?_⟩
    have hfront : front = [] := hnone
    rw [hpath, hfront, String.ofList_nil, String.empty_append, Text.splitOn_of_not_mem (hslash h), List.nil_append]
  · refine ⟨(String.ofList above).splitOn "/", String.ofList stem, fun suffix h => ?_⟩
    have hfront : String.ofList front = String.ofList above ++ "/" := by
      rw [show front = above ++ ['/'] from habove, String.ofList_append]
    rw [hpath, hfront, Text.splitOn_append_slash _ _ (hslash h)]

theorem start_artifact (ws : Workspace) (suffix suffix' : String) :
    ws.start (c.artifact benchmark suffix) = ws.start (c.artifact benchmark suffix') := by
  refine Workspace.start_congr ?_
  rw [artifact_eq, artifact_eq]
  simp only [String.toList_append, List.append_assoc]
  rw [List.head?_append_of_ne_nil _ (c.artifactStem_ne_nil benchmark),
    List.head?_append_of_ne_nil _ (c.artifactStem_ne_nil benchmark)]

/-- Where one artifact is found, another is, at a place of its own, unless its name is too long. -/
theorem locate_artifact {ws : Workspace} {suffix : String} (suffix' : String) {place : Place}
    (h : ws.locate (c.artifact benchmark suffix) = .ok place) (hslash : '/' ∉ suffix.toList)
    (hslash' : '/' ∉ suffix'.toList) (hnull : '\x00' ∉ suffix'.toList) (hlong : 2 ≤ suffix'.length)
    (hne : suffix ≠ suffix') : ws.locate (c.artifact benchmark suffix') = .error .nameTooLong ∨
      ∃ place', ws.locate (c.artifact benchmark suffix') = .ok place' ∧ place ≠ place' := by
  obtain ⟨above, stem, hparts⟩ := c.exists_artifact_parts benchmark
  obtain ⟨parts, hnamed, -⟩ := exists_of_bind_eq_ok h
  obtain ⟨hnull', -, -⟩ := Workspace.named_of_parts hnamed
  have hnames : stem ++ "." ++ suffix ≠ stem ++ "." ++ suffix' := fun heq =>
    hne (String.toList_injective (by simpa using congrArg String.toList heq))
  have hlength : 2 < (stem ++ "." ++ suffix').length := by
    simp only [String.length_append]
    show 2 < stem.length + 1 + suffix'.length
    omega
  have hclean : '\x00' ∉ (c.artifact benchmark suffix').toList := by
    rw [artifact_eq] at hnull' ⊢
    simp only [String.toList_append, List.mem_append, not_or] at hnull' ⊢
    exact ⟨hnull'.1, hnull⟩
  have hfilled : c.artifact benchmark suffix' ≠ "" := by
    rw [artifact_eq]
    intro heq
    simpa using congrArg String.toList heq
  obtain ⟨hplace, hother⟩ := Workspace.locate_sibling h (hparts suffix hslash) (hparts suffix' hslash') hclean
    hfilled (c.start_artifact benchmark ws suffix' suffix)
  rw [hother, hplace]
  split
  · exact .inl rfl
  · exact .inr ⟨_, rfl, Workspace.next_ne_next hlength hnames⟩

/-- Where the log is found, so is the capture. -/
theorem locate_eventsFile {ws : Workspace} {place : Place} (h : ws.locate (c.logFile benchmark) = .ok place) :
    ws.locate (c.eventsFile benchmark) = .error .nameTooLong ∨
      ∃ place', ws.locate (c.eventsFile benchmark) = .ok place' ∧ place ≠ place' :=
  c.locate_artifact benchmark "events" h (by decide) (by decide) (by decide) (by decide) (by decide)

end InlineImpact.Configuration
