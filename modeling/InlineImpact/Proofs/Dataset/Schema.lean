import InlineImpact.Dataset
import InlineImpact.Proofs.Path
import InlineImpact.Proofs.Workspace

/-!
The file with the categories of the columns. It stands in the directory of the dataset under a name of
its own, so the two never get into each other's way.
-/
namespace InlineImpact.Dataset

open Workspace (next next_ne_next)

/-- The paths of the two files differ in their last parts. -/
theorem exists_schemaPath_parts (ws : Workspace) (path : String) : ∃ place name part,
    2 < part.length ∧ name ≠ part ∧
    (path.splitOn "/").foldl next (ws.start path) = next place name ∧
    ((schemaPath path).splitOn "/").foldl next (ws.start (schemaPath path)) = next place part := by
  obtain ⟨front, stem, ending, hpath, hstem, hslash, hdot, hfront⟩ := Path.exists_ending path
  let name := String.ofList (stem ++ ending)
  let part := String.ofList (stem ++ ".schema.json".toList)
  have hlong : 2 < part.length := by
    rw [String.length_ofList, List.length_append]
    exact Nat.lt_of_lt_of_le (by decide) (Nat.le_add_left _ _)
  have hne : name ≠ part := by
    intro h
    have hsame := List.append_cancel_left (String.ofList_injective h)
    rw [hsame] at hdot
    exact hdot (by decide)
  have hname : '/' ∉ name.toList := by rwa [String.toList_ofList]
  have hpart : '/' ∉ part.toList := by
    rw [String.toList_ofList]
    simpa using fun h => hslash (List.mem_append_left _ h)
  have hschema : schemaPath path = String.ofList front ++ part := by
    refine String.toList_injective ?_
    simp [schemaPath, part, hstem]
  have hwhole : path = String.ofList front ++ name := by
    refine String.toList_injective ?_
    simp [name, hpath]
  rw [hschema, hwhole]
  rcases hfront with rfl | ⟨above, rfl⟩
  · have hhere (s : String) (hs : '/' ∉ s.toList) : ws.start s = ws.here :=
      if_neg fun h => hs (List.mem_of_mem_head? (Text.startsWith_slash_iff.1 h))
    refine ⟨ws.here, name, part, hlong, hne, ?_, ?_⟩
    · rw [String.ofList_nil, String.empty_append, Text.splitOn_of_not_mem hname, hhere name hname]
      rfl
    · rw [String.ofList_nil, String.empty_append, Text.splitOn_of_not_mem hpart, hhere part hpart]
      rfl
  · have hcut : String.ofList (above ++ ['/']) = String.ofList above ++ "/" := by
      refine String.toList_injective ?_
      simp
    have hstart : ws.start (String.ofList (above ++ ['/']) ++ part) =
        ws.start (String.ofList (above ++ ['/']) ++ name) := by
      refine Workspace.start_congr ?_
      cases above <;> simp
    refine ⟨((String.ofList above).splitOn "/").foldl next
      (ws.start (String.ofList (above ++ ['/']) ++ name)), name, part, hlong, hne, ?_, ?_⟩
    · rw [hcut, Text.splitOn_append_slash _ _ hname, List.foldl_append, ← hcut]
      rfl
    · rw [hstart, hcut, Text.splitOn_append_slash _ _ hpart, List.foldl_append, ← hcut]
      rfl

/-- Nothing that is written to one of the two files goes to the other. -/
theorem locate_schemaPath_ne {ws : Workspace} {path : String} {place : Place} (h : ws.locate path = .ok place) :
    ws.locate (schemaPath path) ≠ .ok place := by
  intro hschema
  obtain ⟨above, name, part, hlong, hne, hpath, hpart⟩ := exists_schemaPath_parts ws path
  rw [← Workspace.eq_foldl_of_locate h] at hpath
  rw [← Workspace.eq_foldl_of_locate hschema] at hpart
  exact next_ne_next hlong hne (hpath.symm.trans hpart)

end InlineImpact.Dataset
