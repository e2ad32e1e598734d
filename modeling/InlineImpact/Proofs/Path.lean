import InlineImpact.Path
import InlineImpact.Proofs.Text.Parts
import Mathlib.Data.List.DropRight

/-!
Where paths are cut. A text that is cut behind the last one of a character falls into what ends in it
and what does not have it; names, endings and directories of paths are such cuts.
-/
namespace InlineImpact.Path

section Cut

variable (c : Char) (cs : List Char)

theorem exists_cut : cs.rdropWhile (· != c) = [] ∨ ∃ front, cs.rdropWhile (· != c) = front ++ [c] := by
  by_cases hne : cs.rdropWhile (· != c) = []
  · exact .inl hne
  · have hlast := List.rdropWhile_last_not _ _ hne
    have hc : (cs.rdropWhile (· != c)).getLast hne = c := by simpa using hlast
    refine .inr ⟨(cs.rdropWhile (· != c)).dropLast, ?_⟩
    conv_lhs => rw [← List.dropLast_append_getLast hne, hc]

theorem not_mem_rtakeWhile_ne : c ∉ cs.rtakeWhile (· != c) := fun h => by
  simpa using List.mem_rtakeWhile_imp h

end Cut

/-- A path is cut before its name and before the ending of the name. At most the first character of the
ending is a dot, and what is left without the ending is the rest. -/
theorem exists_ending (p : String) : ∃ front stem ending : List Char,
    p.toList = front ++ (stem ++ ending) ∧ (withoutEnding p).toList = front ++ stem ∧
    '/' ∉ stem ++ ending ∧ '.' ∉ ending.tail ∧ (front = [] ∨ ∃ above, front = above ++ ['/']) := by
  let front := p.toList.rdropWhile (· != '/')
  let name := p.toList.rtakeWhile (· != '/')
  have hcut : front ++ name = p.toList := List.rdropWhile_append_rtakeWhile
  have hname : '/' ∉ name := not_mem_rtakeWhile_ne '/' p.toList
  have hfront : front = [] ∨ ∃ above, front = above ++ ['/'] := exists_cut '/' p.toList
  let lead := name.takeWhile (· == '.')
  let body := name.dropWhile (· == '.')
  have hlead : lead ++ body = name := List.takeWhile_append_dropWhile
  by_cases hdot : body.contains '.' = true
  · have hmem : '.' ∈ body := by simpa using hdot
    obtain ⟨kept, hkept⟩ := (exists_cut '.' body).resolve_left fun hnone => by
      simpa using List.rdropWhile_eq_nil_iff.1 hnone '.' hmem
    have hbody : kept ++ '.' :: body.rtakeWhile (· != '.') = body := by
      conv_rhs => rw [← List.rdropWhile_append_rtakeWhile (p := (· != '.')) (l := body), hkept]
      simp
    have hrest : ((body.reverse.dropWhile (· != '.')).drop 1).reverse = kept := by
      have hback : body.reverse.dropWhile (· != '.') = '.' :: kept.reverse := by
        simpa [List.rdropWhile] using congrArg List.reverse hkept
      rw [hback]
      simp
    have htake : p.toList.take (p.toList.length - name.length) = front := by
      rw [← hcut]
      simp
    refine ⟨front, lead ++ kept, '.' :: body.rtakeWhile (· != '.'), ?_, ?_, ?_, ?_, hfront⟩
    · rw [List.append_assoc, hbody, hlead, hcut]
    · have hstem : (withoutEnding p).toList =
          p.toList.take (p.toList.length - name.length) ++ lead ++
            ((body.reverse.dropWhile (· != '.')).drop 1).reverse := by
        unfold withoutEnding
        exact (congrArg String.toList (if_pos hdot)).trans String.toList_ofList
      rw [hstem, htake, hrest, List.append_assoc]
    · rwa [List.append_assoc, hbody, hlead]
    · exact not_mem_rtakeWhile_ne '.' body
  · refine ⟨front, name, [], by rw [List.append_nil, hcut], ?_, by rwa [List.append_nil], nofun, hfront⟩
    have hsame : withoutEnding p = p := by
      unfold withoutEnding
      exact if_neg hdot
    rw [hsame, hcut]

/-- A path that is normal ends before a character that no path can hold. -/
theorem not_mem_normalize (p : String) : '\x00' ∉ (normalize p).toList := by
  unfold normalize
  dsimp only
  split
  · decide
  · rw [String.toList_ofList]
    intro h
    simpa using List.mem_takeWhile_imp h

theorem directory_isPrefix (p : String) : (directory p).toList <+: p.toList := by
  have hhead : p.toList.rdropWhile (· != '/') <+: p.toList := List.rdropWhile_prefix _ _
  unfold directory
  dsimp only
  split
  · rwa [String.toList_ofList]
  · rw [String.toList_ofList]
    exact (List.rdropWhile_prefix _ _).trans hhead

/-- The directory of a path is nothing but slashes or has the first parts of the path. -/
theorem splitOn_directory (p : String) : (∀ c ∈ (directory p).toList, c = '/') ∨
    ∃ more, p.splitOn "/" = (directory p).splitOn "/" ++ more := by
  by_cases hall : (p.toList.rdropWhile (· != '/')).all (· == '/') = true
  · have hdir : directory p = String.ofList (p.toList.rdropWhile (· != '/')) := if_pos hall
    rw [hdir, String.toList_ofList]
    exact .inl (by simpa using hall)
  · obtain ⟨front, hfront⟩ := (exists_cut '/' p.toList).resolve_left fun hnone => hall (by simp [hnone])
    have hdir : directory p = String.ofList ((front ++ ['/']).rdropWhile (· == '/')) := by
      rw [← hfront]
      exact if_neg hall
    -- The slashes that are dropped begin with one, and the parts behind it are the other parts.
    obtain ⟨after, hafter⟩ : ∃ after, (front ++ ['/']).rtakeWhile (· == '/') = '/' :: after := by
      cases hslashes : (front ++ ['/']).rtakeWhile (· == '/') with
      | nil => simp at hslashes
      | cons c after =>
        have hmem : c ∈ (front ++ ['/']).rtakeWhile (· == '/') := hslashes ▸ List.mem_cons_self
        have hc : (c == '/') = true := List.mem_rtakeWhile_imp (p := (· == '/')) hmem
        rw [beq_iff_eq.1 hc]
        exact ⟨after, rfl⟩
    have htext : p = directory p ++ "/" ++ String.ofList (after ++ p.toList.rtakeWhile (· != '/')) := by
      refine String.toList_injective ?_
      have hfall : (front ++ ['/']).rdropWhile (· == '/') ++ '/' :: after = front ++ ['/'] := by
        rw [← hafter, List.rdropWhile_append_rtakeWhile]
      rw [hdir]
      simp only [String.toList_append, String.toList_ofList]
      rw [← List.append_assoc, List.append_assoc _ "/".toList, show "/".toList ++ after = '/' :: after from rfl,
        hfall, ← hfront, List.rdropWhile_append_rtakeWhile]
    refine .inr ⟨(String.ofList (after ++ p.toList.rtakeWhile (· != '/'))).splitOn "/", ?_⟩
    conv_lhs => rw [htext]
    rw [Text.splitOn_join]

end InlineImpact.Path
