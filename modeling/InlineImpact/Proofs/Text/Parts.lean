import Mathlib.Data.String.Basic

/-!
Cutting a text at its slashes. What has no slash in it and is added after one is the last part.
-/
namespace InlineImpact.Text

open String

/-- Scanning goes on from the end of `m`, where the part that is being read began after `l`. -/
theorem splitOnAux_slash (l m r : List Char) (acc : List String) :
    splitOnAux (ofList (l ++ m ++ r)) "/" ⟨utf8Len l⟩ ⟨utf8Len l + utf8Len m⟩ 0 acc =
      acc.reverse ++ (List.splitOnPPrepend (· == '/') r m.reverse).map ofList := by
  have hpos : utf8Len l + utf8Len m = utf8Len (l ++ m) := (utf8Len_append ..).symm
  rw [splitOnAux]
  cases r with
  | nil =>
    rw [if_pos (by rw [hpos, atEnd_of_valid]), extract_of_valid]
    simp
  | cons c r =>
    have hget : Pos.Raw.get (ofList (l ++ m ++ c :: r)) ⟨utf8Len l + utf8Len m⟩ = c :=
      hpos ▸ get_of_valid (l ++ m) (c :: r)
    have hnext : Pos.Raw.next (ofList (l ++ m ++ c :: r)) ⟨utf8Len l + utf8Len m⟩ =
        ⟨utf8Len l + utf8Len m + c.utf8Size⟩ := hpos ▸ next_of_valid (l ++ m) c r
    have hend : ¬Pos.Raw.atEnd (ofList (l ++ m ++ c :: r)) ⟨utf8Len l + utf8Len m⟩ = true := by
      rw [hpos, atEnd_of_valid]
      exact List.cons_ne_nil c r
    rw [if_neg hend, hget, List.splitOnPPrepend_cons_eq_if]
    by_cases hc : c = '/'
    · subst hc
      have hback : Pos.Raw.unoffsetBy ⟨utf8Len l + utf8Len m + Char.utf8Size '/'⟩
          (Pos.Raw.next "/" 0) = ⟨utf8Len l + utf8Len m⟩ := rfl
      rw [if_pos (by rfl), hnext, if_pos (by rfl), hback, extract_of_valid, if_pos (by rfl)]
      simpa [Nat.add_assoc] using splitOnAux_slash (l ++ m ++ ['/']) [] r (ofList m :: acc)
    · have hne : ¬(c == Pos.Raw.get "/" 0) = true := fun h => hc (beq_iff_eq.1 h)
      have hback (p : Pos.Raw) : p.unoffsetBy 0 = p := rfl
      rw [if_neg hne, hback, hnext]
      simpa [hc, Nat.add_assoc] using splitOnAux_slash l (m ++ [c]) r acc

theorem splitOn_slash (s : String) :
    s.splitOn "/" = (s.toList.splitOnP (· == '/')).map ofList := by
  have h := splitOnAux_slash [] [] s.toList []
  rw [List.append_nil, List.nil_append, ofList_toList] at h
  rw [splitOn, if_neg (by decide)]
  exact h

theorem startsWith_slash_iff {s : String} : s.startsWith "/" = true ↔ s.toList.head? = some '/' := by
  rw [startsWith_string_iff]
  cases s.toList <;> simp [eq_comm]

theorem endsWith_slash_iff {s : String} : s.endsWith "/" = true ↔ s.toList.getLast? = some '/' := by
  rw [← endsWith_toSlice, Slice.endsWith_string_iff, copy_toSlice, List.getLast?_eq_some_iff]
  constructor
  · rintro ⟨front, hfront⟩
    exact ⟨front, hfront.symm⟩
  · rintro ⟨front, hfront⟩
    exact ⟨front, hfront.symm⟩

/-- Around a slash the parts of what is on its left are followed by those of what is on its right. -/
theorem splitOn_join (s t : String) : (s ++ "/" ++ t).splitOn "/" = s.splitOn "/" ++ t.splitOn "/" := by
  have htext : (s ++ "/" ++ t).toList = s.toList ++ '/' :: t.toList := by simp
  rw [splitOn_slash, splitOn_slash, splitOn_slash, htext, List.splitOnP_append_cons _ _ (by rfl),
    List.map_append]

theorem splitOn_of_not_mem {s : String} (h : '/' ∉ s.toList) : s.splitOn "/" = [s] := by
  rw [splitOn_slash, List.splitOnP_eq_singleton fun c hc => beq_false_of_ne (ne_of_mem_of_not_mem hc h)]
  simp

theorem splitOn_append_slash (s part : String) (h : '/' ∉ part.toList) :
    (s ++ "/" ++ part).splitOn "/" = s.splitOn "/" ++ [part] := by
  rw [splitOn_join, splitOn_of_not_mem h]

/-- Parts without slashes that are joined are the parts of the whole. -/
theorem splitOn_intercalate {parts : List String} (h : ∀ part ∈ parts, '/' ∉ part.toList) (hne : parts ≠ []) :
    ("/".intercalate parts).splitOn "/" = parts := by
  have hlist : ∀ l ∈ parts.map String.toList, '/' ∉ l := by simpa using h
  have hcut := List.splitOn_intercalate '/' hlist (by simpa using hne)
  rw [splitOn_slash, toList_intercalate, ← List.splitOn_eq_splitOnP]
  simpa using congrArg (List.map ofList) hcut

/-- A part is made of characters of the text, and no slash is one of them. -/
theorem mem_splitOn {s part : String} (h : part ∈ s.splitOn "/") :
    '/' ∉ part.toList ∧ part.toList ⊆ s.toList := by
  have hcut (cs : List Char) : ∀ l ∈ cs.splitOn '/', '/' ∉ l ∧ l ⊆ cs := by
    induction cs with
    | nil => simp
    | cons c cs ih =>
      rw [List.splitOn_cons_eq_if_modifyHead]
      split
      · refine List.forall_mem_cons.2 ⟨by simp, fun l hl => ⟨(ih l hl).1, ?_⟩⟩
        exact List.subset_cons_of_subset c (ih l hl).2
      · rename_i hc
        cases hrest : cs.splitOn '/' with
        | nil => simp
        | cons first rest =>
          obtain ⟨hfirst, hrest⟩ := List.forall_mem_cons.1 (hrest ▸ ih)
          have hslash : '/' ≠ c := fun h => hc (beq_iff_eq.2 h.symm)
          refine List.forall_mem_cons.2 ⟨⟨by simp [hslash, hfirst.1], ?_⟩, fun l hl => ⟨(hrest l hl).1, ?_⟩⟩
          · exact List.cons_subset_cons c hfirst.2
          · exact List.subset_cons_of_subset c (hrest l hl).2
  rw [splitOn_slash, ← List.splitOn_eq_splitOnP] at h
  obtain ⟨l, hl, rfl⟩ := List.mem_map.1 h
  rw [toList_ofList]
  exact hcut _ l hl

end InlineImpact.Text
