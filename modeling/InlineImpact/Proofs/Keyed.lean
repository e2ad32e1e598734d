import InlineImpact.Keyed

/-!
What becomes of values that are kept by key when more are put beside them.
-/
namespace InlineImpact.Keyed

variable {κ α : Type} [DecidableEq κ] {k : κ} {v : α}

/-- A new key goes to the end. -/
theorem put_of_not_mem {m : Keyed κ α} (h : k ∉ m.keys) (v : α) : m.put k v = m ++ [(k, v)] := by
  induction m with
  | nil => rfl
  | cons p rest ih =>
    obtain ⟨k', v'⟩ := p
    obtain ⟨hk, hrest⟩ : k ≠ k' ∧ k ∉ keys rest := by simpa [keys] using h
    rw [put, if_neg hk.symm, ih hrest, List.cons_append]

/-- Other keys leave a value alone. -/
theorem get?_foldl_put {ps : List (κ × α)} (h : ∀ p ∈ ps, p.1 ≠ k) (m : Keyed κ α) :
    (ps.foldl (fun m (k, v) => m.put k v) m).get? k = m.get? k := by
  induction ps generalizing m with
  | nil => rfl
  | cons p rest ih =>
    obtain ⟨hp, hrest⟩ := List.forall_mem_cons.1 h
    rw [List.foldl_cons, ih hrest, get?_put_of_ne hp.symm]

/-- A key keeps the value that is put last. -/
theorem get?_ofPairs_append_cons {before after : List (κ × α)} (h : ∀ p ∈ after, p.1 ≠ k) :
    (ofPairs (before ++ (k, v) :: after)).get? k = some v := by
  rw [ofPairs, List.foldl_append, List.foldl_cons, get?_foldl_put h, get?_put_self]

/-- Each of several keys gets its value, whatever stands before them. -/
theorem get?_ofPairs_append (before : List (κ × α)) {ps : List (κ × α)} (h : (ps.map Prod.fst).Nodup)
    (hmem : (k, v) ∈ ps) : (ofPairs (before ++ ps)).get? k = some v := by
  obtain ⟨front, after, rfl⟩ := List.append_of_mem hmem
  have hafter : ∀ p ∈ after, p.1 ≠ k := by
    rintro p hp rfl
    rw [List.map_append, List.map_cons] at h
    exact (List.nodup_cons.1 (List.nodup_append.1 h).2.1).1 (List.mem_map.2 ⟨p, hp, rfl⟩)
  rw [← List.append_assoc]
  exact get?_ofPairs_append_cons hafter

theorem get?_ofPairs {ps : List (κ × α)} (h : (ps.map Prod.fst).Nodup) (hmem : (k, v) ∈ ps) :
    (ofPairs ps).get? k = some v :=
  get?_ofPairs_append [] h hmem

theorem foldl_put_of_nodup {m : Keyed κ α} {ps : List (κ × α)} (h : (m.keys ++ ps.map Prod.fst).Nodup) :
    ps.foldl (fun m (k, v) => m.put k v) m = m ++ ps := by
  induction ps generalizing m with
  | nil => simp
  | cons p rest ih =>
    obtain ⟨k, v⟩ := p
    have hnew : k ∉ m.keys := fun hmem => (List.nodup_append.1 h).2.2 k hmem k (.head _) rfl
    have hnext : (keys (m ++ [(k, v)]) ++ rest.map Prod.fst).Nodup := by simpa [keys] using h
    rw [List.foldl_cons]
    dsimp only
    rw [put_of_not_mem hnew, ih hnext, List.append_assoc, List.singleton_append]

/-- Keys that are all different are kept as they come. -/
theorem ofPairs_of_nodup {ps : List (κ × α)} (h : (ps.map Prod.fst).Nodup) : ofPairs ps = ps :=
  foldl_put_of_nodup h

/-- What is taken out is not there any more. -/
theorem get?_filter_ne (k : κ) (m : Keyed κ α) : get? k (m.filter (·.1 ≠ k)) = none := by
  induction m with
  | nil => rfl
  | cons p rest ih =>
    rw [List.filter_cons]
    split
    · rename_i hne
      rw [get?, if_neg (by simpa using hne), ih]
    · exact ih

/-- Values can be changed before they are kept or after. -/
theorem map_put (g : α → α) (k : κ) (v : α) (m : Keyed κ α) :
    (m.put k v).map (Prod.map id g) = Keyed.put k (g v) (m.map (Prod.map id g)) := by
  induction m with
  | nil => rfl
  | cons p rest ih =>
    obtain ⟨k', v'⟩ := p
    by_cases hk : k' = k
    · simp [put, hk]
    · simp only [put, hk, if_false, List.map_cons, Prod.map, id]
      rw [← ih]

end InlineImpact.Keyed
