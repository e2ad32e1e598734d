import InlineImpact.Proofs.Text.Hex

/-!
The identities of methods are ordered, and the written form of an identity tells which one it is.
-/
namespace InlineImpact.MethodId

theorem le_iff {a b : MethodId} :
    le a b = true ↔ ¬(b.token < a.token ∨ (b.token = a.token ∧ b.hash < a.hash)) := by
  rw [le, Bool.not_eq_true', decide_eq_false_iff_not, Before]

theorem le_total (a b : MethodId) : le a b || le b a := by
  rw [Bool.or_eq_true, le_iff, le_iff]
  omega

theorem le_trans (a b c : MethodId) (h : le a b = true) (h' : le b c = true) : le a c = true := by
  rw [le_iff] at h h' ⊢
  omega

theorem le_antisymm {a b : MethodId} (h : le a b = true) (h' : le b a = true) : a = b := by
  obtain ⟨token, hash⟩ := a
  obtain ⟨token', hash'⟩ := b
  rw [le_iff] at h h'
  obtain ⟨rfl, rfl⟩ : token = token' ∧ hash = hash' := by
    dsimp only at h h'
    omega
  rfl

/-- The characters of a form, with the colon between its two numbers. -/
theorem toList_text (m : MethodId) :
    m.text.toList = (Text.hex8 m.token).toList ++ ':' :: (Text.hex8 m.hash).toList := by
  simp [text]

theorem trim_text (m : MethodId) : Text.trim m.text.toList = m.text.toList := by
  refine Text.trimEnds_of_forall fun c hc => ?_
  rw [toList_text, List.mem_append, List.mem_cons] at hc
  rcases hc with hc | rfl | hc
  · exact Text.isBlank_of_mem_hex8 hc
  · decide
  · exact Text.isBlank_of_mem_hex8 hc

theorem text_injective : Function.Injective text := by
  intro m n h
  have hmark (k : Int) : ':' ∉ (Text.hex8 k).toList := Text.not_mem_hex8 (by decide) (by decide)
  have hparts := congrArg String.toList h
  rw [toList_text, toList_text] at hparts
  obtain ⟨htoken, hhash⟩ := append_mark_inj (hmark _) (hmark _) hparts
  obtain ⟨token, hash⟩ := m
  obtain ⟨token', hash'⟩ := n
  obtain rfl : token = token' := Text.hex8_injective (String.toList_inj.1 htoken)
  obtain rfl : hash = hash' := Text.hex8_injective (String.toList_inj.1 hhash)
  rfl

end InlineImpact.MethodId
