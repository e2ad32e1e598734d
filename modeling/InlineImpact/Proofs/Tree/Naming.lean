import InlineImpact.Decision
import InlineImpact.Proofs.Text.Hex

/-!
The written forms of call sites and of paths. A form tells what it is the form of, since the marks between
its parts stand in no part; this holds for all integers, negative ones too.
-/
namespace InlineImpact

namespace CallSite

/-- The characters of a site's form, with the mark between its two numbers. -/
theorem toList_text (s : CallSite) :
    s.text.toList = ((toString s.offset).toList ++ ['-']) ++ '>' :: (Text.hex8 s.token).toList := by
  simp [text]

theorem text_injective : Function.Injective CallSite.text := by
  intro s t h
  have hmark (k : Int) : '>' ∉ (toString k).toList ++ ['-'] := by
    rw [List.mem_append]
    rintro (hc | hc)
    · rcases isDigit_or_eq_minus hc with hd | hd
      · simp at hd
      · simp at hd
    · simp at hc
  have hparts := congrArg String.toList h
  rw [toList_text, toList_text] at hparts
  obtain ⟨hoffset, htoken⟩ := append_mark_inj (hmark _) (hmark _) hparts
  obtain ⟨offset, token⟩ := s
  obtain ⟨offset', token'⟩ := t
  obtain rfl : offset = offset' :=
    Int.repr_injective (String.toList_inj.1 (List.append_cancel_right hoffset))
  obtain rfl : token = token' := Text.hex8_injective (String.toList_inj.1 htoken)
  rfl

theorem slash_not_mem_text (s : CallSite) : '/' ∉ s.text.toList := by
  rw [toList_text]
  simp only [List.mem_append, List.mem_cons, List.not_mem_nil, or_false]
  rintro ((hc | hc) | hc | hc)
  · rcases isDigit_or_eq_minus hc with hd | hd
    · simp at hd
    · simp at hd
  · simp at hc
  · simp at hc
  · exact Text.not_mem_hex8 (by decide) (by decide) hc

theorem text_ne_empty (s : CallSite) : s.text ≠ "" := by
  intro h
  have := congrArg String.toList h
  rw [toList_text] at this
  simp at this

end CallSite

namespace CallPath

/-- The characters of the form of a longer path. -/
theorem toList_text_cons (s : CallSite) {p : CallPath} (hp : p ≠ []) :
    (text (s :: p)).toList = s.text.toList ++ '/' :: (text p).toList := by
  have hmap : p.map CallSite.text ≠ [] := by simpa using hp
  rw [text, List.map_cons, String.intercalate_cons_of_ne_nil hmap]
  simp [text]

theorem text_singleton (s : CallSite) : text [s] = s.text := String.intercalate_singleton

/-- A path of one site has no slash in its form, a longer one has. -/
theorem text_singleton_ne_cons (s t : CallSite) {p : CallPath} (hp : p ≠ []) : text [s] ≠ text (t :: p) := by
  intro h
  have hchars := congrArg String.toList h
  rw [text_singleton, toList_text_cons t hp] at hchars
  exact s.slash_not_mem_text (hchars ▸ List.mem_append_right _ List.mem_cons_self)

theorem text_ne_empty {p : CallPath} (hp : p ≠ []) : text p ≠ "" := by
  match p with
  | [] => exact (hp rfl).elim
  | [s] => exact text_singleton s ▸ s.text_ne_empty
  | s :: t :: p =>
    intro h
    have hchars := congrArg String.toList h
    rw [toList_text_cons s (List.cons_ne_nil t p)] at hchars
    simp at hchars

theorem text_injective : Function.Injective CallPath.text := by
  intro p q h
  induction p generalizing q with
  | nil =>
    by_contra hq
    exact text_ne_empty (Ne.symm hq) h.symm
  | cons s p ih =>
    cases q with
    | nil => exact (text_ne_empty (List.cons_ne_nil s p) h).elim
    | cons t q =>
      rcases eq_or_ne p [] with rfl | hp <;> rcases eq_or_ne q [] with rfl | hq
      · rw [text_singleton, text_singleton] at h
        rw [CallSite.text_injective h]
      · exact (text_singleton_ne_cons s t hq h).elim
      · exact (text_singleton_ne_cons t s hp h.symm).elim
      · have hchars := congrArg String.toList h
        rw [toList_text_cons s hp, toList_text_cons t hq] at hchars
        obtain ⟨hsite, hrest⟩ := append_mark_inj s.slash_not_mem_text t.slash_not_mem_text hchars
        rw [CallSite.text_injective (String.toList_inj.1 hsite), ih (String.toList_inj.1 hrest)]

end CallPath

end InlineImpact
