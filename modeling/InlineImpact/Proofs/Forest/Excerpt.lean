import InlineImpact.Forest.Reader
import InlineImpact.Proofs.Markup.RoundTrip
import InlineImpact.Proofs.Replay

/-!
Where a report ends. No tag inside a report is the closing tag of one, so a report that was written is
found as a whole in front of whatever follows it.
-/
namespace InlineImpact.Forest

open Markup

/-- The search for the end of a report goes past these characters, whatever follows. -/
def PassedOver (cs : List Char) : Prop :=
  ∀ rest, throughClosing? (cs ++ rest) = (throughClosing? rest).map (cs ++ ·)

theorem PassedOver.nil : PassedOver [] := fun rest => by simp

theorem PassedOver.append {cs ds : List Char} (hc : PassedOver cs) (hd : PassedOver ds) :
    PassedOver (cs ++ ds) := by
  intro rest
  rw [List.append_assoc, hc, hd, Option.map_map]
  congr 1
  funext more
  exact (List.append_assoc cs ds more).symm

theorem PassedOver.cons {c : Char} {cs : List Char}
    (hc : ∀ rest, closing.isPrefixOf (c :: cs ++ rest) = false) (h : PassedOver cs) : PassedOver (c :: cs) := by
  intro rest
  rw [List.cons_append, throughClosing?, if_neg (by rw [← List.cons_append, hc]; decide), h rest, Option.map_map]
  rfl

theorem closing_eq : closing = '<' :: '/' :: ("InlineForest".toList ++ ['>']) := by decide

theorem passedOver_of_ne {cs : List Char} (h : ∀ c ∈ cs, c ≠ '<') : PassedOver cs := by
  induction cs with
  | nil => exact .nil
  | cons c cs ih =>
    obtain ⟨hc, hcs⟩ := List.forall_mem_cons.1 h
    refine (ih hcs).cons fun rest => ?_
    rw [closing_eq, List.cons_append, List.isPrefixOf, beq_false_of_ne hc.symm, Bool.false_and]

theorem ne_of_isPlainName {name : List Char} (h : isPlainName name) {d : Char}
    (hd : insideName d = false) : ∀ c ∈ name, c ≠ d := by
  rintro c hc rfl
  rw [(inside_of_isPlainName h c hc).1] at hd
  cases hd

/-- A tag that opens an element does not close a report. -/
theorem passedOver_tag {name ending : List Char} (h : isPlainName name) (hending : ∀ c ∈ ending, c ≠ '<') :
    PassedOver ('<' :: (name ++ ending)) := by
  have hrest : PassedOver (name ++ ending) :=
    (passedOver_of_ne (ne_of_isPlainName h (by decide))).append (passedOver_of_ne hending)
  refine hrest.cons fun rest => ?_
  cases name with
  | nil => cases h
  | cons c name =>
    have hc : '/' ≠ c := by
      rintro rfl
      exact absurd (startsName_of_isPlainName h) (by decide)
    rw [closing_eq]
    simp only [List.cons_append, List.isPrefixOf, beq_self_eq_true, Bool.true_and, beq_false_of_ne hc,
      Bool.false_and]

theorem passedOver_closeTag {name : List Char} (h : isPlainName name) (hne : name ≠ "InlineForest".toList) :
    PassedOver (closeTag name) := by
  have hrest : PassedOver ('/' :: (name ++ ['>'])) := by
    refine passedOver_of_ne fun c hc => ?_
    rcases List.mem_cons.1 hc with rfl | hc
    · decide
    rcases List.mem_append.1 hc with hc | hc
    · exact ne_of_isPlainName h (by decide) c hc
    · rw [List.mem_singleton.1 hc]
      decide
  refine hrest.cons fun rest => Bool.eq_false_iff.2 fun hclosing => hne ?_
  obtain ⟨more, hmore⟩ := List.isPrefixOf_iff_prefix.1 hclosing
  rw [closing_eq] at hmore
  simp only [List.cons_append, List.cons.injEq, true_and, List.append_assoc, List.nil_append] at hmore
  have hnot : '>' ∉ name := fun hc => ne_of_isPlainName h (by decide) _ hc rfl
  exact (append_mark_inj (by decide) hnot hmore).1.symm

theorem passedOver_lineAt (level : Nat) : PassedOver (lineAt level) :=
  passedOver_of_ne fun c hc => by
    rcases List.mem_cons.1 hc with rfl | hc
    · decide
    · rw [List.eq_of_mem_replicate hc]
      decide

theorem passedOver_text (cs : List Char) : PassedOver (cs.flatMap escapeChar) := by
  refine passedOver_of_ne fun d hd => ?_
  rintro rfl
  obtain ⟨c, -, hd⟩ := List.mem_flatMap.1 hd
  unfold escapeChar at hd
  split at hd
  · exact absurd hd (by decide)
  · exact absurd hd (by decide)
  · exact absurd hd (by decide)
  · rename_i hlt _
    exact hlt (List.mem_singleton.1 hd).symm

/-- No element inside a report has the tag of a report. -/
theorem passedOver_writeHedge {h : Hedge}
    (hw : h.All fun tag _ => isPlainName tag.toList ∧ tag.toList ≠ "InlineForest".toList) (level : Nat) :
    PassedOver (writeHedge level h) := by
  induction h generalizing level with
  | empty => exact .nil
  | element tag text inner rest ihInner ihRest =>
    obtain ⟨⟨hname, hne⟩, hinner, hrest⟩ := hw
    have hopen : PassedOver (openTag tag.toList) := passedOver_tag hname (by simp)
    have hclose := passedOver_closeTag hname hne
    cases inner with
    | empty =>
      rw [writeHedge]
      refine ((passedOver_lineAt level).append ?_).append (ihRest hrest level)
      split
      · exact passedOver_tag hname (by simp)
      · exact (hopen.append (passedOver_text _)).append hclose
    | element tag' text' inner' rest' =>
      rw [writeHedge]
      exact ((passedOver_lineAt level).append (((hopen.append (ihInner hinner (level + 1))).append
        (passedOver_lineAt level)).append hclose)).append (ihRest hrest level)

theorem throughClosing?_of_closing {s : List Char} (h : closing.isPrefixOf s = true) :
    throughClosing? s = some closing := by
  cases s with
  | nil => exact absurd h (by decide)
  | cons c rest => rw [throughClosing?, if_pos h]

theorem excerpt?_of_opening {s : List Char} (h : opening.isPrefixOf s = true)
    (hends : endsName (s.drop opening.length) = true) :
    excerpt? s = (throughClosing? (s.drop opening.length)).map (opening ++ ·) := by
  cases s with
  | nil => exact absurd h (by decide)
  | cons c rest => exact if_pos (Bool.and_eq_true_iff.2 ⟨h, hends⟩)

/-- A written report is found as a whole. -/
theorem excerpt?_document {inner : Hedge}
    (hw : inner.All fun tag _ => isPlainName tag.toList ∧ tag.toList ≠ "InlineForest".toList)
    (rest : List Char) : excerpt? (document "InlineForest" inner ++ rest) =
      some (document "InlineForest" inner) := by
  let body := '>' :: (writeHedge 1 inner ++ lineAt 0)
  have hbody : PassedOver body :=
    (passedOver_of_ne (show ∀ c ∈ ['>'], c ≠ '<' by simp)).append
      ((passedOver_writeHedge hw 1).append (passedOver_lineAt 0))
  have hopen : openTag "InlineForest".toList = opening ++ ['>'] := by decide
  have hdocument : document "InlineForest" inner = opening ++ (body ++ closing) := by
    rw [document, hopen, closing_eq]
    simp only [body, closeTag, List.append_assoc, List.cons_append, List.nil_append]
  have hdrop : (document "InlineForest" inner ++ rest).drop opening.length = body ++ (closing ++ rest) := by
    rw [hdocument, List.append_assoc, List.drop_left, List.append_assoc]
  have hopening : opening.isPrefixOf (document "InlineForest" inner ++ rest) = true := by
    rw [hdocument, List.append_assoc]
    exact List.isPrefixOf_iff_prefix.2 (List.prefix_append _ _)
  have hends : endsName (body ++ (closing ++ rest)) = true := show (!Text.isWord '>') = true by decide
  rw [excerpt?_of_opening hopening (hdrop ▸ hends), hdrop, hbody,
    throughClosing?_of_closing (List.isPrefixOf_iff_prefix.2 (List.prefix_append _ _)), hdocument]
  rfl

end InlineImpact.Forest
