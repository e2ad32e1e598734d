import InlineImpact.Proofs.Forest.Load
import InlineImpact.Proofs.Text.Lines

/-!
A report amid the rest of a log. Whatever bytes stand around a report that was written, only the name of a
report in front of it can mislead the search: it is not found in broken characters, nor where what stands
in front meets the report.
-/
namespace InlineImpact.Forest

open Markup
open String (utf8EncodeChar)

section Search

variable {p s t : List Char}

/-- What begins in `s` does not reach beyond it, if it cannot go on with what is there. -/
theorem prefix_of_append_cons {a : Char} (ha : a ∉ p.tail) (hs : s ≠ []) (h : p <+: s ++ a :: t) : p <+: s := by
  rcases List.prefix_or_prefix_of_prefix h (List.prefix_append s (a :: t)) with hin | ⟨q, rfl⟩
  · exact hin
  · cases q with
    | nil => exact (List.append_nil s).symm ▸ List.prefix_rfl
    | cons b q =>
      obtain ⟨c, s, rfl⟩ := List.exists_cons_of_ne_nil hs
      have hb : b = a := (List.cons_prefix_cons.1 ((List.prefix_append_right_inj _).1 h)).1
      exact absurd (by simp [hb]) ha

/-- The search goes past what does not hold the name of a report. -/
theorem excerpt?_append {before : List Char} (h : ¬opening <:+: before) (rest : List Char) :
    excerpt? (before ++ '<' :: rest) = excerpt? ('<' :: rest) := by
  induction before with
  | nil => rfl
  | cons c before ih =>
    have hnot : opening.isPrefixOf (c :: (before ++ '<' :: rest)) = false := by
      refine Bool.eq_false_iff.2 fun hopening => h ?_
      have hwhole : opening <+: (c :: before) ++ '<' :: rest := List.isPrefixOf_iff_prefix.1 hopening
      exact (prefix_of_append_cons (by decide) (List.cons_ne_nil c before) hwhole).isInfix
    rw [List.cons_append, excerpt?, hnot, Bool.false_and, if_neg Bool.false_ne_true]
    exact ih fun hin => h (hin.trans (List.suffix_cons c before).isInfix)

theorem read_congr {log log' : List Char} (h : excerpt? log = excerpt? log') : read log = read log' := by
  rw [read, read, h]

end Search

section Surroundings

variable (ts : List Tree)

theorem exists_dumpText_eq_cons : ∃ more, (dumpText ts).toList = '<' :: more := by
  rw [toList_dumpText]
  exact ⟨_, rfl⟩

theorem excerpt?_dumpText (rest : List Char) : excerpt? ((dumpText ts).toList ++ rest) =
    some (document "InlineForest" (methods ts)) := by
  rw [toList_dumpText, List.append_assoc]
  exact excerpt?_document ((expected_methods ts).imp fun _ _ h => ⟨h.isPlainName, h.ne⟩) _

/-- Amid other text a report is read as it is read for itself. -/
theorem read_amid {before : List Char} (h : ¬opening <:+: before) (rest : List Char) :
    read (before ++ ((dumpText ts).toList ++ rest)) = read (dumpText ts).toList := by
  have hself := excerpt?_dumpText ts []
  have hrest := excerpt?_dumpText ts rest
  rw [List.append_nil] at hself
  obtain ⟨more, hmore⟩ := exists_dumpText_eq_cons ts
  refine read_congr ?_
  rw [hself, ← hrest, hmore]
  exact excerpt?_append h _

/-- The bytes around a report become text around it. -/
theorem decodeLossyBytes_amid (before rest : List UInt8) :
    Text.decodeLossyBytes (before ++ ((dumpText ts).toUTF8.toList ++ rest)) =
      Text.decodeLossyBytes before ++ ((dumpText ts).toList ++ Text.decodeLossyBytes rest) := by
  rw [← Text.decodeLossyBytes_encoded, Text.toList_toUTF8]
  obtain ⟨more, hmore⟩ := exists_dumpText_eq_cons ts
  rw [hmore]
  exact Text.decodeLossyBytes_append (by decide) _ _

theorem unifyLineEnds_amid (before rest : List Char) :
    Text.unifyLineEnds (before ++ ((dumpText ts).toList ++ rest)) =
      Text.unifyLineEnds before ++ ((dumpText ts).toList ++ Text.unifyLineEnds rest) := by
  rw [← Text.unifyLineEnds_append (not_mem_dumpText ts)]
  obtain ⟨more, hmore⟩ := exists_dumpText_eq_cons ts
  rw [hmore]
  exact Text.unifyLineEnds_append_cons (by decide) _ _

/-- The name of a report comes from its own bytes only. -/
theorem infix_of_opening {bs : List UInt8}
    (h : opening <:+: Text.unifyLineEnds (Text.decodeLossyBytes bs)) : "<InlineForest".toUTF8.toList <:+: bs := by
  rw [Text.toList_toUTF8]
  exact Text.infix_of_decoded (by decide) (Text.infix_of_unifyLineEnds (by decide) h)

end Surroundings

/-- What surrounds a report in a file does no harm, as long as no report is named in front of it. -/
theorem load_amid {ts : List Tree} (h : ∀ t ∈ ts, Readable t) : ∃ text f, dump? ts = some text ∧
    read text.toList = .ok f ∧ ∀ (ws : Workspace) (path : String) (bytes : ByteArray)
      (before rest : List UInt8), ws.read path = .ok bytes →
      bytes.toList = before ++ (text.toUTF8.toList ++ rest) →
      ¬"<InlineForest".toUTF8.toList <:+: before → load ws path = .ok f := by
  refine ⟨dumpText ts, _, dump?_of_readable h, read_dumpText h, ?_⟩
  intro ws path bytes before rest hfile hbytes hbefore
  rw [load, hfile]
  dsimp only
  rw [Text.decodeLossy, String.toList_ofList, hbytes, decodeLossyBytes_amid, unifyLineEnds_amid,
    read_amid ts (mt infix_of_opening hbefore), read_dumpText h]
  rfl

/-- A byte that starts nothing, a tag that is not there, a line end and a character that is cut off. -/
def noise : List UInt8 := [0xFF, 0x3C, 0x0D, 0x0A, 0xE2, 0x82]

theorem load_amid_noise : (∀ t ∈ [recursiveTree], Readable t) ∧
    ¬"<InlineForest".toUTF8.toList <:+: noise ∧ ∃ text f, dump? [recursiveTree] = some text ∧
      read text.toList = .ok f ∧
      load (.ofFile "log"
        (noise ++ (text.toUTF8.toList ++ ("</InlineForest>".toUTF8.toList ++ noise))).toByteArray) "/log" =
          .ok f := by
  have hreadable : ∀ t ∈ [recursiveTree], Readable t := by
    unfold Readable
    decide +kernel
  have hnoise : ¬"<InlineForest".toUTF8.toList <:+: noise := by decide +kernel
  have hfile (bytes : ByteArray) : (Workspace.ofFile "log" bytes).read "/log" = .ok bytes :=
    Workspace.read_rooted rfl "log" (by decide) (by decide) (by decide) rfl
  obtain ⟨text, f, hdump, hread, hload⟩ := load_amid hreadable
  refine ⟨hreadable, hnoise, text, f, hdump, hread, ?_⟩
  exact hload _ "/log" _ noise _ (hfile _) (Text.toList_toByteArray _) hnoise

end InlineImpact.Forest
