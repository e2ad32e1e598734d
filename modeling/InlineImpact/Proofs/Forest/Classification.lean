import InlineImpact.Proofs.Forest.Acceptance
import InlineImpact.Proofs.Forest.Nesting
import InlineImpact.Proofs.Keyed

/-!
What a forest tells of the report that it was read from. Each identity in the report has a tree or is
ambiguous, and it has a tree if one method only carries it and no path of calls occurs twice there. The
tree's decisions are the nested calls, and each knows the method that it is inlined into.
-/
namespace InlineImpact.Forest

open Markup

section Numerals

/-- A number is denoted by its digits in base ten. -/
theorem numberOf_decimal {n : Int} (h : hasReadableSize n) : numberOf (some (toString n)) = n :=
  numberOf_of_readInteger (readInteger_toString h "")

/-- A number is denoted by the mark of base sixteen and its digits there, with zeros in front. -/
theorem numberOf_hexadecimal (width n : Nat) :
    numberOf (some (String.ofList ('0' :: 'x' :: Text.hexWide width n))) = n := by
  have hfilled : Text.hexWide width n =
      List.replicate (width - (Text.hexDigits n).length) '0' ++ Text.hexDigits n := by
    rw [Text.hexWide, if_neg (by omega), Int.natAbs_natCast]
  rw [numberOf, Option.getD_some, String.toList_ofList, hfilled, Text.trim_marked]
  exact congrArg (Option.getD · 0) (Text.readHex?_marked _ n)

end Numerals

/-- What a forest tells of some methods that were reported. -/
structure Classifies (f : Forest) (ms : List Element) : Prop where
  identities : (f.roots ++ f.ambiguous).Perm (ms.map identityOf).eraseDups
  records : f.records.keys = f.roots
  roots : ∀ root, root ∈ f.roots ↔ ∃ m ∈ ms, identityOf m = root ∧ (ms.map identityOf).count root = 1 ∧
    ((nested false m.inner).map Nested.path).Nodup
  decisions : ∀ t ∈ f.trees, ∃ m ∈ ms, identityOf m = t.root ∧
    t.decisions.Perm ((nested false m.inner).map (Nested.decision t.root []))
  callers : ∀ t ∈ f.trees, ∀ d ∈ t.decisions, if d.above = [] then d.caller = some t.root
    else ∃ e ∈ t.decisions, e.path = d.above ∧ d.caller = some e.callee

section Reports

variable {inner : Hedge} {r : MethodReport}

/-- A method that is read has the identity and the nested calls of its element. -/
theorem readReport_eq_ok {m : Element} (h : readReport m.inner = .ok r) : r.root = identityOf m ∧
    r.decisions = (nested false m.inner).map (Nested.decision (identityOf m) []) := by
  obtain ⟨token, htoken, h⟩ := exists_of_bind_eq_ok h
  obtain ⟨hash, hhash, h⟩ := exists_of_bind_eq_ok h
  obtain ⟨inlineCount, -, h⟩ := exists_of_bind_eq_ok h
  obtain ⟨hotSize, -, h⟩ := exists_of_bind_eq_ok h
  obtain ⟨coldSize, -, h⟩ := exists_of_bind_eq_ok h
  obtain ⟨jitTime, -, h⟩ := exists_of_bind_eq_ok h
  obtain ⟨sizeEstimate, -, h⟩ := exists_of_bind_eq_ok h
  obtain ⟨timeEstimate, -, h⟩ := exists_of_bind_eq_ok h
  obtain ⟨callCount, -, h⟩ := exists_of_bind_eq_ok h
  obtain ⟨decisions, hdecisions, h⟩ := exists_of_bind_eq_ok h
  have hroot : (⟨token, hash⟩ : MethodId) = identityOf m := by
    rw [identityOf, numberOf_of_readInteger htoken, numberOf_of_readOptional hhash]
  obtain rfl := Except.ok.inj h
  rw [hroot] at hdecisions
  exact ⟨hroot, readDecisions_eq_ok hdecisions⟩

/-- A call stands in the method itself or below another call that is nested there. -/
theorem supported_nested (root : MethodId) (h : Hedge) : ∀ d ∈ (nested false h).map (Nested.decision root []),
    d.Supported ((nested false h).map (Nested.decision root [])) := by
  intro d hd
  obtain ⟨⟨way, e⟩, hn, rfl⟩ := List.mem_map.1 hd
  rcases List.eq_nil_or_concat way with rfl | ⟨way, around, rfl⟩
  · exact .inl rfl
  · refine .inr ⟨_, List.mem_map_of_mem (nested_around (by simpa using hn)), ?_⟩
    simp [Nested.decision, Decision.path]

/-- A nested call tells the method or the call that it is inlined into. -/
theorem caller_nested (root : MethodId) (h : Hedge) : ∀ d ∈ (nested false h).map (Nested.decision root []),
    if d.above = [] then d.caller = some root
    else ∃ e ∈ (nested false h).map (Nested.decision root []), e.path = d.above ∧ d.caller = some e.callee := by
  intro d hd
  obtain ⟨⟨way, e⟩, hn, rfl⟩ := List.mem_map.1 hd
  rcases List.eq_nil_or_concat way with rfl | ⟨way, around, rfl⟩
  · rfl
  · rw [if_neg (by simp [Nested.decision])]
    refine ⟨_, List.mem_map_of_mem (nested_around (by simpa using hn)), ?_, ?_⟩
    · simp [Nested.decision, Decision.path]
    · simp [Nested.decision, Decision.callee, calleeOf, siteOf]

/-- The calls of a method form a tree if no two of them stand at one path. -/
theorem exists_tree?_iff_nested {m : Element} (h : readReport m.inner = .ok r) :
    (∃ t, r.tree? = some t) ↔ ((nested false m.inner).map Nested.path).Nodup := by
  have hdecisions := (readReport_eq_ok h).2
  rw [MethodReport.exists_tree?_iff (hdecisions ▸ supported_nested _ _), hdecisions, List.map_map]
  rfl

/-- The methods of a report are read one by one. -/
theorem readReports_eq (document : Hedge) :
    readReports document = (document.listed "Methods" "Method").mapM fun m => readReport m.inner := by
  rw [readReports, Hedge.listed]
  cases document.find? "Methods" with
  | none => rfl
  | some list => rfl

/-- The identities that are read are those that the elements carry, in their order. -/
theorem roots_of_read {ms : List Element} {rs : List MethodReport}
    (h : (ms.mapM fun m => readReport m.inner) = .ok rs) : rs.map (·.root) = ms.map identityOf := by
  induction ms generalizing rs with
  | nil =>
    obtain rfl := Except.ok.inj h
    rfl
  | cons m ms ih =>
    rw [List.mapM_cons] at h
    obtain ⟨r, hr, h⟩ := exists_of_bind_eq_ok h
    obtain ⟨rs, hrs, h⟩ := exists_of_bind_eq_ok h
    obtain rfl := Except.ok.inj h
    rw [List.map_cons, List.map_cons, (readReport_eq_ok hr).1, ih hrs]

/-- A tree is that of one of the methods, with the calls that are nested there. -/
theorem exists_of_mem_trees {ms : List Element} {rs : List MethodReport}
    (h : (ms.mapM fun m => readReport m.inner) = .ok rs) {t : Tree} (ht : t ∈ (ofReports rs).trees) :
    ∃ m ∈ ms, identityOf m = t.root ∧
      t.decisions.Perm ((nested false m.inner).map (Nested.decision t.root [])) := by
  obtain ⟨r, hr, -, ht⟩ := mem_trees_ofReports.1 ht
  obtain ⟨m, hm, hread⟩ := exists_of_mem_mapM h r hr
  obtain ⟨hroot, hdecisions⟩ := readReport_eq_ok hread
  obtain ⟨-, htroot, hperm⟩ := MethodReport.tree?_eq_some_iff.1 ht
  rw [htroot, hroot]
  exact ⟨m, hm, rfl, hdecisions ▸ hperm⟩

theorem classifies_ofReports {ms : List Element} {rs : List MethodReport}
    (h : (ms.mapM fun m => readReport m.inner) = .ok rs) : (ofReports rs).Classifies ms := by
  have hroots : rs.map (·.root) = ms.map identityOf := roots_of_read h
  constructor
  case identities => exact hroots ▸ roots_append_ambiguous rs
  case records => exact keys_records rs
  case roots =>
    intro root
    rw [mem_roots_ofReports, hroots]
    constructor
    · rintro ⟨r, hr, rfl, hone, hformed⟩
      obtain ⟨m, hm, hread⟩ := exists_of_mem_mapM h r hr
      exact ⟨m, hm, (readReport_eq_ok hread).1.symm, hone, (exists_tree?_iff_nested hread).1 hformed⟩
    · rintro ⟨m, hm, rfl, hone, hpaths⟩
      obtain ⟨r, hr, hread⟩ := exists_of_mapM_eq_ok h m hm
      exact ⟨r, hr, (readReport_eq_ok hread).1, hone, (exists_tree?_iff_nested hread).2 hpaths⟩
  case decisions => exact fun t ht => exists_of_mem_trees h ht
  case callers =>
    intro t ht d hd
    obtain ⟨m, -, -, hperm⟩ := exists_of_mem_trees h ht
    have hcaller := caller_nested t.root m.inner d (hperm.mem_iff.1 hd)
    split
    · rename_i habove
      rwa [if_pos habove] at hcaller
    · rename_i habove
      rw [if_neg habove] at hcaller
      obtain ⟨e, he, hpath⟩ := hcaller
      exact ⟨e, hperm.mem_iff.2 he, hpath⟩

end Reports

/-- A forest that was read classifies the methods in the first list of the report, and gives them the trees
of their nested calls. -/
theorem read_classifies {log : List Char} {f : Forest} (h : read log = .ok f) :
    ∃ s document, excerpt? log = some s ∧ Markup.readDocument? s = some document ∧
      f.Classifies (document.inner.listed "Methods" "Method") ∧
      (∀ n : Int, hasReadableSize n → numberOf (some (toString n)) = n) ∧
      (∀ width n : Nat, numberOf (some (String.ofList ('0' :: 'x' :: Text.hexWide width n))) = n) ∧
      numberOf none = 0 := by
  obtain ⟨s, document, rs, hs, hdocument, hrs, rfl⟩ := read_eq_ok_iff.1 h
  refine ⟨s, document, hs, hdocument, classifies_ofReports (readReports_eq _ ▸ hrs), ?_, ?_, rfl⟩
  · exact fun n hn => numberOf_decimal hn
  · exact numberOf_hexadecimal

/-- One identity in two spellings, and another one with a call inside a call. -/
def spelledTwice : List Char :=
  ["<InlineForest><Methods>", "<Method><Token>0x10</Token></Method>",
    "<Method><Token>16</Token><Hash>0</Hash></Method>",
    "<Method><Token>17</Token><Hash>0x1F</Hash><Inlines>",
    "<Inline><MethodToken>5</MethodToken>", "<Offset>1</Offset><Inlines>",
    "<Inline><MethodToken>6</MethodToken>", "<Offset>2</Offset></Inline>", "</Inlines></Inline></Inlines>",
    "</Method></Methods></InlineForest>"].flatMap String.toList

theorem read_classifies_spelledTwice : ∃ f s document, read spelledTwice = .ok f ∧
    excerpt? spelledTwice = some s ∧ Markup.readDocument? s = some document ∧
    f.Classifies (document.inner.listed "Methods" "Method") := by
  obtain ⟨f, hf⟩ := exists_of_isOk (show (read spelledTwice).isOk = true by decide +kernel)
  obtain ⟨s, document, hs, hdocument, hclassified, -⟩ := read_classifies hf
  exact ⟨f, s, document, hf, hs, hdocument, hclassified⟩

end InlineImpact.Forest
