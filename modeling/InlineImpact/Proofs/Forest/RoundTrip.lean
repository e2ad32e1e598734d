import InlineImpact.Forest.Dump
import InlineImpact.Proofs.Forest
import InlineImpact.Proofs.Forest.Excerpt
import InlineImpact.Proofs.MethodId
import InlineImpact.Proofs.Tree.Listing

/-!
Forests survive being written. The elements of a report that is read again are those that were written,
and the decisions, listed by nesting, make the trees again.
-/
namespace InlineImpact

open Markup

namespace Forest

section Numbers

/-- No number in base ten has the mark of base sixteen. -/
theorem readMarked_of_mem_toString (cs : List Char) : (∀ c ∈ cs, 45 ≤ c.toNat ∧ c.toNat ≤ 57) →
    (match cs with
      | '0' :: 'x' :: _ => Text.readHex? cs
      | '0' :: 'X' :: _ => Text.readHex? cs
      | _ => Text.readInt? cs) = Text.readInt? cs := by
  intro h
  split
  · exact absurd (h 'x' (.tail _ (.head _))).2 (by decide)
  · exact absurd (h 'X' (.tail _ (.head _))).2 (by decide)
  · rfl

theorem readInteger_toString {n : Int} (h : hasReadableSize n) (field : String) :
    readInteger field (some (toString n)) = .ok n := by
  have hread := (readMarked_of_mem_toString _ fun c hc => @Text.toNat_of_mem_toString n c hc).trans
    (Text.readInt?_toString (of_decide_eq_true h))
  simp only [readInteger, Option.getD_some, Text.trim_toString, List.isEmpty_iff, toString_toList_ne_nil,
    if_false]
  split
  · rename_i m hm
    exact congrArg Except.ok (Option.some.inj (hm.symm.trans hread))
  · rename_i hm
    cases hm.symm.trans hread

theorem readOptional_toString {n : Int} (h : hasReadableSize n) (field : String) :
    readOptional field (some (toString n)) = .ok n := by
  have hne : (toString n).isEmpty = false := by
    rw [Bool.eq_false_iff]
    exact fun he => toString_toList_ne_nil n (by simpa [String.isEmpty_iff] using he)
  rw [readOptional, Option.getD_some, hne, if_neg (by decide), readInteger_toString h]

theorem readField_of_textOf {inner : Hedge} {tag : String} {n : Int} (h : hasReadableSize n)
    (htext : inner.textOf? tag = some (toString n)) : readField inner tag = .ok n := by
  have hne : (Text.trim (toString n).toList).isEmpty = false := by
    rw [Text.trim_toString, List.isEmpty_eq_false_iff]
    exact toString_toList_ne_nil n
  simp only [readField, htext, Option.getD_some, hne, Bool.false_eq_true, if_false,
    readInteger_toString h]

theorem readField_of_missing {inner : Hedge} {tag : String} (h : inner.textOf? tag = none) :
    readField inner tag = .ok 0 := by
  rw [readField, h]
  rfl

end Numbers

end Forest

namespace Tree

/-- The element of a decision. -/
def decisionElement (t : Tree) (levels : Nat) (d : Decision) : Element :=
  ⟨"Inline", "", .ofList ([numberLeaf "MethodToken" d.site.token, numberLeaf "Hash" d.calleeHash,
    numberLeaf "Offset" d.site.offset] ++ t.inlinesBelow levels d.path)⟩

/-- The list of the decisions below a path as it is read again. -/
def inlinesAt (t : Tree) (levels : Nat) (p : CallPath) (level : Nat) : Hedge :=
  (Hedge.ofList (t.inlinesBelow levels p)).laidOut level

variable {t : Tree} {p : CallPath} (levels level : Nat)

theorem inlinesAt_of_nil (h : t.below p = []) : t.inlinesAt (levels + 1) p level = .empty := by
  rw [inlinesAt, inlinesBelow, h]
  rfl

theorem inlinesAt_of_ne_nil (h : t.below p ≠ []) : t.inlinesAt (levels + 1) p level =
    .element "Inlines" (String.ofList (lineAt (level + 1)))
      ((Hedge.ofList ((t.below p).map (t.decisionElement levels))).laidOut (level + 1)) .empty := by
  rw [inlinesAt, inlinesBelow]
  cases hds : t.below p with
  | nil => exact (h hds).elim
  | cons d ds => rfl

theorem tag_of_mem_inlinesAt {e : Element} (he : e ∈ (t.inlinesAt levels p level).toList) : e.tag = "Inlines" := by
  cases levels with
  | zero => cases he
  | succ levels =>
    by_cases h : t.below p = []
    · rw [inlinesAt_of_nil levels level h] at he
      cases he
    · rw [inlinesAt_of_ne_nil levels level h, Hedge.toList, Hedge.toList, List.mem_singleton] at he
      rw [he]

theorem inlinesBelow_bare (t : Tree) (levels : Nat) (p : CallPath) :
    t.bare.inlinesBelow levels p = t.inlinesBelow levels p := by
  induction levels generalizing p with
  | zero => rfl
  | succ levels ih =>
    rw [inlinesBelow, inlinesBelow, below_bare]
    cases t.below p with
    | nil => rfl
    | cons d ds =>
      simp only [List.map_cons, List.map_map, ih]
      rfl

theorem element_bare (t : Tree) : t.bare.element = t.element := by
  have hsize : t.bare.size = t.size := List.length_map _
  rw [element, element, inlinesBelow_bare, hsize]
  rfl

theorem numbers_bare (t : Tree) : t.bare.numbers = t.numbers := by
  rw [numbers, numbers, bare, List.flatMap_map]
  rfl

end Tree

namespace Forest

open Tree

section Decisions

variable {t : Tree} {d : Decision}

/-- The numbers of a decision in front of what is inside it. -/
def numbered (d : Decision) (k : Hedge) : Hedge :=
  .element "MethodToken" (toString d.site.token) .empty (.element "Hash" (toString d.calleeHash) .empty
    (.element "Offset" (toString d.site.offset) .empty k))

theorem readable_of_mem (h : ∀ n ∈ t.numbers, hasReadableSize n) (hd : d ∈ t.decisions) :
    hasReadableSize d.site.token ∧ hasReadableSize d.calleeHash ∧ hasReadableSize d.site.offset := by
  have hmem : ∀ n ∈ [d.site.token, d.calleeHash, d.site.offset], hasReadableSize n := fun n hn =>
    h n (.tail _ (.tail _ (List.mem_flatMap.2 ⟨d, hd, hn⟩)))
  exact ⟨hmem _ (.head _), hmem _ (.tail _ (.head _)), hmem _ (.tail _ (.tail _ (.head _)))⟩

theorem featuresOf_numbered {k : Hedge} (hk : ∀ e ∈ k.toList, e.tag = "Inlines") : featuresOf (numbered d k) = [] := by
  have hstructural : ∀ e ∈ (numbered d k).toList, structuralTags.contains e.tag = true ∧ e.tag ≠ "Data" := by
    simp only [numbered, Hedge.toList, List.forall_mem_cons]
    refine ⟨by decide, by decide, by decide, fun e he => ?_⟩
    rw [hk e he]
    decide
  have hbeside : ((numbered d k).toList.filter fun e => !structuralTags.contains e.tag && e.inner.isEmpty) = [] :=
    List.filter_eq_nil_iff.2 fun e he => by
      simp only [(hstructural e he).1, Bool.not_true, Bool.false_and, Bool.false_eq_true, not_false_iff]
  have hdata : (numbered d k).find? "Data" = none :=
    List.find?_eq_none.2 fun e he => by simpa using (hstructural e he).2
  rw [featuresOf, hbeside, hdata]
  rfl

theorem readDecision_numbered (h : ∀ n ∈ t.numbers, hasReadableSize n) (hd : d ∈ t.decisions) {k : Hedge}
    (hk : ∀ e ∈ k.toList, e.tag = "Inlines") :
    readDecision (t.callerOf d.above) d.above (numbered d k) = .ok (t.plain d) := by
  obtain ⟨htoken, hhash, hoffset⟩ := readable_of_mem h hd
  have htokenText : (numbered d k).textOf? "MethodToken" = some (toString d.site.token) := rfl
  have hhashText : (numbered d k).textOf? "Hash" = some (toString d.calleeHash) := rfl
  have hoffsetText : (numbered d k).textOf? "Offset" = some (toString d.site.offset) := rfl
  have hreason : (numbered d k).textOf? "Reason" = none := by
    have : k.toList.find? (fun e => decide (e.tag = "Reason")) = none := List.find?_eq_none.2 fun e he => by
      rw [hk e he]
      decide
    simp [numbered, Hedge.textOf?, Hedge.find?, Hedge.toList, this]
  rw [readDecision, htokenText, hhashText, hoffsetText, hreason, readInteger_toString htoken,
    readInteger_toString hoffset, readOptional_toString hhash, featuresOf_numbered hk]
  rfl

theorem readDecisions_numbered (d : Decision) (caller : MethodId) (p : CallPath) (k : Hedge) :
    readDecisions false caller p (numbered d k) = readDecisions false caller p k := by
  simp [numbered, readDecisions]

theorem readDecisions_inline {caller : MethodId} {p : CallPath} {text : String} {inner rest : Hedge} {d : Decision}
    {inside others : List Decision} (hd : readDecision caller p inner = .ok d)
    (hinside : readDecisions false d.callee d.path inner = .ok inside)
    (hothers : readDecisions true caller p rest = .ok others) :
    readDecisions true caller p (.element "Inline" text inner rest) = .ok (d :: (inside ++ others)) := by
  rw [readDecisions, if_pos rfl, if_pos rfl, hd]
  show (readDecisions false d.callee d.path inner >>= fun inside => _) = _
  rw [hinside, hothers]
  rfl

/-- The decisions of one list, each with those inside it. -/
theorem readDecisions_list (h : ∀ n ∈ t.numbers, hasReadableSize n) {p : CallPath} {levels : Nat}
    (hinside : ∀ p level, readDecisions false (t.callerOf p) p (t.inlinesAt levels p level) =
      .ok ((t.preorder levels p).map t.plain))
    {ds : List Decision} (hds : ∀ d ∈ ds, d ∈ t.decisions ∧ d.above = p) (level : Nat) :
    readDecisions true (t.callerOf p) p ((Hedge.ofList (ds.map (t.decisionElement levels))).laidOut level) =
      .ok ((ds.flatMap fun d => d :: t.preorder levels d.path).map t.plain) := by
  induction ds with
  | nil => rfl
  | cons d ds ih =>
    obtain ⟨⟨hd, rfl⟩, hds⟩ := List.forall_mem_cons.1 hds
    have hfirst := readDecision_numbered h hd fun e =>
      @tag_of_mem_inlinesAt t d.path levels (level + 1) e
    have hbelow := (readDecisions_numbered d (t.callerOf d.path) d.path _).trans (hinside d.path (level + 1))
    rw [callerOf_path hd] at hbelow
    rw [List.flatMap_cons, List.map_append]
    exact readDecisions_inline hfirst hbelow (ih hds)

/-- The decisions below a path are read in the order of the listing. -/
theorem readDecisions_inlinesAt (h : ∀ n ∈ t.numbers, hasReadableSize n) (levels : Nat) (p : CallPath)
    (level : Nat) : readDecisions false (t.callerOf p) p (t.inlinesAt levels p level) =
      .ok ((t.preorder levels p).map t.plain) := by
  induction levels generalizing p level with
  | zero => rfl
  | succ levels ih =>
    by_cases hnil : t.below p = []
    · rw [inlinesAt_of_nil levels level hnil, preorder, hnil]
      rfl
    · rw [inlinesAt_of_ne_nil levels level hnil, readDecisions, if_neg (by decide), if_pos rfl, preorder]
      exact readDecisions_list h ih (fun d => mem_below.1) (level + 1)

end Decisions

section Reports

/-- Every number that the written form of a tree holds can be read again. -/
def Readable (t : Tree) : Prop := ∀ n ∈ (t.size : Int) :: t.numbers, hasReadableSize n

variable {t : Tree}

/-- What is read for a tree. -/
def reportOf (t : Tree) : MethodReport :=
  ⟨t.root, { inlineCount := t.size }, (t.preorder t.size []).map t.plain⟩

/-- The numbers of a root method in front of its decisions. -/
def headed (t : Tree) (k : Hedge) : Hedge :=
  .element "Token" (toString t.root.token) .empty (.element "Hash" (toString t.root.hash) .empty
    (.element "InlineCount" (toString (t.size : Int)) .empty k))

theorem laidOut_element (level : Nat) :
    t.element.inner.laidOut level = headed t (t.inlinesAt t.size [] level) := rfl

theorem textOf?_headed {k : Hedge} (hk : ∀ e ∈ k.toList, e.tag = "Inlines") {tag : String}
    (htag : tag ∉ ["Token", "Hash", "InlineCount", "Inlines"]) : (headed t k).textOf? tag = none := by
  have hne : ∀ e ∈ (headed t k).toList, e.tag ∈ ["Token", "Hash", "InlineCount", "Inlines"] := by
    simp only [headed, Hedge.toList, List.forall_mem_cons]
    refine ⟨by decide, by decide, by decide, fun e he => ?_⟩
    rw [hk e he]
    decide
  have hfind : (headed t k).find? tag = none := List.find?_eq_none.2 fun e he => by
    simp only [decide_eq_true_eq]
    rintro rfl
    exact htag (hne e he)
  rw [Hedge.textOf?, hfind]
  rfl

theorem readReport_element (h : Readable t) (level : Nat) :
    readReport (t.element.inner.laidOut level) = .ok (reportOf t) := by
  obtain ⟨hsize, hnumbers⟩ := List.forall_mem_cons.1 h
  have htoken : hasReadableSize t.root.token := hnumbers _ (.head _)
  have hhash : hasReadableSize t.root.hash := hnumbers _ (.tail _ (.head _))
  have hk : ∀ e ∈ (t.inlinesAt t.size [] level).toList, e.tag = "Inlines" := fun e => tag_of_mem_inlinesAt t.size level
  have hmissing {tag : String} (htag : tag ∉ ["Token", "Hash", "InlineCount", "Inlines"]) :=
    readField_of_missing (textOf?_headed (t := t) hk htag)
  have hcount : readField (headed t (t.inlinesAt t.size [] level)) "InlineCount" = .ok (t.size : Int) :=
    readField_of_textOf hsize rfl
  have hdecisions : readDecisions false t.root [] (headed t (t.inlinesAt t.size [] level)) =
      .ok ((t.preorder t.size []).map t.plain) := by
    have := readDecisions_inlinesAt hnumbers t.size [] level
    rw [callerOf_nil] at this
    simpa [headed, readDecisions] using this
  have htokenText : (headed t (t.inlinesAt t.size [] level)).textOf? "Token" = some (toString t.root.token) := rfl
  have hhashText : (headed t (t.inlinesAt t.size [] level)).textOf? "Hash" = some (toString t.root.hash) := rfl
  rw [laidOut_element, readReport, htokenText, hhashText, readInteger_toString htoken,
    readOptional_toString hhash, hcount, hmissing (by decide), hmissing (by decide), hmissing (by decide),
    hmissing (by decide), hmissing (by decide), hmissing (by decide)]
  show (readDecisions false t.root [] _ >>= fun decisions => _) = _
  rw [hdecisions]
  rfl

end Reports

section Texts

/-- The tags inside a report. -/
def reportTags : List String :=
  ["Methods", "Method", "Token", "Hash", "InlineCount", "Inlines", "Inline", "MethodToken", "Offset"]

/-- An element of a report: its tag is one of a few, its text is plain. -/
def Expected (tag text : String) : Prop := tag ∈ reportTags ∧ ∀ c ∈ text.toList, isPlainText c

theorem isPlainText_of_mem_toString {n : Int} {c : Char} (h : c ∈ (toString n).toList) : isPlainText c := by
  have := Text.toNat_of_mem_toString h
  have hreturn : c ≠ '\r' := by
    rintro rfl
    exact absurd this.1 (by decide)
  simp [isPlainText, isMarkupChar, hreturn]
  omega

theorem Expected.isPlainName {tag text : String} (h : Expected tag text) : isPlainName tag.toList := by
  have hall : ∀ tag ∈ reportTags, Markup.isPlainName tag.toList := by decide
  exact hall tag h.1

theorem Expected.ne {tag text : String} (h : Expected tag text) : tag.toList ≠ "InlineForest".toList := by
  have hall : ∀ tag ∈ reportTags, tag.toList ≠ "InlineForest".toList := by decide
  exact hall tag h.1

theorem expected_numberLeaf {tag : String} (h : tag ∈ reportTags) (n : Int) :
    Expected (numberLeaf tag n).tag (numberLeaf tag n).text ∧ (numberLeaf tag n).inner.All Expected :=
  ⟨⟨h, fun _ => isPlainText_of_mem_toString⟩, trivial⟩

theorem expected_node {tag : String} (h : tag ∈ reportTags) : Expected tag "" := ⟨h, by simp⟩

variable {t : Tree}

theorem expected_inlinesBelow (levels : Nat) (p : CallPath) :
    ∀ e ∈ t.inlinesBelow levels p, Expected e.tag e.text ∧ e.inner.All Expected := by
  induction levels generalizing p with
  | zero => simp [inlinesBelow]
  | succ levels ih =>
    cases hds : t.below p with
    | nil => simp [inlinesBelow, hds]
    | cons d ds =>
      have hdecision (d : Decision) : Expected (t.decisionElement levels d).tag (t.decisionElement levels d).text ∧
          (t.decisionElement levels d).inner.All Expected := by
        refine ⟨expected_node (show "Inline" ∈ reportTags by decide), Hedge.all_ofList ?_⟩
        simp only [List.cons_append, List.nil_append, List.forall_mem_cons]
        exact ⟨expected_numberLeaf (by decide) _, expected_numberLeaf (by decide) _,
          expected_numberLeaf (by decide) _, ih d.path⟩
      rw [inlinesBelow, hds]
      simp only [List.forall_mem_singleton]
      refine ⟨expected_node (by decide), Hedge.all_ofList fun e he => ?_⟩
      obtain ⟨d, -, rfl⟩ := List.mem_map.1 he
      exact hdecision d

theorem expected_element (t : Tree) : Expected t.element.tag t.element.text ∧ t.element.inner.All Expected := by
  refine ⟨expected_node (show "Method" ∈ reportTags by decide), Hedge.all_ofList ?_⟩
  simp only [List.cons_append, List.nil_append, List.forall_mem_cons]
  exact ⟨expected_numberLeaf (by decide) _, expected_numberLeaf (by decide) _,
    expected_numberLeaf (by decide) _, expected_inlinesBelow t.size []⟩

/-- The trees in the order in which they are written. -/
def inOrder (ts : List Tree) : List Tree := ts.mergeSort fun a b => MethodId.le a.root b.root

/-- The methods of a report. -/
def methods (ts : List Tree) : Hedge := .node "Methods" (.ofList ((inOrder ts).map Tree.element))

theorem expected_methods (ts : List Tree) : (methods ts).All Expected := by
  refine ⟨expected_node (by decide), Hedge.all_ofList fun e he => ?_, trivial⟩
  obtain ⟨t, -, rfl⟩ := List.mem_map.1 he
  exact expected_element t

theorem dumpText_eq (ts : List Tree) :
    dumpText ts = String.ofList (writeDocument "InlineForest" (methods ts)) := rfl

theorem toList_dumpText (ts : List Tree) :
    (dumpText ts).toList = document "InlineForest" (methods ts) ++ ['\n'] := by
  rw [dumpText_eq, String.toList_ofList, writeDocument_eq rfl]

/-- The methods of a written report are those of the trees, in order. -/
theorem readReports_methods {ts : List Tree} (h : ∀ t ∈ ts, Readable t) :
    readReports ((methods ts).laidOut 1) = .ok ((inOrder ts).map reportOf) := by
  have hlist : (((Hedge.ofList ((inOrder ts).map Tree.element)).laidOut 2).findAll "Method") =
      (inOrder ts).map fun t => t.element.laidOut 2 := by
    rw [Hedge.findAll, Hedge.toList_laidOut_ofList, List.map_map, List.filter_eq_self.2]
    · rfl
    · intro e he
      obtain ⟨t, -, rfl⟩ := List.mem_map.1 he
      rfl
  show ((((Hedge.ofList ((inOrder ts).map Tree.element)).laidOut 2).findAll "Method").mapM
    fun e => readReport e.inner) = _
  rw [hlist, List.mapM_map]
  exact mapM_eq_ok fun t ht => readReport_element (h t ((List.mergeSort_perm _ _).mem_iff.1 ht)) 3

/-- A written report is read as the reports of its trees. -/
theorem read_dumpText {ts : List Tree} (h : ∀ t ∈ ts, Readable t) :
    read (dumpText ts).toList = .ok (ofReports ((inOrder ts).map reportOf)) := by
  have hexpected := expected_methods ts
  have hexcerpt := excerpt?_document (hexpected.imp fun _ _ h => ⟨h.isPlainName, h.ne⟩) ['\n']
  have hdocument : readDocument? (document "InlineForest" (methods ts)) = _ :=
    readDocument?_document (by decide) (hexpected.imp fun _ _ h => ⟨h.isPlainName, h.2⟩) rfl
  rw [read, toList_dumpText, hexcerpt]
  simp only [hdocument, readReports_methods h]
  rfl

end Texts

end Forest

/-- A tree that was read again: the decisions are those of `t`, and each knows what it is inlined into. -/
structure Tree.Regained (t t' : Tree) : Prop where
  root : t'.root = t.root
  keys : t'.decisions.map Decision.key = t.decisions.map Decision.key
  callers : ∀ d ∈ t'.decisions, if d.above = [] then d.caller = some t.root
    else ∃ e ∈ t'.decisions, e.path = d.above ∧ d.caller = some e.callee

theorem Tree.regained_bare (t : Tree) : t.Regained t.bare where
  root := rfl
  keys := by
    show (t.decisions.map t.plain).map Decision.key = _
    rw [List.map_map]
    rfl
  callers := by
    intro d hd
    obtain ⟨e, he, rfl⟩ := List.mem_map.1 hd
    split
    · rename_i htop
      show some (t.callerOf e.above) = some t.root
      rw [show e.above = [] from htop, callerOf_nil]
    · rename_i hinside
      obtain ⟨parent, hparent, hpath⟩ := (t.supported e he).resolve_left hinside
      refine ⟨t.plain parent, List.mem_map_of_mem hparent, hpath, ?_⟩
      show some (t.callerOf e.above) = some parent.callee
      rw [← hpath, callerOf_path hparent]

namespace Forest

section Roots

variable {ts : List Tree}

theorem perm_inOrder (ts : List Tree) : (inOrder ts).Perm ts := List.mergeSort_perm _ _

theorem pairwise_inOrder (ts : List Tree) : (inOrder ts).Pairwise fun a b => MethodId.le a.root b.root :=
  List.pairwise_mergeSort (fun a b c => MethodId.le_trans a.root b.root c.root)
    (fun a b => MethodId.le_total a.root b.root) ts

/-- The order of trees with different roots leaves no trace. -/
theorem dump?_of_perm {us : List Tree} (hroots : (ts.map Tree.root).Nodup) (h : us.Perm ts) :
    dump? us = dump? ts := by
  have horder : inOrder us = inOrder ts := by
    refine (((perm_inOrder us).trans h).trans (perm_inOrder ts).symm).eq_of_pairwise ?_
      (pairwise_inOrder us) (pairwise_inOrder ts)
    intro a b ha hb hab hba
    have hmem : a ∈ ts := h.mem_iff.1 ((perm_inOrder us).mem_iff.1 ha)
    exact List.inj_on_of_nodup_map hroots hmem ((perm_inOrder ts).mem_iff.1 hb) (MethodId.le_antisymm hab hba)
  have htext : dumpText us = dumpText ts := by
    rw [dumpText_eq, dumpText_eq, methods, methods, horder]
  have hall (p : Tree → Bool) : us.all p = ts.all p := by
    rw [Bool.eq_iff_iff, List.all_eq_true, List.all_eq_true]
    exact forall_congr' fun t => by rw [h.mem_iff]
  rw [dump?, dump?, hall, htext]

theorem dump?_of_readable (h : ∀ t ∈ ts, Readable t) : dump? ts = some (dumpText ts) := by
  rw [dump?, if_pos]
  exact List.all_eq_true.2 fun t ht => List.all_eq_true.2 fun n hn => h t ht n (.tail _ hn)

/-- The root is that of one tree only. -/
def isUnique (ts : List Tree) (root : MethodId) : Bool := (ts.map Tree.root).count root = 1

/-- The trees whose roots are not repeated, in order. -/
def kept (ts : List Tree) : List Tree := (inOrder ts).filter fun t => isUnique ts t.root

theorem mem_kept {t : Tree} : t ∈ kept ts ↔ t ∈ ts ∧ (ts.map Tree.root).count t.root = 1 := by
  rw [kept, List.mem_filter, (perm_inOrder ts).mem_iff, isUnique, decide_eq_true_iff]

theorem tree?_reportOf (t : Tree) : (reportOf t).tree? = some t.bare := by
  have hpaths : (reportOf t).decisions.map Decision.path = (t.preorder t.size []).map Decision.path := by
    rw [reportOf, List.map_map]
    rfl
  have hnodup : ((reportOf t).decisions.map Decision.path).Nodup := by
    rw [hpaths]
    exact (t.preorder_perm.map _).nodup_iff.2 t.nodup_paths
  have htree : Tree.ofDecisions t.root (reportOf t).decisions = .ok t.bare :=
    Tree.ofDecisions_of_perm (t := t.bare) (t.preorder_perm.map t.plain)
  rw [MethodReport.tree?, if_pos hnodup, show (reportOf t).root = t.root from rfl, htree]
  rfl

theorem countP_reportOf (ts : List Tree) (root : MethodId) :
    ((inOrder ts).map reportOf).countP (·.root = root) = (ts.map Tree.root).count root := by
  rw [List.countP_map, List.count, List.countP_map, (perm_inOrder ts).countP_eq]
  rfl

theorem accepted_reportOf (ts : List Tree) : accepted ((inOrder ts).map reportOf) =
    (kept ts).map fun t => (t.bare, { inlineCount := t.size }) := by
  have hkept (g : Tree → Tree × MethodRecord) : (kept ts).map g =
      (inOrder ts).filterMap fun t => if isUnique ts t.root then some (g t) else none := by
    rw [kept, ← List.filterMap_eq_map, List.filterMap_filter]
    rfl
  rw [hkept, accepted, List.filterMap_map]
  refine List.filterMap_congr fun t _ => ?_
  simp only [Function.comp_apply, show (reportOf t).root = t.root from rfl, countP_reportOf, isUnique,
    decide_eq_true_iff]
  split
  · rw [tree?_reportOf]
    rfl
  · rfl

/-- The forest that is read again. -/
def regained (ts : List Tree) : Forest where
  trees := (kept ts).map Tree.bare
  records := (kept ts).map fun t => (t.root, { inlineCount := t.size })
  ambiguous := MethodId.sort (((inOrder ts).map Tree.root).filter fun root => !((kept ts).map Tree.root).contains root)

theorem ofReports_reportOf (ts : List Tree) : ofReports ((inOrder ts).map reportOf) = regained ts := by
  have hsorted : ((kept ts).map fun t => (t.bare, ({ inlineCount := t.size } : MethodRecord))).mergeSort
      (fun a b => MethodId.le a.1.root b.1.root) = (kept ts).map fun t => (t.bare, { inlineCount := t.size }) :=
    List.mergeSort_of_pairwise (List.pairwise_map.2 ((pairwise_inOrder ts).filter _))
  simp only [ofReports, accepted_reportOf, hsorted, List.map_map]
  rfl

theorem roots_regained (ts : List Tree) : (regained ts).roots = (kept ts).map Tree.root := by
  rw [roots, regained, List.map_map]
  rfl

theorem mem_roots_regained {root : MethodId} :
    root ∈ (regained ts).roots ↔ (ts.map Tree.root).count root = 1 := by
  rw [roots_regained, List.mem_map]
  constructor
  · rintro ⟨t, ht, rfl⟩
    exact (mem_kept.1 ht).2
  · intro hone
    obtain ⟨t, ht, rfl⟩ := List.mem_map.1 (List.count_pos_iff.1 (by omega : 0 < (ts.map Tree.root).count root))
    exact ⟨t, mem_kept.2 ⟨ht, hone⟩, rfl⟩

theorem mem_ambiguous_regained {root : MethodId} :
    root ∈ (regained ts).ambiguous ↔ 2 ≤ (ts.map Tree.root).count root := by
  have hkept : root ∈ (kept ts).map Tree.root ↔ (ts.map Tree.root).count root = 1 := by
    rw [← roots_regained, mem_roots_regained]
  have hlisted : root ∈ (inOrder ts).map Tree.root ↔ 0 < (ts.map Tree.root).count root := by
    rw [((perm_inOrder ts).map _).mem_iff, List.count_pos_iff]
  rw [regained, MethodId.sort, List.mem_mergeSort, List.mem_eraseDups, List.mem_filter, hlisted,
    Bool.not_eq_true', ← Bool.not_eq_true, List.contains_iff_mem, hkept]
  omega

/-- Two trees have the same root only if the root is repeated. -/
theorem eq_of_count_eq_one {t u : Tree} (ht : t ∈ ts) (hu : u ∈ ts) (hroot : u.root = t.root)
    (hone : (ts.map Tree.root).count t.root = 1) : u = t := by
  have hlength : (ts.filter fun v => v.root = t.root).length = 1 := by
    rw [← hone, List.count, List.countP_map, List.countP_eq_length_filter]
    rfl
  obtain ⟨v, hv⟩ := List.length_eq_one_iff.1 hlength
  have hsingle {w : Tree} (hw : w ∈ ts) (hr : w.root = t.root) : w = v :=
    List.mem_singleton.1 (hv ▸ List.mem_filter.2 ⟨hw, decide_eq_true hr⟩)
  rw [hsingle hu hroot, hsingle ht rfl]

theorem eq_of_mem_kept {t u : Tree} (ht : t ∈ ts) (hone : (ts.map Tree.root).count t.root = 1) (hu : u ∈ kept ts)
    (hroot : u.root = t.root) : u = t :=
  eq_of_count_eq_one ht (mem_kept.1 hu).1 hroot hone

theorem tree_regained {t : Tree} (ht : t ∈ ts) (hone : (ts.map Tree.root).count t.root = 1) :
    (regained ts).tree t.root = .ok t.bare := by
  have hambiguous : (regained ts).ambiguous.contains t.root = false := by
    rw [← Bool.not_eq_true, List.contains_iff_mem, mem_ambiguous_regained]
    omega
  have hsome : ((regained ts).trees.find? (·.root = t.root)).isSome :=
    List.find?_isSome.2 ⟨t.bare, List.mem_map_of_mem (mem_kept.2 ⟨ht, hone⟩), decide_eq_true rfl⟩
  obtain ⟨t', ht'⟩ := Option.isSome_iff_exists.1 hsome
  obtain ⟨u, hu, rfl⟩ := List.mem_map.1 (List.mem_of_find?_eq_some ht')
  have hroot : u.bare.root = t.root := by simpa using List.find?_some ht'
  rw [tree, hambiguous, if_neg (by decide), ht', eq_of_mem_kept ht hone hu hroot]

theorem record?_regained {t : Tree} (ht : t ∈ ts) (hone : (ts.map Tree.root).count t.root = 1) :
    (regained ts).record? t.root = some { inlineCount := t.size } := by
  refine Keyed.get?_of_unique (List.mem_map_of_mem (mem_kept.2 ⟨ht, hone⟩)) fun r hr => ?_
  obtain ⟨u, hu, heq⟩ := List.mem_map.1 hr
  obtain ⟨hroot, rfl⟩ := Prod.mk.inj heq
  rw [eq_of_mem_kept ht hone hu hroot]

theorem kept_perm (hroots : (ts.map Tree.root).Nodup) : (kept ts).Perm ts := by
  have hall : kept ts = inOrder ts := List.filter_eq_self.2 fun t ht =>
    decide_eq_true (List.count_eq_one_of_mem hroots (List.mem_map_of_mem ((perm_inOrder ts).mem_iff.1 ht)))
  rw [hall]
  exact perm_inOrder ts

theorem kept_singleton (t : Tree) : kept [t] = [t] :=
  List.perm_singleton.1 (kept_perm (List.nodup_singleton _))

/-- A tree for itself is all there is in its forest. -/
theorem regained_singleton (t : Tree) :
    regained [t] = ⟨[t.bare], [(t.root, { inlineCount := t.size })], []⟩ := by
  have hnone : (([t] : List Tree).map Tree.root).filter
      (fun root => !(([t] : List Tree).map Tree.root).contains root) = [] := by simp
  rw [regained, kept_singleton, inOrder, List.mergeSort_singleton, hnone, MethodId.sort, List.eraseDups_nil,
    List.mergeSort_nil]
  rfl

theorem dump?_bare (ts : List Tree) : dump? (ts.map Tree.bare) = dump? ts := by
  have horder : inOrder (ts.map Tree.bare) = (inOrder ts).map Tree.bare :=
    (List.map_mergeSort (f := Tree.bare) fun a _ b _ => rfl).symm
  have htext : dumpText (ts.map Tree.bare) = dumpText ts := by
    rw [dumpText_eq, dumpText_eq, methods, methods, horder, List.map_map]
    simp only [Function.comp_def, Tree.element_bare]
  rw [dump?, dump?, htext, List.all_map]
  simp only [Function.comp_def, Tree.numbers_bare]

end Roots

/-- Trees survive being written and read again. -/
theorem read_dump {ts : List Tree} (h : ∀ t ∈ ts, Readable t) :
    ∃ text f, dump? ts = some text ∧ read text.toList = .ok f ∧
      (∀ root, root ∈ f.ambiguous ↔ 2 ≤ (ts.map Tree.root).count root) ∧
      (∀ root, root ∈ f.roots ↔ (ts.map Tree.root).count root = 1) ∧
      (∀ t ∈ ts, (ts.map Tree.root).count t.root = 1 →
        f.record? t.root = some { inlineCount := t.size } ∧ ∃ t', f.tree t.root = .ok t' ∧ t.Regained t') ∧
      ((ts.map Tree.root).Nodup → f.ambiguous = [] ∧ dump? f.trees = some text ∧
        ∀ us : List Tree, us.Perm ts → dump? us = some text) := by
  refine ⟨dumpText ts, regained ts, dump?_of_readable h, ?_, fun _ => mem_ambiguous_regained,
    fun _ => mem_roots_regained, fun t ht hone => ⟨record?_regained ht hone, t.bare, tree_regained ht hone,
      t.regained_bare⟩, fun hroots => ⟨?_, ?_, fun us hus => ?_⟩⟩
  · rw [read_dumpText h, ofReports_reportOf]
  · refine List.eq_nil_iff_forall_not_mem.2 fun root hroot => ?_
    have := List.nodup_iff_count_le_one.1 hroots root
    have := mem_ambiguous_regained.1 hroot
    omega
  · rw [show (regained ts).trees = (kept ts).map Tree.bare from rfl, dump?_bare, dump?_of_perm hroots (kept_perm hroots),
      dump?_of_readable h]
  · rw [dump?_of_perm hroots hus, dump?_of_readable h]

/-- A tree with negative numbers, in which one token is inlined into itself. -/
def recursiveTree : Tree where
  root := ⟨-5, 3⟩
  decisions := [⟨[], ⟨7, -2⟩, -9, none, "hot", [("Depth", .int 1)]⟩, ⟨[⟨7, -2⟩], ⟨-1, -2⟩, 4, none, "", []⟩]
  ordered := by decide
  supported := by decide

/-- Of three trees, two of one root, the third is read again and the others are ambiguous. -/
theorem read_dump_recursiveTree :
    (∀ t ∈ [.empty ⟨1, 0⟩, recursiveTree, .empty ⟨1, 0⟩], Readable t) ∧
      ∃ text f, dump? [.empty ⟨1, 0⟩, recursiveTree, .empty ⟨1, 0⟩] = some text ∧ read text.toList = .ok f ∧
        ⟨1, 0⟩ ∈ f.ambiguous ∧ f.record? ⟨-5, 3⟩ = some { inlineCount := 2 } ∧
        ∃ t', f.tree ⟨-5, 3⟩ = .ok t' ∧ recursiveTree.Regained t' := by
  have hreadable : ∀ t ∈ [.empty ⟨1, 0⟩, recursiveTree, .empty ⟨1, 0⟩], Readable t := by
    unfold Readable
    decide +kernel
  obtain ⟨text, f, hdump, hread, hambiguous, -, htree, -⟩ := read_dump hreadable
  have hregained := htree recursiveTree (.tail _ (.head _)) (by decide)
  exact ⟨hreadable, text, f, hdump, hread, (hambiguous ⟨1, 0⟩).2 (by decide), hregained⟩

end Forest

end InlineImpact
