import InlineImpact.Proofs.Outcome
import InlineImpact.Replay
import Std.Data.String.ToInt

/-!
Which configuration a tree is replayed under. Its name is none of the names of the models, and the
written form that the name stands for tells root and size of the tree.
-/
namespace InlineImpact

section Numerals

theorem isDigit_or_eq_minus {n : Int} {c : Char} (h : c ∈ (toString n).toList) :
    c.isDigit ∨ c = '-' := by
  cases n with
  | ofNat m =>
    have h : c ∈ m.repr.toList := h
    rw [Nat.toList_repr] at h
    exact .inl (Nat.isDigit_of_mem_toDigits (by decide) (by decide) h)
  | negSucc m =>
    have h : c ∈ ("-" ++ (m + 1).repr).toList := h
    rw [String.toList_append, List.mem_append, Nat.toList_repr] at h
    rcases h with h | h
    · exact .inr (by simpa using h)
    · exact .inl (Nat.isDigit_of_mem_toDigits (by decide) (by decide) h)

/-- No character of a number has a meaning in markup. -/
theorem escapeChar_of_mem_toString {n : Int} {c : Char} (h : c ∈ (toString n).toList) :
    c ≠ '<' ∧ Markup.escapeChar c = [c] := by
  have hne : ∀ e : Char, e.isDigit = false → e ≠ '-' → c ≠ e := by
    rintro e he he' rfl
    rcases isDigit_or_eq_minus h with hd | hd
    · simp [he] at hd
    · exact he' hd
  refine ⟨hne '<' (by decide) (by decide), ?_⟩
  rw [Markup.escapeChar]
  · exact hne '&' (by decide) (by decide)
  · exact hne '<' (by decide) (by decide)
  · exact hne '>' (by decide) (by decide)

theorem toString_toList_ne_nil (n : Int) : (toString n).toList ≠ [] := by
  cases n with
  | ofNat m =>
    change m.repr.toList ≠ []
    rw [Nat.toList_repr]
    exact Nat.toDigits_ne_nil
  | negSucc m =>
    change ("-" ++ (m + 1).repr).toList ≠ []
    simp

end Numerals

open Markup in
theorem writeHedge_number (level : Nat) (tag : String) (n : Int) (rest : Hedge) :
    writeHedge level (.element tag (toString n) .empty rest) = lineAt level ++ openTag tag.toList ++
      ((toString n).toList ++ (closeTag tag.toList ++ writeHedge level rest)) := by
  have hescape : (toString n).toList.flatMap escapeChar = (toString n).toList := by
    have hplain : ∀ c ∈ (toString n).toList, escapeChar c = [c] := fun c hc =>
      (escapeChar_of_mem_toString hc).2
    generalize (toString n).toList = cs at hplain
    induction cs with
    | nil => rfl
    | cons c cs ih =>
      obtain ⟨hc, hcs⟩ := List.forall_mem_cons.1 hplain
      rw [List.flatMap_cons, hc, ih hcs]
      rfl
  have hne : (toString n).isEmpty = false := by
    rw [Bool.eq_false_iff]
    intro h
    exact toString_toList_ne_nil n (by simpa [String.isEmpty_iff] using h)
  simp only [writeHedge, hne, hescape, Bool.false_eq_true, ↓reduceIte, List.append_assoc]

open Markup in
theorem writeHedge_inner (level : Nat) (tag text tag' text' : String) (inner rest rest' : Hedge) :
    writeHedge level (.element tag text (.element tag' text' inner rest') rest) =
      lineAt level ++ openTag tag.toList ++
        (writeHedge (level + 1) (.element tag' text' inner rest') ++
          (lineAt level ++ closeTag tag.toList ++ writeHedge level rest)) := by
  rw [writeHedge]
  simp only [List.append_assoc]

/-- Up to the first mark, two texts are the same. -/
theorem append_mark_inj {mark : Char} {x y p q : List Char} (hx : mark ∉ x) (hy : mark ∉ y)
    (h : x ++ mark :: p = y ++ mark :: q) : x = y ∧ p = q := by
  induction x generalizing y with
  | nil =>
    cases y with
    | nil => exact ⟨rfl, (List.cons_eq_cons.1 h).2⟩
    | cons c y =>
      obtain ⟨rfl, -⟩ := List.cons_eq_cons.1 h
      simp at hy
  | cons c x ih =>
    cases y with
    | nil =>
      obtain ⟨rfl, -⟩ := List.cons_eq_cons.1 h
      simp at hx
    | cons c' y =>
      obtain ⟨rfl, hrest⟩ : c = c' ∧ x ++ mark :: p = y ++ mark :: q := List.cons_eq_cons.1 h
      obtain ⟨rfl, rfl⟩ := ih (fun hc => hx (.tail _ hc)) (fun hc => hy (.tail _ hc)) hrest
      exact ⟨rfl, rfl⟩

namespace Replay

section Content

open Markup

/-- What stands in a written form before the root's token. -/
def opening : List Char :=
  openTag "InlineForest".toList ++ lineAt 1 ++ openTag "Methods".toList ++ lineAt 2 ++
    openTag "Method".toList ++ lineAt 3 ++ openTag "Token".toList

/-- What stands between two numbers. -/
def between (tag tag' : String) : List Char :=
  '/' :: (tag.toList ++ ['>']) ++ lineAt 3 ++ openTag tag'.toList

theorem dumpText_of_content {t : Tree} {text : String} (h : content t = .ok text) :
    Forest.dumpText [t] = text := by
  unfold content Forest.dump? at h
  generalize [t].all (fun t => t.numbers.all Forest.hasReadableSize) = readable at h
  cases readable with
  | false => cases h
  | true => exact Except.ok.inj h

/-- A written form begins with the root's identity and the size of the tree. -/
theorem exists_dumpText_eq (t : Tree) :
    ∃ rest, (Forest.dumpText [t]).toList = opening ++ ((toString t.root.token).toList ++
      '<' :: (between "Token" "Hash" ++ ((toString t.root.hash).toList ++
        '<' :: (between "Hash" "InlineCount" ++ ((toString (t.size : Int)).toList ++ '<' :: rest))))) := by
  simp only [Forest.dumpText, List.mergeSort_singleton, List.map_cons, List.map_nil, Tree.element,
    Tree.numberLeaf, List.cons_append, List.nil_append, Hedge.ofList, Hedge.node, writeDocument,
    String.toList_ofList]
  simp only [writeHedge_inner, writeHedge_number, closeTag, List.cons_append]
  have hdrop (cs : List Char) : List.drop 1 (lineAt 0 ++ cs) = cs := rfl
  simp only [opening, between, List.append_assoc, List.cons_append, hdrop]
  exact ⟨_, rfl⟩

theorem root_and_size_eq_of_content_eq {t t' : Tree} {text : String} (h : content t = .ok text)
    (h' : content t' = .ok text) : t.root = t'.root ∧ t.size = t'.size := by
  obtain ⟨rest, hr⟩ := exists_dumpText_eq t
  obtain ⟨rest', hr'⟩ := exists_dumpText_eq t'
  rw [dumpText_of_content h] at hr
  rw [dumpText_of_content h', hr] at hr'
  have hnot (n : Int) : '<' ∉ (toString n).toList := fun hc => (escapeChar_of_mem_toString hc).1 rfl
  obtain ⟨htoken, hr'⟩ := append_mark_inj (hnot _) (hnot _) (List.append_cancel_left hr')
  obtain ⟨hhash, hr'⟩ := append_mark_inj (hnot _) (hnot _) (List.append_cancel_left hr')
  obtain ⟨hsize, -⟩ := append_mark_inj (hnot _) (hnot _) (List.append_cancel_left hr')
  have hinj {m n : Int} (h : (toString m).toList = (toString n).toList) : m = n :=
    Int.repr_injective (String.toList_inj.1 h)
  refine ⟨?_, Int.ofNat.inj (hinj hsize)⟩
  change (⟨t.root.token, t.root.hash⟩ : MethodId) = ⟨t'.root.token, t'.root.hash⟩
  rw [hinj htoken, hinj hhash]

end Content

theorem configurationOf_of_prepare {ws ws' : Workspace} {t : Tree} {resultsDir : String}
    {c : Configuration} (h : prepare ws t resultsDir = .ok (c, ws')) :
    configurationOf t resultsDir = .ok c := by
  obtain ⟨text, ht, h⟩ := exists_of_bind_eq_ok h
  obtain ⟨ws₁, -, h⟩ := exists_of_bind_eq_ok h
  obtain ⟨current, -, h⟩ := exists_of_bind_eq_ok h
  have hc : configuration (targetDir resultsDir) (nameFor t text) = c := by
    cases current with
    | true => exact congrArg Prod.fst (Except.ok.inj h)
    | false =>
      obtain ⟨ws₂, -, h⟩ := exists_of_bind_eq_ok h
      exact congrArg Prod.fst (Except.ok.inj h)
  rw [configurationOf, name, ht, ← hc]
  rfl

/-- The configuration bears the name of the replay. -/
theorem name_of_configurationOf {t : Tree} {resultsDir : String} {c : Configuration}
    (h : configurationOf t resultsDir = .ok c) : name t = .ok c.name := by
  rw [configurationOf] at h
  cases hn : name t with
  | error f =>
    rw [hn] at h
    cases h
  | ok n =>
    rw [hn] at h
    rw [← Except.ok.inj h]
    rfl

theorem exists_content_of_name {t : Tree} {n : String} (h : name t = .ok n) :
    ∃ text, content t = .ok text ∧ nameFor t text = n := by
  rw [name] at h
  cases hc : content t with
  | error f =>
    rw [hc] at h
    cases h
  | ok text =>
    rw [hc] at h
    exact ⟨text, rfl, Except.ok.inj h⟩

theorem content_of_name {t : Tree} {failure : Failure} (h : name t = .error failure) :
    content t = .error failure := by
  rw [name] at h
  cases hc : content t with
  | error f =>
    rw [hc] at h
    exact congrArg _ (Except.error.inj h)
  | ok text =>
    rw [hc] at h
    cases h

/-- The name tells the size of a tree, whatever the digest is. -/
theorem size_eq_of_name_eq {t t' : Tree} {n : String} (hroot : t.root = t'.root) (h : name t = .ok n)
    (h' : name t' = .ok n) : t.size = t'.size := by
  obtain ⟨text, -, hn⟩ := exists_content_of_name h
  obtain ⟨text', -, hn'⟩ := exists_content_of_name h'
  have heq := congrArg String.toList (hn.trans hn'.symm)
  simp only [nameFor, hroot, String.toList_append, List.append_assoc] at heq
  have heq := List.append_cancel_left (List.append_cancel_left (List.append_cancel_left heq))
  have hnot (k : Nat) : '-' ∉ (toString k).toList := by
    rw [show toString k = k.repr from rfl, Nat.toList_repr]
    exact fun hc => by simpa using Nat.isDigit_of_mem_toDigits (by decide) (by decide) hc
  have hsize := (append_mark_inj (hnot _) (hnot _) heq).1
  exact Nat.repr_injective (String.toList_inj.1 hsize)

/-- No replay is taken for the full model. -/
theorem name_ne_full {t : Tree} : name t ≠ .ok "full" := by
  intro h
  obtain ⟨text, -, hn⟩ := exists_content_of_name h
  have := congrArg (fun s => s.toList.head?) hn
  simp [nameFor] at this

end Replay

end InlineImpact
