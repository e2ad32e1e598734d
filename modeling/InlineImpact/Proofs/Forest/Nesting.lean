import InlineImpact.Proofs.Forest.RoundTrip

/-!
The calls that are nested in a report. Each stands in the first list of calls of what is around it, which
is another call or the method itself. A report is read call by call, and a call becomes a decision that
is told by its own element and by those around it.
-/
namespace InlineImpact

open Markup

namespace Markup.Hedge

/-- The items in the first list of a hedge; none where there is no list. -/
def listed (list item : String) (h : Hedge) : List Element :=
  (h.find? list).elim [] (·.inner.findAll item)

variable {tag list item text : String} {inner rest : Hedge}

theorem find?_element_self : find? tag (.element tag text inner rest) = some ⟨tag, text, inner⟩ := by
  simp [find?, toList]

theorem find?_element_of_ne (h : tag ≠ item) : find? item (.element tag text inner rest) = find? item rest := by
  simp [find?, toList, h]

theorem findAll_element_self :
    findAll tag (.element tag text inner rest) = ⟨tag, text, inner⟩ :: findAll tag rest := by
  simp [findAll, toList]

theorem findAll_element_of_ne (h : tag ≠ item) :
    findAll item (.element tag text inner rest) = findAll item rest := by
  simp [findAll, toList, h]

theorem listed_element_self : listed list item (.element list text inner rest) = inner.findAll item := by
  rw [listed, find?_element_self]
  rfl

theorem listed_element_of_ne (h : tag ≠ list) :
    listed list item (.element tag text inner rest) = listed list item rest := by
  rw [listed, find?_element_of_ne h, listed]

end Markup.Hedge

namespace Forest

/-- The value of a numeral in base ten, or in base sixteen after the mark `0x`. -/
def numeral? (s : List Char) : Option Int :=
  match s with
  | '0' :: 'x' :: _ => Text.readHex? s
  | '0' :: 'X' :: _ => Text.readHex? s
  | _ => Text.readInt? s

/-- The number that a text denotes; without a numeral it is zero. -/
def numberOf (text : Option String) : Int := (numeral? (Text.trim (text.getD "").toList)).getD 0

/-- The identity that the element of a method carries. -/
def identityOf (m : Element) : MethodId :=
  ⟨numberOf (m.inner.textOf? "Token"), numberOf (m.inner.textOf? "Hash")⟩

/-- Where the element of a call says that the call stands. -/
def siteOf (e : Element) : CallSite :=
  ⟨numberOf (e.inner.textOf? "Offset"), numberOf (e.inner.textOf? "MethodToken")⟩

/-- The method that the element of a call says is called. -/
def calleeOf (e : Element) : MethodId :=
  ⟨numberOf (e.inner.textOf? "MethodToken"), numberOf (e.inner.textOf? "Hash")⟩

/-- The element of a call, and those of the calls around it, outermost first. -/
structure Nested where
  way : List Element
  element : Element

namespace Nested

def inside (e : Element) (n : Nested) : Nested := ⟨e :: n.way, n.element⟩

def path (n : Nested) : CallPath := n.way.map siteOf ++ [siteOf n.element]

/-- What a call tells about itself, in a method that stands at the path `above`. -/
def decision (caller : MethodId) (above : CallPath) (n : Nested) : Decision where
  above := above ++ n.way.map siteOf
  site := siteOf n.element
  calleeHash := (calleeOf n.element).hash
  caller := some ((n.way.getLast?.map calleeOf).getD caller)
  reason := Text.trimText ((n.element.inner.textOf? "Reason").getD "")
  features := featuresOf n.element.inner

/-- A call inside another one stands at the path of its decision, and is inlined into its callee. -/
theorem decision_inside (caller : MethodId) (above : CallPath) (e : Element) (n : Nested) :
    (n.inside e).decision caller above =
      n.decision (calleeOf e) (decision caller above ⟨[], e⟩).path := by
  simp [decision, inside, Decision.path, List.getLast?_cons, Option.getD_map]

end Nested

/-- The calls that are nested in a hedge, each in front of those inside it. With `listed` the hedge is
the list itself, otherwise the list is the first `Inlines` element of the hedge. -/
def nested (listed : Bool) : Hedge → List Nested
  | .empty => []
  | .element tag text inner rest =>
    if listed then
      if tag = "Inline" then
        ⟨[], ⟨tag, text, inner⟩⟩ ::
          ((nested false inner).map (Nested.inside ⟨tag, text, inner⟩) ++ nested true rest)
      else nested true rest
    else if tag = "Inlines" then nested true inner
    else nested false rest

theorem nested_list (h : Hedge) : nested true h =
    (h.findAll "Inline").flatMap fun e => ⟨[], e⟩ :: (nested false e.inner).map (Nested.inside e) := by
  induction h with
  | empty => rfl
  | element tag text inner rest _ ih =>
    by_cases htag : tag = "Inline"
    · subst htag
      rw [nested, if_pos rfl, if_pos rfl, ih, Hedge.findAll_element_self]
      rfl
    · rw [nested, if_pos rfl, if_neg htag, ih, Hedge.findAll_element_of_ne htag]

/-- The calls nested in a hedge are those in its list, each with the calls nested in it. -/
theorem nested_eq (h : Hedge) : nested false h =
    (h.listed "Inlines" "Inline").flatMap fun e =>
      ⟨[], e⟩ :: (nested false e.inner).map (Nested.inside e) := by
  induction h with
  | empty => rfl
  | element tag text inner rest _ ih =>
    by_cases htag : tag = "Inlines"
    · subst htag
      rw [nested, if_neg Bool.false_ne_true, if_pos rfl, nested_list, Hedge.listed_element_self]
    · rw [nested, if_neg Bool.false_ne_true, if_neg htag, ih, Hedge.listed_element_of_ne htag]

/-- The innermost call around another one is nested in the same hedge. -/
theorem nested_around {listed : Bool} {h : Hedge} {way : List Element} {e around : Element}
    (hn : ⟨way ++ [around], e⟩ ∈ nested listed h) : ⟨way, around⟩ ∈ nested listed h := by
  fun_induction nested listed h generalizing way with
  | case1 => cases hn
  | case2 text inner rest ihInner ihRest =>
    simp only [List.mem_cons, List.mem_append, List.mem_map] at hn ⊢
    rcases hn with hn | ⟨n, hn, heq⟩ | hn
    · simp at hn
    · obtain ⟨inwards, element⟩ := n
      obtain ⟨hway, rfl⟩ := Nested.mk.inj heq
      cases way with
      | nil => exact .inl (by rw [(List.cons_eq_cons.1 hway).1])
      | cons first way =>
        obtain ⟨rfl, rfl⟩ := List.cons_eq_cons.1 hway
        exact .inr (.inl ⟨⟨way, around⟩, ihInner hn, rfl⟩)
    · exact .inr (.inr (ihRest hn))
  | case3 tag text inner rest htag ih => exact ih hn
  | case4 listed text inner rest hlisted ih => exact ih hn
  | case5 listed tag text inner rest hlisted htag ih => exact ih hn

section Reading

theorem readInteger_eq (field : String) (text : Option String) : readInteger field text =
    if (Text.trim (text.getD "").toList).isEmpty then .error (.missingValue field)
    else match numeral? (Text.trim (text.getD "").toList) with
      | some n => .ok n
      | none => .error (.badInteger field (String.ofList (Text.trim (text.getD "").toList))) := rfl

theorem numberOf_of_readInteger {field : String} {text : Option String} {n : Int}
    (h : readInteger field text = .ok n) : numberOf text = n := by
  rw [readInteger_eq] at h
  rw [numberOf]
  split at h
  · cases h
  · cases hvalue : numeral? (Text.trim (text.getD "").toList) with
    | none =>
      rw [hvalue] at h
      cases h
    | some m =>
      rw [hvalue] at h
      exact Except.ok.inj h

theorem numberOf_of_readOptional {field : String} {text : Option String} {n : Int}
    (h : readOptional field text = .ok n) : numberOf text = n := by
  rw [readOptional] at h
  split at h
  · rename_i hempty
    rw [← Except.ok.inj h, numberOf, String.isEmpty_iff.1 hempty]
    rfl
  · exact numberOf_of_readInteger h

/-- A call that is read becomes its decision. -/
theorem readDecision_eq_ok {caller : MethodId} {above : CallPath} {e : Element} {d : Decision}
    (h : readDecision caller above e.inner = .ok d) :
    d = (⟨[], e⟩ : Nested).decision caller above := by
  obtain ⟨token, htoken, h⟩ := exists_of_bind_eq_ok h
  obtain ⟨offset, hoffset, h⟩ := exists_of_bind_eq_ok h
  obtain ⟨hash, hhash, h⟩ := exists_of_bind_eq_ok h
  obtain rfl := Except.ok.inj h
  simp only [Nested.decision, siteOf, calleeOf, numberOf_of_readInteger htoken,
    numberOf_of_readInteger hoffset, numberOf_of_readOptional hhash]
  simp

/-- What is read are the nested calls, in their order. -/
theorem readDecisions_eq_ok {listed : Bool} {caller : MethodId} {above : CallPath} {h : Hedge}
    {ds : List Decision} (hread : readDecisions listed caller above h = .ok ds) :
    ds = (nested listed h).map (Nested.decision caller above) := by
  fun_induction nested listed h generalizing caller above ds with
  | case1 => exact (Except.ok.inj hread).symm
  | case2 text inner rest ihInner ihRest =>
    rw [readDecisions, if_pos rfl, if_pos rfl] at hread
    obtain ⟨d, hd, hread⟩ := exists_of_bind_eq_ok hread
    obtain ⟨insides, hinside, hread⟩ := exists_of_bind_eq_ok hread
    obtain ⟨others, hothers, hread⟩ := exists_of_bind_eq_ok hread
    obtain rfl := Except.ok.inj hread
    obtain rfl := @readDecision_eq_ok caller above ⟨"Inline", text, inner⟩ d hd
    rw [ihInner hinside, ihRest hothers, List.map_cons, List.map_append, List.map_map]
    simp only [Function.comp_def, Nested.decision_inside]
    rfl
  | case3 tag text inner rest htag ih =>
    rw [readDecisions, if_pos rfl, if_neg htag] at hread
    exact ih hread
  | case4 listed text inner rest hlisted ih =>
    rw [readDecisions, if_neg hlisted, if_pos rfl] at hread
    exact ih hread
  | case5 listed tag text inner rest hlisted htag ih =>
    rw [readDecisions, if_neg hlisted, if_neg htag] at hread
    exact ih hread

end Reading

end Forest

end InlineImpact
