import InlineImpact.Proofs.Forest.Acceptance
import InlineImpact.Proofs.Forest.Nesting

/-!
The order of a report leaves no trace. Methods change places inside their list and so do the calls inside
theirs, each with all that it holds; the forest that is read stays the same.
-/
namespace InlineImpact

open Markup

namespace Markup.Hedge

/-- Elements that may change places inside an element with the tag `around`. -/
def Movable (around tag : String) : Prop :=
  (around = "Methods" ∧ tag = "Method") ∨ (around = "Inlines" ∧ tag = "Inline")

/-- The content of an element with the tag `around`, with methods or calls in another order, on any level. -/
inductive Rearranged : (around : String) → Hedge → Hedge → Prop
  | empty {around : String} : Rearranged around .empty .empty
  | element {around tag text : String} {inner inner' rest rest' : Hedge} :
      Rearranged tag inner inner' → Rearranged around rest rest' →
      Rearranged around (.element tag text inner rest) (.element tag text inner' rest')
  | swap {around tag text tag' text' : String} {inner inner' rest : Hedge} :
      Movable around tag ∨ Movable around tag' →
      Rearranged around (.element tag text inner (.element tag' text' inner' rest))
        (.element tag' text' inner' (.element tag text inner rest))
  | trans {around : String} {x y z : Hedge} :
      Rearranged around x y → Rearranged around y z → Rearranged around x z

/-- What is told of each element without what is inside it. -/
def faces (h : Hedge) : List (String × String × Bool) := h.toList.map fun e => (e.tag, e.text, e.inner.isEmpty)

theorem faces_element (tag text : String) (inner rest : Hedge) :
    faces (.element tag text inner rest) = (tag, text, inner.isEmpty) :: faces rest := rfl

theorem textOf?_eq (tag : String) (h : Hedge) :
    h.textOf? tag = (h.faces.find? (·.1 = tag)).map (·.2.1) := by
  rw [faces, List.find?_map, Option.map_map, textOf?, find?]
  rfl

/-- Where one of two elements may move, a look for another tag finds the same. -/
theorem find?_swap {around item tag text tag' text' : String} {inner inner' rest : Hedge}
    (hmovable : Movable around tag ∨ Movable around tag') (hitem : ∀ around, ¬Movable around item) :
    find? item (.element tag text inner (.element tag' text' inner' rest)) =
      find? item (.element tag' text' inner' (.element tag text inner rest)) := by
  by_cases htag : tag = item
  · have htag' : tag' ≠ item := by
      rintro rfl
      exact hmovable.elim (htag ▸ hitem around) (hitem around)
    subst htag
    rw [find?_element_self, find?_element_of_ne htag', find?_element_self]
  · by_cases htag' : tag' = item
    · subst htag'
      rw [find?_element_of_ne htag, find?_element_self, find?_element_self]
    · rw [find?_element_of_ne htag, find?_element_of_ne htag', find?_element_of_ne htag',
        find?_element_of_ne htag]

namespace Rearranged

variable {around : String} {x y : Hedge}

theorem refl (around : String) (x : Hedge) : Rearranged around x x := by
  induction x generalizing around with
  | empty => exact .empty
  | element tag text inner rest ihInner ihRest => exact .element (ihInner tag) (ihRest around)

/-- Methods, or calls, in any other order. -/
theorem of_perm {es es' : List Element} (h : es.Perm es') (hmovable : ∀ e ∈ es, Movable around e.tag) :
    Rearranged around (ofList es) (ofList es') := by
  induction h with
  | nil => exact .empty
  | cons e _ ih => exact .element (refl _ _) (ih fun d hd => hmovable d (.tail _ hd))
  | swap d e es => exact .swap (.inl (hmovable e (.head _)))
  | trans h _ ih ih' => exact .trans (ih hmovable) (ih' fun e he => hmovable e (h.mem_iff.2 he))

theorem isEmpty_eq (h : Rearranged around x y) : x.isEmpty = y.isEmpty := by
  induction h with
  | empty => rfl
  | element => rfl
  | swap => rfl
  | trans _ _ ih ih' => exact ih.trans ih'

/-- Outside of the lists nothing changes places. -/
theorem faces_eq (h : Rearranged around x y) (hfixed : ∀ tag, ¬Movable around tag) : x.faces = y.faces := by
  induction h with
  | empty => rfl
  | element hinner _ _ ih => rw [faces_element, faces_element, hinner.isEmpty_eq, ih hfixed]
  | swap hmovable => exact (hmovable.elim (hfixed _) (hfixed _)).elim
  | trans _ _ ih ih' => exact (ih hfixed).trans (ih' hfixed)

theorem textOf?_eq (h : Rearranged around x y) (hfixed : ∀ tag, ¬Movable around tag) (tag : String) :
    x.textOf? tag = y.textOf? tag := by
  rw [Hedge.textOf?_eq, Hedge.textOf?_eq, h.faces_eq hfixed]

/-- The first element with a tag that stays in its place holds the same, rearranged. -/
theorem find?_rel {item : String} (h : Rearranged around x y) (hitem : ∀ around, ¬Movable around item) :
    Option.Rel (fun e e' => Rearranged item e.inner e'.inner) (x.find? item) (y.find? item) := by
  induction h with
  | empty => exact .none
  | @element _ tag _ _ _ _ _ hinner _ _ ih =>
    by_cases htag : tag = item
    · subst htag
      rw [find?_element_self, find?_element_self]
      exact .some hinner
    · rw [find?_element_of_ne htag, find?_element_of_ne htag]
      exact ih
  | swap hmovable =>
    rw [find?_swap hmovable hitem]
    rcases find? item _ with _ | e
    · exact .none
    · exact .some (refl _ _)
  | @trans _ x y z _ _ ih ih' =>
    generalize x.find? item = a at ih ⊢
    generalize y.find? item = b at ih ih'
    cases ih with
    | none => exact ih'
    | some h =>
      generalize z.find? item = c at ih' ⊢
      cases ih' with
      | some h' => exact .some (h.trans h')

end Rearranged

end Markup.Hedge

namespace Forest

open Markup Hedge

variable {around : String} {x y : Hedge}

theorem featuresOf_eq (h : Hedge) : featuresOf h = Keyed.ofPairs
    (((h.faces.filter fun e => !structuralTags.contains e.1 && e.2.2) ++
      ((h.find? "Data").elim [] (·.inner.faces))).map fun e => (e.1, readFeature e.2.1)) := by
  rw [featuresOf]
  cases h.find? "Data" with
  | none => simp [faces, List.filter_map, Function.comp_def]
  | some e => simp [faces, List.filter_map, Function.comp_def]

theorem not_movable_of_ne {tag : String} (hmethods : around ≠ "Methods") (hinlines : around ≠ "Inlines") :
    ¬Movable around tag := by
  simp [Movable, hmethods, hinlines]

section Gathering

variable {α : Type} {item : String → Hedge → Except ForestFault (List α)} {as : List α}

/-- What the elements of a hedge hold, one after the other. -/
def gather (item : String → Hedge → Except ForestFault (List α)) : Hedge → Except ForestFault (List α)
  | .empty => .ok []
  | .element tag _ inner rest => do return (← item tag inner) ++ (← gather item rest)

theorem gather_eq_ok_iff {tag text : String} {inner rest : Hedge} :
    gather item (.element tag text inner rest) = .ok as ↔
      ∃ own others, item tag inner = .ok own ∧ gather item rest = .ok others ∧ own ++ others = as := by
  rw [gather]
  constructor
  · intro h
    obtain ⟨own, hown, h⟩ := exists_of_bind_eq_ok h
    obtain ⟨others, hothers, h⟩ := exists_of_bind_eq_ok h
    exact ⟨own, others, hown, hothers, Except.ok.inj h⟩
  · rintro ⟨own, others, hown, hothers, rfl⟩
    rw [hown, hothers]
    rfl

theorem gather_swap {tag text tag' text' : String} {inner inner' rest : Hedge}
    (h : gather item (.element tag text inner (.element tag' text' inner' rest)) = .ok as) :
    ∃ as', gather item (.element tag' text' inner' (.element tag text inner rest)) = .ok as' ∧
      as.Perm as' := by
  obtain ⟨own, others, hown, hothers, rfl⟩ := gather_eq_ok_iff.1 h
  obtain ⟨own', others, hown', hothers', rfl⟩ := gather_eq_ok_iff.1 hothers
  refine ⟨own' ++ (own ++ others), ?_, ?_⟩
  · exact gather_eq_ok_iff.2 ⟨own', _, hown', gather_eq_ok_iff.2 ⟨own, others, hown, hothers', rfl⟩, rfl⟩
  · rw [← List.append_assoc, ← List.append_assoc]
    exact List.perm_append_comm.append_right others

end Gathering

section Calls

/-- What is observed at a call is told outside of any list. -/
theorem featuresOf_rearranged (h : Rearranged "Inline" x y) : featuresOf x = featuresOf y := by
  have hdata : Option.Rel _ (x.find? "Data") (y.find? "Data") := h.find?_rel fun around => by simp [Movable]
  rw [featuresOf_eq, featuresOf_eq, h.faces_eq fun _ => not_movable_of_ne (by decide) (by decide)]
  generalize x.find? "Data" = data at hdata ⊢
  generalize y.find? "Data" = data' at hdata ⊢
  cases hdata with
  | none => rfl
  | some hinner =>
    rw [Option.elim_some, Option.elim_some,
      hinner.faces_eq fun _ => not_movable_of_ne (by decide) (by decide)]

theorem readDecision_rearranged (h : Rearranged "Inline" x y) (caller : MethodId) (above : CallPath) :
    readDecision caller above x = readDecision caller above y := by
  have htext := h.textOf?_eq fun _ => not_movable_of_ne (by decide) (by decide)
  rw [readDecision, readDecision, htext, htext, htext, htext, featuresOf_rearranged h]

/-- The decisions that one element of a list of calls holds. -/
def readItem (caller : MethodId) (above : CallPath) (tag : String) (inner : Hedge) :
    Except ForestFault (List Decision) :=
  if tag = "Inline" then do
    let d ← readDecision caller above inner
    return d :: (← readDecisions false d.callee d.path inner)
  else .ok []

variable {caller : MethodId} {above : CallPath} {ds : List Decision}

theorem readDecisions_first (h : Hedge) : readDecisions false caller above h =
    (h.find? "Inlines").elim (.ok []) fun e => readDecisions true caller above e.inner := by
  induction h with
  | empty => rfl
  | element tag text inner rest _ ih =>
    by_cases htag : tag = "Inlines"
    · subst htag
      rw [readDecisions, if_neg Bool.false_ne_true, if_pos rfl, Hedge.find?_element_self, Option.elim_some]
    · rw [readDecisions, if_neg Bool.false_ne_true, if_neg htag, ih, Hedge.find?_element_of_ne htag]

theorem readDecisions_eq_gather (h : Hedge) : readDecisions true caller above h = gather (readItem caller above) h := by
  induction h with
  | empty => rfl
  | element tag text inner rest _ ih =>
    rw [readDecisions, if_pos rfl, gather, readItem, ih]
    split
    · simp only [bind_assoc, pure_bind, List.cons_append]
    · exact (bind_pure _).symm

/-- What an element of a list holds does not change, as long as that holds of the calls inside it. -/
theorem readItem_rearranged {tag : String} (h : Rearranged tag x y)
    (hinside : ∀ {caller above ds}, readDecisions false caller above x = .ok ds →
      ∃ ds', readDecisions false caller above y = .ok ds' ∧ ds.Perm ds')
    (hread : readItem caller above tag x = .ok ds) :
    ∃ ds', readItem caller above tag y = .ok ds' ∧ ds.Perm ds' := by
  rw [readItem] at hread ⊢
  split at hread
  · rename_i htag
    subst htag
    rw [if_pos rfl, ← readDecision_rearranged h]
    refine exists_bind_eq_ok hread fun d hread => ?_
    obtain ⟨inside, hbelow, hread⟩ := exists_of_bind_eq_ok hread
    obtain rfl := Except.ok.inj hread
    obtain ⟨inside', hbelow', hperm⟩ := hinside hbelow
    exact ⟨d :: inside', by rw [hbelow']; rfl, hperm.cons d⟩
  · rename_i htag
    exact ⟨ds, by rw [if_neg htag, hread], .refl ds⟩

/-- The calls in another order make the same decisions in another order. The induction is on the changes made;
where two elements change places, either both hold decisions or the list that is read is another one. -/
theorem readDecisions_rearranged (h : Rearranged around x y) {listed : Bool}
    (hread : readDecisions listed caller above x = .ok ds) :
    ∃ ds', readDecisions listed caller above y = .ok ds' ∧ ds.Perm ds' := by
  induction h generalizing listed caller above ds with
  | empty => exact ⟨ds, hread, .refl ds⟩
  | @element _ tag _ inner inner' _ _ hinner _ ihInner ihRest =>
    cases listed with
    | false =>
      rw [readDecisions, if_neg Bool.false_ne_true] at hread ⊢
      split at hread
      · rename_i htag
        rw [if_pos htag]
        exact ihInner hread
      · rename_i htag
        rw [if_neg htag]
        exact ihRest hread
    | true =>
      rw [readDecisions_eq_gather] at hread ⊢
      obtain ⟨own, others, hown, hothers, rfl⟩ := gather_eq_ok_iff.1 hread
      obtain ⟨own', hown', hperm⟩ := readItem_rearranged hinner (fun hread => ihInner hread) hown
      rw [← readDecisions_eq_gather] at hothers
      obtain ⟨others', hothers', hperm'⟩ := ihRest hothers
      rw [readDecisions_eq_gather] at hothers'
      exact ⟨own' ++ others', gather_eq_ok_iff.2 ⟨own', others', hown', hothers', rfl⟩, hperm.append hperm'⟩
  | swap hmovable =>
    cases listed with
    | false =>
      rw [readDecisions_first, find?_swap hmovable fun around => by simp [Movable]] at hread
      rw [readDecisions_first]
      exact ⟨ds, hread, .refl ds⟩
    | true =>
      rw [readDecisions_eq_gather] at hread ⊢
      exact gather_swap hread
  | trans _ _ ih ih' =>
    obtain ⟨es, hes, hperm⟩ := ih hread
    obtain ⟨ds', hds', hperm'⟩ := ih' hes
    exact ⟨ds', hds', hperm.trans hperm'⟩

end Calls

section Methods

/-- A method with its calls in another order makes a report that is worth the same. -/
theorem readReport_rearranged (h : Rearranged "Method" x y) {r : MethodReport} (hread : readReport x = .ok r) :
    ∃ r', readReport y = .ok r' ∧ r.summary = r'.summary := by
  have htext := h.textOf?_eq fun _ => not_movable_of_ne (by decide) (by decide)
  have hfield : readField x = readField y := funext fun tag => by rw [readField, readField, htext]
  rw [readReport, htext, htext, hfield] at hread
  rw [readReport]
  refine exists_bind_eq_ok hread fun token hread => ?_
  refine exists_bind_eq_ok hread fun hash hread => ?_
  refine exists_bind_eq_ok hread fun inlineCount hread => ?_
  refine exists_bind_eq_ok hread fun hotSize hread => ?_
  refine exists_bind_eq_ok hread fun coldSize hread => ?_
  refine exists_bind_eq_ok hread fun jitTime hread => ?_
  refine exists_bind_eq_ok hread fun sizeEstimate hread => ?_
  refine exists_bind_eq_ok hread fun timeEstimate hread => ?_
  refine exists_bind_eq_ok hread fun callCount hread => ?_
  obtain ⟨ds, hds, hread⟩ := exists_of_bind_eq_ok hread
  obtain rfl := Except.ok.inj hread
  obtain ⟨ds', hds', hperm⟩ := readDecisions_rearranged h hds
  rw [hds']
  exact ⟨_, rfl, Prod.ext rfl (Prod.ext rfl (MethodReport.tree?_congr rfl hperm))⟩

/-- The reports that one element of a list of methods holds. -/
def readMethod (tag : String) (inner : Hedge) : Except ForestFault (List MethodReport) :=
  if tag = "Method" then (readReport inner).map ([·]) else .ok []

theorem mapM_findAll_eq_gather (h : Hedge) :
    ((h.findAll "Method").mapM fun m => readReport m.inner) = gather readMethod h := by
  induction h with
  | empty => rfl
  | element tag text inner rest _ ih =>
    rw [gather, readMethod, ← ih]
    by_cases htag : tag = "Method"
    · subst htag
      rw [findAll_element_self, List.mapM_cons, if_pos rfl]
      cases readReport inner with
      | error fault => rfl
      | ok r => rfl
    · rw [findAll_element_of_ne htag, if_neg htag]
      exact (bind_pure _).symm

theorem readMethod_rearranged {tag : String} (h : Rearranged tag x y) {rs : List MethodReport}
    (hread : readMethod tag x = .ok rs) : ∃ rs', readMethod tag y = .ok rs' ∧
      rs.map MethodReport.summary = rs'.map MethodReport.summary := by
  rw [readMethod] at hread ⊢
  split at hread
  · rename_i htag
    subst htag
    cases hx : readReport x with
    | error fault =>
      rw [hx] at hread
      cases hread
    | ok r =>
      rw [hx] at hread
      obtain rfl := Except.ok.inj hread
      obtain ⟨r', hr', hsame⟩ := readReport_rearranged h hx
      exact ⟨[r'], by rw [if_pos rfl, hr']; rfl, congrArg ([·]) hsame⟩
  · rename_i htag
    exact ⟨rs, by rw [if_neg htag, hread], rfl⟩

/-- The methods in another order make the same reports in another order. -/
theorem gather_rearranged (h : Rearranged around x y) {rs : List MethodReport}
    (hread : gather readMethod x = .ok rs) : ∃ rs', gather readMethod y = .ok rs' ∧
      (rs.map MethodReport.summary).Perm (rs'.map MethodReport.summary) := by
  induction h generalizing rs with
  | empty => exact ⟨rs, hread, .refl _⟩
  | @element _ tag _ inner inner' _ _ hinner _ _ ihRest =>
    obtain ⟨own, others, hown, hothers, rfl⟩ := gather_eq_ok_iff.1 hread
    obtain ⟨own', hown', hsame⟩ := readMethod_rearranged hinner hown
    obtain ⟨others', hothers', hperm⟩ := ihRest hothers
    refine ⟨own' ++ others', gather_eq_ok_iff.2 ⟨own', others', hown', hothers', rfl⟩, ?_⟩
    rw [List.map_append, List.map_append, hsame]
    exact hperm.append_left _
  | swap hmovable =>
    obtain ⟨rs', hrs', hperm⟩ := gather_swap hread
    exact ⟨rs', hrs', hperm.map _⟩
  | trans _ _ ih ih' =>
    obtain ⟨qs, hqs, hperm⟩ := ih hread
    obtain ⟨rs', hrs', hperm'⟩ := ih' hqs
    exact ⟨rs', hrs', hperm.trans hperm'⟩

theorem readReports_rearranged (h : Rearranged around x y) {rs : List MethodReport}
    (hread : readReports x = .ok rs) : ∃ rs', readReports y = .ok rs' ∧
      (rs.map MethodReport.summary).Perm (rs'.map MethodReport.summary) := by
  have hfirst : Option.Rel _ (x.find? "Methods") (y.find? "Methods") :=
    h.find?_rel fun around => by simp [Movable]
  rw [readReports] at hread ⊢
  generalize x.find? "Methods" = e at hfirst hread
  generalize y.find? "Methods" = e' at hfirst ⊢
  cases hfirst with
  | none => exact ⟨rs, hread, .refl _⟩
  | some h =>
    dsimp only at hread ⊢
    rw [mapM_findAll_eq_gather] at hread ⊢
    exact gather_rearranged h hread

end Methods

/-- Two logs that report the same, with methods and calls in another order. -/
def Rearranged (log log' : List Char) : Prop :=
  ∃ s s' document document', excerpt? log = some s ∧ excerpt? log' = some s' ∧
    Markup.readDocument? s = some document ∧ Markup.readDocument? s' = some document' ∧
    document.tag = document'.tag ∧ document.text = document'.text ∧
    Hedge.Rearranged document.tag document.inner document'.inner

/-- The order of a report leaves no trace: what is read is one and the same forest, with the callers, the
reasons and the features of all decisions, and so are all that is derived of it. -/
theorem read_rearranged {log log' : List Char} (h : Rearranged log log') {f : Forest}
    (hread : read log = .ok f) : read log' = .ok f := by
  obtain ⟨s, s', document, document', hs, hs', hdocument, hdocument', -, -, h⟩ := h
  obtain ⟨t, d, rs, ht, hd, hrs, rfl⟩ := read_eq_ok_iff.1 hread
  obtain rfl := Option.some.inj (hs.symm.trans ht)
  obtain rfl := Option.some.inj (hdocument.symm.trans hd)
  obtain ⟨rs', hrs', hperm⟩ := readReports_rearranged h hrs
  exact read_eq_ok_iff.2 ⟨s', document', rs', hs', hdocument', hrs', (ofReports_congr hperm).symm⟩

deriving instance DecidableEq for Hedge
deriving instance DecidableEq for Element

/-- A call of a method. -/
def callTo (token : String) : Element :=
  ⟨"Inline", "", ofList [⟨"MethodToken", token, .empty⟩, ⟨"Offset", "1", .empty⟩]⟩

def methodWith (token : String) (calls : List Element) : Element :=
  ⟨"Method", "", ofList [⟨"Token", token, .empty⟩, ⟨"Inlines", "", ofList calls⟩]⟩

def documentOf (methods : List Element) : Element :=
  ⟨"InlineForest", "", ofList [⟨"Methods", "", ofList methods⟩]⟩

/-- Two methods, one of them with two calls. -/
def someOrder : List Char :=
  ["<InlineForest><Methods>", "<Method><Token>7</Token><Inlines>",
    "<Inline><MethodToken>8</MethodToken>", "<Offset>1</Offset></Inline>",
    "<Inline><MethodToken>9</MethodToken>", "<Offset>1</Offset></Inline>", "</Inlines></Method>",
    "<Method><Token>6</Token><Inlines>", "</Inlines></Method>",
    "</Methods></InlineForest>"].flatMap String.toList

/-- The methods and the calls of `someOrder`, the other way round. -/
def otherOrder : List Char :=
  ["<InlineForest><Methods>", "<Method><Token>6</Token><Inlines>", "</Inlines></Method>",
    "<Method><Token>7</Token><Inlines>",
    "<Inline><MethodToken>9</MethodToken>", "<Offset>1</Offset></Inline>",
    "<Inline><MethodToken>8</MethodToken>", "<Offset>1</Offset></Inline>", "</Inlines></Method>",
    "</Methods></InlineForest>"].flatMap String.toList

theorem rearranged_otherOrder : Rearranged someOrder otherOrder := by
  refine ⟨someOrder, otherOrder, documentOf [methodWith "7" [callTo "8", callTo "9"], methodWith "6" []],
    documentOf [methodWith "6" [], methodWith "7" [callTo "9", callTo "8"]],
    by decide +kernel, by decide +kernel, by decide +kernel, by decide +kernel, rfl, rfl, ?_⟩
  have hcalls : Hedge.Rearranged "Inlines" (ofList [callTo "8", callTo "9"]) (ofList [callTo "9", callTo "8"]) :=
    .of_perm (.swap _ _ _) (by simp [callTo, Movable])
  have hmethod : Hedge.Rearranged "Method" (methodWith "7" [callTo "8", callTo "9"]).inner
      (methodWith "7" [callTo "9", callTo "8"]).inner :=
    .element .empty (.element hcalls .empty)
  refine .element (.trans (.element hmethod (.refl _ _)) ?_) .empty
  exact .of_perm (.swap (methodWith "6" []) (methodWith "7" [callTo "9", callTo "8"]) [])
    (by simp [methodWith, Movable])

theorem read_rearranged_otherOrder : Rearranged someOrder otherOrder ∧
    ∃ f, read someOrder = .ok f ∧ read otherOrder = .ok f := by
  obtain ⟨f, hf⟩ := exists_of_isOk (show (read someOrder).isOk = true by decide +kernel)
  exact ⟨rearranged_otherOrder, f, hf, read_rearranged rearranged_otherOrder hf⟩

end Forest

end InlineImpact
