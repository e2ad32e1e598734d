import InlineImpact.Markup.Reader
import InlineImpact.Markup.Writer
import InlineImpact.Proofs.Text.Lines
import Mathlib.Data.List.TakeWhile

/-!
Reading what was written. The reader takes the written form of a hedge for the same hedge, except that
the line breaks inside an element with others in it become its text. One lemma follows the reader through
each kind of tag, and the hedge itself is one induction.
-/
namespace InlineImpact.Markup

/-- A name in one part. -/
def isPlainName : List Char → Bool
  | [] => false
  | c :: rest => startsName c && (c :: rest).all fun d => insideName d && isMarkupChar d

theorem startsName_of_isPlainName {c : Char} {rest : List Char} (h : isPlainName (c :: rest)) :
    startsName c = true :=
  (Bool.and_eq_true_iff.1 h).1

theorem inside_of_isPlainName {name : List Char} (h : isPlainName name) :
    ∀ c ∈ name, insideName c = true ∧ isMarkupChar c = true := by
  cases name with
  | nil => cases h
  | cons c rest =>
    intro d hd
    exact Bool.and_eq_true_iff.1 (List.all_eq_true.1 (Bool.and_eq_true_iff.1 h).2 d hd)

/-- A character that stands for itself when it is written. -/
def isPlainText (c : Char) : Bool := isMarkupChar c && c != '\r'

namespace Hedge

/-- Each element has a tag and a text of this kind. -/
def All (p : String → String → Prop) : Hedge → Prop
  | empty => True
  | element tag text inner rest => p tag text ∧ inner.All p ∧ rest.All p

theorem All.imp {p q : String → String → Prop} (hpq : ∀ tag text, p tag text → q tag text) {h : Hedge}
    (hp : h.All p) : h.All q := by
  induction h with
  | empty => trivial
  | element tag text inner rest ihInner ihRest =>
    exact ⟨hpq tag text hp.1, ihInner hp.2.1, ihRest hp.2.2⟩

theorem all_ofList {p : String → String → Prop} {es : List Element}
    (h : ∀ e ∈ es, p e.tag e.text ∧ e.inner.All p) : (ofList es).All p := by
  induction es with
  | nil => trivial
  | cons e rest ih =>
    obtain ⟨⟨htag, hinner⟩, hrest⟩ := List.forall_mem_cons.1 h
    exact ⟨htag, hinner, ih hrest⟩

/-- The names are in one part and the texts hold only characters that stand for themselves. -/
def Writable (h : Hedge) : Prop :=
  h.All fun tag text => isPlainName tag.toList ∧ ∀ c ∈ text.toList, isPlainText c

/-- The hedge as it is read again: the text in front of a first child is the break of the line. -/
def laidOut (level : Nat) : Hedge → Hedge
  | empty => empty
  | element tag text inner rest =>
    element tag (if inner.isEmpty then text else String.ofList (lineAt (level + 1)))
      (inner.laidOut (level + 1)) (rest.laidOut level)

end Hedge

/-- An element of a hedge as it is read again. -/
def Element.laidOut (level : Nat) (e : Element) : Element :=
  ⟨e.tag, if e.inner.isEmpty then e.text else String.ofList (lineAt (level + 1)), e.inner.laidOut (level + 1)⟩

theorem Hedge.toList_laidOut_ofList (level : Nat) (es : List Element) :
    ((ofList es).laidOut level).toList = es.map (Element.laidOut level) := by
  induction es with
  | nil => rfl
  | cons e rest ih => rw [ofList, laidOut, toList, ih]; rfl

namespace Reading

/-- A reader inside the given elements that has not come upon any name space. -/
def within (mode : Mode) (frames : List Frame) : Reading := { mode, frames }

theorem takePart?_of_isPlainName {name : List Char} (h : isPlainName name) :
    takePart? name = some (name, []) := by
  cases name with
  | nil => cases h
  | cons c rest =>
    have hall : ∀ d ∈ rest, insideName d = true := fun d hd => (inside_of_isPlainName h d (.tail _ hd)).1
    rw [takePart?, if_pos (startsName_of_isPlainName h), List.takeWhile_eq_self_iff.2 hall, List.dropWhile_eq_nil_iff.2 hall]

theorem enter?_of_isPlainName {name : List Char} (h : isPlainName name) :
    enter? baseScope name [] = some (baseScope, name) := by
  have hsplit : splitName? name = some ([], name) := by rw [splitName?, takePart?_of_isPlainName h]
  have hfull : fullName? baseScope true name = some name := by
    rw [fullName?, hsplit]
    rfl
  simp [enter?, hfull]
  
/-- An element that has just been opened. -/
def opened (name : List Char) : Frame := { name, tag := String.ofList name, outside := baseScope }

theorem openElement_within {name : List Char} (h : isPlainName name) (m : Mode) (fs : List Frame) :
    (within m fs).openElement ⟨name, []⟩ = some (within (.content 0) (opened name :: fs)) := by
  simp only [openElement, List.reverse_nil]
  rw [show (within m fs).scope = baseScope from rfl, enter?_of_isPlainName h]
  rfl

/-- What an element is once it is closed. -/
def finished (f : Frame) : Element := ⟨f.tag, String.ofList f.text.reverse, .ofList f.children.reverse⟩

/-- The frame with one more child. -/
def receive (f : Frame) (e : Element) : Frame := { f with children := e :: f.children }

theorem closeElement_within {g : Frame} (h : g.outside = baseScope) (m : Mode) (f : Frame) (fs : List Frame) :
    (within m (g :: f :: fs)).closeElement g.name =
      some (within (.content 0) (receive f (finished g) :: fs)) := by
  simp only [closeElement, within, ne_eq, not_true_eq_false, if_false, h]
  rfl

theorem closeElement_root {g : Frame} (h : g.outside = baseScope) (m : Mode) :
    (within m [g]).closeElement g.name = some { within (.content 0) [] with root := some (finished g) } := by
  simp only [closeElement, within, ne_eq, not_true_eq_false, if_false, h]
  rfl

/-- The reader after some characters. -/
def run (s : Reading) (cs : List Char) : Option Reading := cs.foldlM step s

theorem run_append (s : Reading) (cs ds : List Char) : s.run (cs ++ ds) = (s.run cs).bind (run · ds) :=
  List.foldlM_append

theorem run_cons (s : Reading) (c : Char) (cs : List Char) : s.run (c :: cs) = (s.step c).bind (run · cs) :=
  List.foldlM_cons

theorem run_append_of_eq {s t : Reading} {cs : List Char} (h : s.run cs = some t) (ds : List Char) :
    s.run (cs ++ ds) = t.run ds := by
  rw [run_append, h, Option.bind_some]

/-- A name is read up to its end. -/
theorem run_startName {rest : List Char} (h : ∀ c ∈ rest, insideName c = true ∧ isMarkupChar c = true)
    (read : List Char) (fs : List Frame) :
    (within (.startName read) fs).run rest = some (within (.startName (rest.reverse ++ read)) fs) := by
  induction rest generalizing read with
  | nil => rfl
  | cons c rest ih =>
    obtain ⟨hc, hrest⟩ := List.forall_mem_cons.1 h
    have hstep : (within (.startName read) fs).step c = some (within (.startName (c :: read)) fs) := by
      simp [step, within, hc.1, hc.2, inMode]
    rw [run_cons, hstep, Option.bind_some, ih hrest, List.reverse_cons, List.append_assoc]
    rfl

theorem run_endName {name : List Char} (h : ∀ c ∈ name, insideName c = true ∧ isMarkupChar c = true)
    (read : List Char) (fs : List Frame) :
    (within (.endName read) fs).run name = some (within (.endName (name.reverse ++ read)) fs) := by
  induction name generalizing read with
  | nil => rfl
  | cons c rest ih =>
    obtain ⟨hc, hrest⟩ := List.forall_mem_cons.1 h
    have hstep : (within (.endName read) fs).step c = some (within (.endName (c :: read)) fs) := by
      simp [step, within, hc.1, hc.2, inMode]
    rw [run_cons, hstep, Option.bind_some, ih hrest, List.reverse_cons, List.append_assoc]
    rfl

section Tags

variable {name : List Char} (h : isPlainName name) (b : Nat) (fs : List Frame)
include h

/-- After `<` and a name. -/
theorem run_tagName : (within (.content b) fs).run ('<' :: name) = some (within (.startName name.reverse) fs) := by
  cases name with
  | nil => cases h
  | cons c rest =>
    have hstarts := startsName_of_isPlainName h
    have hne : ∀ d, startsName d = false → c ≠ d := by
      rintro d hd rfl
      rw [hd] at hstarts
      cases hstarts
    have hangle : (within (.content b) fs).step '<' = some (within .angle fs) := rfl
    have hfirst : (within .angle fs).step c = some (within (.startName [c]) fs) := by
      have hc := (inside_of_isPlainName h c (.head _)).2
      simp [step, within, hc, inMode, hstarts, hne '/' rfl, hne '!' rfl, hne '?' rfl]
    rw [run_cons, hangle, Option.bind_some, run_cons, hfirst, Option.bind_some,
      run_startName fun d hd => inside_of_isPlainName h d (.tail _ hd), List.reverse_cons]

theorem run_openTag :
    (within (.content b) fs).run (openTag name) = some (within (.content 0) (opened name :: fs)) := by
  have hend : (within (.startName name.reverse) fs).step '>' =
      (within (.startName name.reverse) fs).openElement ⟨name.reverse.reverse, []⟩ := rfl
  rw [openTag, ← List.cons_append, run_append_of_eq (run_tagName h b fs), run_cons, hend, List.reverse_reverse,
    openElement_within h]
  rfl

theorem run_emptyTag (f : Frame) : (within (.content b) (f :: fs)).run (emptyTag name) =
    some (within (.content 0) (receive f ⟨String.ofList name, "", .empty⟩ :: fs)) := by
  have hblank : (within (.startName name.reverse) (f :: fs)).step ' ' =
      some (within (.betweenAttributes ⟨name.reverse.reverse, []⟩) (f :: fs)) := rfl
  have hslash : (within (.betweenAttributes ⟨name, []⟩) (f :: fs)).step '/' =
      some (within (.slash ⟨name, []⟩) (f :: fs)) := rfl
  have hend : (within (.slash ⟨name, []⟩) (f :: fs)).step '>' =
      ((within (.slash ⟨name, []⟩) (f :: fs)).openElement ⟨name, []⟩).bind (·.closeElement name) := rfl
  have hclose := closeElement_within (g := opened name) rfl (.content 0) f fs
  rw [emptyTag, ← List.cons_append, run_append_of_eq (run_tagName h b _), run_cons, hblank,
    List.reverse_reverse, Option.bind_some, run_cons, hslash, Option.bind_some, run_cons, hend,
    openElement_within h, Option.bind_some]
  exact congrArg (Option.bind · (run · [])) hclose

theorem run_endTag :
    (within (.content b) fs).run ('<' :: '/' :: name) = some (within (.endName name.reverse) fs) := by
  have hangle : (within (.content b) fs).step '<' = some (within .angle fs) := rfl
  have hslash : (within .angle fs).step '/' = some (within (.endName []) fs) := rfl
  rw [run_cons, hangle, Option.bind_some, run_cons, hslash, Option.bind_some,
    run_endName (inside_of_isPlainName h), List.append_nil]

theorem run_closeTag : (within (.content b) fs).run (closeTag name) = (within (.content 0) fs).closeElement name := by
  have hend : (within (.endName name.reverse) fs).step '>' =
      (within (.endName name.reverse) fs).closeElement name.reverse.reverse := rfl
  rw [closeTag, ← List.cons_append, ← List.cons_append, run_append_of_eq (run_endTag h b fs), run_cons, hend,
    List.reverse_reverse]
  show Option.bind _ some = _
  rw [Option.bind_fun_some]
  cases fs <;> rfl

end Tags

section Texts

/-- A frame after some text, which only counts in front of the first child. -/
def hear (f : Frame) (cs : List Char) : Frame :=
  if f.children.isEmpty then { f with text := cs.reverse ++ f.text } else f

theorem hear_cons (f : Frame) (c : Char) (cs : List Char) : hear (hear f [c]) cs = hear f (c :: cs) := by
  by_cases h : f.children.isEmpty = true <;> simp [hear, h]

theorem addText_within (m : Mode) (f : Frame) (fs : List Frame) (c : Char) :
    (within m (f :: fs)).addText c = some (within m (hear f [c] :: fs)) := by
  by_cases h : f.children.isEmpty = true <;> simp [addText, within, hear, h]

theorem run_reference {name : List Char} {c : Char} (hne : ∀ d ∈ name, d ≠ ';' ∧ isMarkupChar d = true)
    (h : resolve? name = some c) (b : Nat) (f : Frame) (fs : List Frame) :
    (within (.content b) (f :: fs)).run ('&' :: (name ++ [';'])) =
      some (within (.content 0) (hear f [c] :: fs)) := by
  have hmark : (within (.content b) (f :: fs)).step '&' = some (within (.reference []) (f :: fs)) := rfl
  have hname (read : List Char) : (within (.reference read) (f :: fs)).run name =
      some (within (.reference (name.reverse ++ read)) (f :: fs)) := by
    clear h
    induction name generalizing read with
    | nil => rfl
    | cons d name ih =>
      obtain ⟨hd, hname⟩ := List.forall_mem_cons.1 hne
      have hstep : (within (.reference read) (f :: fs)).step d = some (within (.reference (d :: read)) (f :: fs)) := by
        simp [step, within, hd.1, hd.2, inMode]
      rw [run_cons, hstep, Option.bind_some, ih hname, List.reverse_cons, List.append_assoc]
      rfl
  have hend : (within (.reference name.reverse) (f :: fs)).step ';' = (resolve? name.reverse.reverse).bind
      fun c => ((within (.reference name.reverse) (f :: fs)).addText c).bind
        fun s => some (s.inMode (.content 0)) := rfl
  rw [run_cons, hmark, Option.bind_some, run_append_of_eq (hname []), List.append_nil, run_cons, hend,
    List.reverse_reverse, h, Option.bind_some, addText_within]
  rfl

/-- One character of a text, in its written form. -/
theorem run_escapeChar {c : Char} (h : isPlainText c) (b : Nat) (f : Frame) (fs : List Frame) :
    ∃ b', (within (.content b) (f :: fs)).run (escapeChar c) = some (within (.content b') (hear f [c] :: fs)) := by
  by_cases hamp : c = '&'
  · subst hamp
    exact ⟨0, @run_reference "amp".toList _ (by simp [isMarkupChar]) (by decide) b f fs⟩
  by_cases hlt : c = '<'
  · subst hlt
    exact ⟨0, @run_reference "lt".toList _ (by simp [isMarkupChar]) (by decide) b f fs⟩
  by_cases hgt : c = '>'
  · subst hgt
    exact ⟨0, @run_reference "gt".toList _ (by simp [isMarkupChar]) (by decide) b f fs⟩
  have hchar : isMarkupChar c = true := (Bool.and_eq_true_iff.1 h).1
  have hescape : escapeChar c = [c] := by
    rw [escapeChar] <;> assumption
  have hstep : (within (.content b) (f :: fs)).step c =
      ((within (.content b) (f :: fs)).addText c).map
        (·.inMode (.content (if c == ']' then min 2 (b + 1) else 0))) := by
    simp [step, within, hchar, hamp, hlt, hgt]
  refine ⟨if c == ']' then min 2 (b + 1) else 0, ?_⟩
  rw [hescape, run_cons, hstep, addText_within]
  rfl

theorem run_text {cs : List Char} (h : ∀ c ∈ cs, isPlainText c) (b : Nat) (f : Frame) (fs : List Frame) :
    ∃ b', (within (.content b) (f :: fs)).run (cs.flatMap escapeChar) =
      some (within (.content b') (hear f cs :: fs)) := by
  induction cs generalizing b f with
  | nil =>
    have : hear f [] = f := by by_cases h : f.children.isEmpty = true <;> simp [hear, h]
    exact ⟨b, by rw [this]; rfl⟩
  | cons c cs ih =>
    obtain ⟨hc, hcs⟩ := List.forall_mem_cons.1 h
    obtain ⟨b', hb'⟩ := run_escapeChar hc b f fs
    obtain ⟨b'', hb''⟩ := ih hcs b' (hear f [c])
    refine ⟨b'', ?_⟩
    rw [List.flatMap_cons, run_append_of_eq hb', hb'', hear_cons]

theorem flatMap_escapeChar {cs : List Char} (h : ∀ c ∈ cs, escapeChar c = [c]) : cs.flatMap escapeChar = cs := by
  induction cs with
  | nil => rfl
  | cons c cs ih =>
    obtain ⟨hc, hcs⟩ := List.forall_mem_cons.1 h
    rw [List.flatMap_cons, hc, ih hcs]
    rfl

theorem run_lineAt (level b : Nat) (f : Frame) (fs : List Frame) :
    ∃ b', (within (.content b) (f :: fs)).run (lineAt level) =
      some (within (.content b') (hear f (lineAt level) :: fs)) := by
  have hplain : ∀ c ∈ lineAt level, isPlainText c ∧ escapeChar c = [c] := by
    intro c hc
    rcases List.mem_cons.1 hc with rfl | hc
    · decide
    · obtain rfl := List.eq_of_mem_replicate hc
      decide
  have := run_text (fun c hc => (hplain c hc).1) b f fs
  rwa [flatMap_escapeChar fun c hc => (hplain c hc).2] at this

end Texts

section Hedges

/-- A frame after some elements, each on a line of its own. -/
def takeIn (level : Nat) (f : Frame) (h : Hedge) : Frame :=
  match h with
  | .empty => f
  | .element .. => { hear f (lineAt level) with
      children := (h.laidOut level).toList.reverse ++ f.children }

theorem takeIn_element (level : Nat) (f : Frame) (tag text : String) (inner rest : Hedge) :
    takeIn level (receive (hear f (lineAt level))
      ⟨tag, if inner.isEmpty then text else String.ofList (lineAt (level + 1)), inner.laidOut (level + 1)⟩) rest =
      takeIn level f (.element tag text inner rest) := by
  have hchildren : (hear f (lineAt level)).children = f.children := by
    rw [hear]
    split <;> rfl
  cases rest with
  | empty => simp [takeIn, receive, Hedge.laidOut, Hedge.toList, hchildren]
  | element tag' text' inner' rest' =>
    have hquiet (f : Frame) (e : Element) : hear (receive f e) (lineAt level) = receive f e := rfl
    rw [takeIn, hquiet]
    simp [takeIn, receive, Hedge.laidOut, Hedge.toList, hchildren]

theorem run_closing {name : List Char} (hname : isPlainName name) {g : Frame} (hg : g.name = name)
    (hout : g.outside = baseScope) (b : Nat) (f : Frame) (fs : List Frame) :
    (within (.content b) (g :: f :: fs)).run (closeTag name) =
      some (within (.content 0) (receive f (finished g) :: fs)) := by
  subst hg
  rw [run_closeTag hname, closeElement_within hout]

theorem run_leaf {tag text : String} (hname : isPlainName tag.toList) (htext : ∀ c ∈ text.toList, isPlainText c)
    (b : Nat) (f : Frame) (fs : List Frame) :
    (within (.content b) (f :: fs)).run
      (openTag tag.toList ++ text.toList.flatMap escapeChar ++ closeTag tag.toList) =
      some (within (.content 0) (receive f ⟨tag, text, .empty⟩ :: fs)) := by
  obtain ⟨b', hb'⟩ := run_text htext 0 (opened tag.toList) (f :: fs)
  have hclose := run_closing hname (g := hear (opened tag.toList) text.toList) rfl rfl b' f fs
  have hfinished : finished (hear (opened tag.toList) text.toList) = ⟨tag, text, .empty⟩ := by
    simp [finished, hear, opened, Hedge.ofList]
  rw [List.append_assoc, run_append_of_eq (run_openTag hname b _), run_append_of_eq hb', hclose, hfinished]

/-- An element around others, up to the line break in front of its closing tag. -/
theorem run_inside {tag : String} {k : Hedge} (hname : isPlainName tag.toList) (hk : k.isEmpty = false) {level : Nat}
    (hinside : ∀ b f fs, ∃ b', (within (.content b) (f :: fs)).run (writeHedge (level + 1) k) =
      some (within (.content b') (takeIn (level + 1) f k :: fs)))
    (b : Nat) (fs : List Frame) :
    ∃ b' g, (within (.content b) fs).run (openTag tag.toList ++ writeHedge (level + 1) k ++ lineAt level) =
        some (within (.content b') (g :: fs)) ∧
      g.name = tag.toList ∧ g.outside = baseScope ∧
      finished g = ⟨tag, String.ofList (lineAt (level + 1)), k.laidOut (level + 1)⟩ := by
  obtain ⟨b₁, hb₁⟩ := hinside 0 (opened tag.toList) fs
  cases k with
  | empty => cases hk
  | element tag' text' inner' rest' =>
    obtain ⟨g, hg⟩ : ∃ g, takeIn (level + 1) (opened tag.toList) (.element tag' text' inner' rest') = g := ⟨_, rfl⟩
    have hquiet : hear g (lineAt level) = g := by
      rw [← hg, hear, takeIn, Hedge.laidOut, Hedge.toList, List.reverse_cons, List.append_assoc, if_neg]
      simp
    obtain ⟨b₂, hb₂⟩ := run_lineAt level b₁ g fs
    refine ⟨b₂, g, ?_, by rw [← hg]; rfl, by rw [← hg]; rfl, ?_⟩
    · rw [List.append_assoc, run_append_of_eq (run_openTag hname b _), run_append_of_eq hb₁, hg, hb₂, hquiet]
    · simp [← hg, takeIn, finished, hear, opened]

/-- The reader takes in the elements of a hedge, level by level. -/
theorem run_writeHedge {h : Hedge} (hw : h.Writable) (level b : Nat) (f : Frame) (fs : List Frame) :
    ∃ b', (within (.content b) (f :: fs)).run (writeHedge level h) =
      some (within (.content b') (takeIn level f h :: fs)) := by
  induction h generalizing level b f fs with
  | empty => exact ⟨b, rfl⟩
  | element tag text inner rest ihInner ihRest =>
    obtain ⟨⟨hname, htext⟩, hinner, hrest⟩ := hw
    obtain ⟨b₁, hline⟩ := run_lineAt level b f fs
    cases inner with
    | empty =>
      have hbody : (within (.content b₁) (hear f (lineAt level) :: fs)).run
          (if text.isEmpty then emptyTag tag.toList
            else openTag tag.toList ++ text.toList.flatMap escapeChar ++ closeTag tag.toList) =
          some (within (.content 0) (receive (hear f (lineAt level)) ⟨tag, text, .empty⟩ :: fs)) := by
        split
        · rename_i hempty
          rw [run_emptyTag hname, String.ofList_toList, String.isEmpty_iff.1 hempty]
        · exact run_leaf hname htext b₁ _ fs
      obtain ⟨b₂, hafter⟩ := ihRest hrest level 0 _ fs
      refine ⟨b₂, ?_⟩
      rw [writeHedge, List.append_assoc, run_append_of_eq hline, run_append_of_eq hbody, hafter,
        ← takeIn_element]
      rfl
    | element tag' text' inner' rest' =>
      obtain ⟨b₂, g, hb₂, hg, hout, hfinished⟩ :=
        run_inside hname rfl (ihInner hinner (level + 1)) b₁ (hear f (lineAt level) :: fs)
      have hclose := run_closing hname hg hout b₂ (hear f (lineAt level)) fs
      obtain ⟨b₃, hafter⟩ := ihRest hrest level 0 (receive (hear f (lineAt level)) (finished g)) fs
      refine ⟨b₃, ?_⟩
      rw [writeHedge, List.append_assoc, run_append_of_eq hline, List.append_assoc, run_append_of_eq hb₂,
        run_append_of_eq hclose, hafter, hfinished, ← takeIn_element]
      rfl

end Hedges

end Reading

section Documents

theorem return_not_mem_name {name : List Char} (h : isPlainName name) : '\r' ∉ name := fun hr =>
  absurd (inside_of_isPlainName h _ hr).1 (by decide)

theorem return_not_mem_lineAt (level : Nat) : '\r' ∉ lineAt level := by
  simp [lineAt, List.mem_replicate]

theorem return_not_mem_text {cs : List Char} (h : ∀ c ∈ cs, isPlainText c) : '\r' ∉ cs.flatMap escapeChar := by
  intro hr
  obtain ⟨c, hc, hr⟩ := List.mem_flatMap.1 hr
  by_cases hamp : c = '&'
  · subst hamp
    exact absurd hr (by decide)
  by_cases hlt : c = '<'
  · subst hlt
    exact absurd hr (by decide)
  by_cases hgt : c = '>'
  · subst hgt
    exact absurd hr (by decide)
  have hescape : escapeChar c = [c] := by
    rw [escapeChar] <;> assumption
  rw [hescape, List.mem_singleton] at hr
  subst hr
  exact absurd (h _ hc) (by decide)

/-- Of the ends of lines, only line feeds are written. -/
theorem return_not_mem_writeHedge {h : Hedge} (hw : h.Writable) (level : Nat) : '\r' ∉ writeHedge level h := by
  induction h generalizing level with
  | empty => exact List.not_mem_nil
  | element tag text inner rest ihInner ihRest =>
    obtain ⟨⟨hname, htext⟩, hinner, hrest⟩ := hw
    have hname := return_not_mem_name hname
    have hrest := ihRest hrest level
    have hinner := ihInner hinner (level + 1)
    cases inner with
    | empty =>
      rw [writeHedge]
      split <;> simp [return_not_mem_lineAt, emptyTag, openTag, closeTag, hname, hrest,
        return_not_mem_text htext]
    | element tag' text' inner' rest' =>
      rw [writeHedge]
      simp [return_not_mem_lineAt, openTag, closeTag, hname, hrest, hinner]

/-- A document as it is written, without the line feed at its end. -/
def document (tag : String) (inner : Hedge) : List Char :=
  openTag tag.toList ++ writeHedge 1 inner ++ lineAt 0 ++ closeTag tag.toList

theorem writeDocument_eq {tag : String} {inner : Hedge} (hne : inner.isEmpty = false) :
    writeDocument tag inner = document tag inner ++ ['\n'] := by
  cases inner with
  | empty => cases hne
  | element tag' text' inner' rest' =>
    rw [writeDocument, Hedge.node, writeHedge, writeHedge, List.append_nil]
    rfl

/-- A document is read as what was written, with the line breaks as texts. -/
theorem readDocument?_document {tag : String} {inner : Hedge} (hname : isPlainName tag.toList)
    (hw : inner.Writable) (hne : inner.isEmpty = false) :
    readDocument? (document tag inner) = some ⟨tag, String.ofList (lineAt 1), inner.laidOut 1⟩ := by
  have hreturn : '\r' ∉ document tag inner := by
    simp [document, openTag, closeTag, return_not_mem_name hname, return_not_mem_writeHedge hw,
      return_not_mem_lineAt]
  obtain ⟨b, g, hrun, hg, hout, hfinished⟩ :=
    @Reading.run_inside tag inner hname hne 0 (Reading.run_writeHedge hw 1) 0 []
  have hclose := Reading.closeElement_root hout (.content 0)
  rw [hg, ← Reading.run_closeTag hname b] at hclose
  have hall : List.foldlM Reading.step {} (document tag inner) =
      some { Reading.within (.content 0) [] with root := some (Reading.finished g) } :=
    (Reading.run_append_of_eq hrun (closeTag tag.toList)).trans hclose
  rw [readDocument?, Text.unifyLineEnds_of_not_mem hreturn, hall, hfinished]
  rfl

end Documents

end InlineImpact.Markup
