import InlineImpact.Proofs.Outcome
import InlineImpact.Template

/-!
Templates that only name what they want. If the fields of a template are the path of the capture and the interval,
without parts, forms or layouts, then it can be filled unless it asks for an interval with too many digits.
-/
namespace InlineImpact.Template

/-- A piece of such a template. A brace that is meant itself is written twice. -/
inductive Piece where
  | plain (c : Char) (h : c ≠ '{' ∧ c ≠ '}')
  | opening
  | closing
  | events
  | interval

namespace Piece

def write : Piece → List Char
  | plain c _ => [c]
  | opening => ['{', '{']
  | closing => ['}', '}']
  | events => '{' :: ("events".toList ++ ['}'])
  | interval => '{' :: ("interval".toList ++ ['}'])

def template (pieces : List Piece) : String := String.ofList (pieces.flatMap write)

/-- What can be named. -/
def values (path : List Char) (interval : Int) : Keyed String Value :=
  [("events", .text path), ("interval", .int interval)]

def digits (n : Int) : List Char := (if n < 0 then ['-'] else []) ++ Nat.toDigits 10 n.natAbs

/-- What a piece is filled with. -/
def filled (path : List Char) (n : Int) : Piece → Except TemplateFault (List Char)
  | plain c _ => .ok [c]
  | opening => .ok ['{']
  | closing => .ok ['}']
  | events => .ok path
  | interval => if Text.isWritable n then .ok (digits n) else .error .malformed

end Piece

open Piece (values)

variable {path : List Char} {n : Int} {expand : List Char → Except TemplateFault (List Char)}

/-- A field that is just a name has the value of this name. -/
theorem value_of_name {name : String} {v : Value} (hname : name ∈ ["events", "interval"])
    (hv : (values path n).get? name = some v) :
    Field.value (values path n) ⟨name.toList, none, []⟩ = .ok v := by
  have hall : ∀ name ∈ ["events", "interval"],
      (name.toList.takeWhile fun c => c != '.' && c != '[') = name.toList ∧ name.toList.isEmpty = false ∧
        Value.index? name.toList = .ok none := by
    simp only [List.forall_mem_cons]
    exact ⟨⟨rfl, rfl, rfl⟩, ⟨rfl, rfl, rfl⟩, nofun⟩
  obtain ⟨hfirst, hfilled, hindex⟩ := hall name hname
  simp [Field.value, hfirst, hfilled, hindex, hv, Value.select, bind, Except.bind]

theorem fill_events : Field.fill (values path n) expand ⟨"events".toList, none, []⟩ = .ok path := by
  have hvalue : Field.value (values path n) ⟨"events".toList, none, []⟩ = .ok (.text path) :=
    value_of_name (.head _) rfl
  have hrender : Value.render [] (.text path) = .ok path := by
    have hlayout : Layout.read false [] = .ok ⟨' ', none, none, false, false, none, none, none, none⟩ := rfl
    simp [Value.render, hlayout, Layout.text, Layout.padding, Layout.filling, bind, Except.bind]
  simp only [Field.fill, hvalue, bind, Except.bind, pure, Except.pure]
  exact hrender

/-- An integer without a layout is written with its sign and its digits. -/
theorem render_int : Value.render [] (.int n) =
    if Text.isWritable n then .ok (Piece.digits n) else .error .malformed := by
  have hlayout : Layout.read true [] = .ok ⟨' ', none, none, false, false, none, none, none, none⟩ := rfl
  have hdigits : (Nat.toDigits 10 n.natAbs).isEmpty = false := by simp [Nat.toDigits_ne_nil]
  by_cases h : (Nat.toDigits 10 n.natAbs).length ≤ Text.maxDigits
  · have hwhole : Layout.wholeNumber n = .ok ⟨[], Nat.toDigits 10 n.natAbs, []⟩ := if_neg (Nat.not_lt.2 h)
    simp [Value.render, hlayout, Layout.integer, hwhole, Layout.place, hdigits, Layout.padding, Layout.filling,
      Text.isWritable, h, Piece.digits, bind, Except.bind, pure, Except.pure]
  · have hwhole : Layout.wholeNumber n = .error .malformed := if_pos (Nat.not_le.1 h)
    simp [Value.render, hlayout, Layout.integer, hwhole, Text.isWritable, h, bind, Except.bind]

theorem fill_interval : Field.fill (values path n) expand ⟨"interval".toList, none, []⟩ =
    if Text.isWritable n then .ok (Piece.digits n) else .error .malformed := by
  have hvalue : Field.value (values path n) ⟨"interval".toList, none, []⟩ = .ok (.int n) :=
    value_of_name (.tail _ (.head _)) rfl
  simp only [Field.fill, hvalue, bind, Except.bind, pure, Except.pure]
  exact render_int

/-- A field that is just a name is read up to its closing brace. -/
theorem read?_name {name : List Char} (hname : name ∈ ["events".toList, "interval".toList]) (rest : List Char) :
    Field.read? (name ++ '}' :: rest) = some (⟨name, none, []⟩, rest) := by
  rcases List.mem_cons.1 hname with rfl | hname
  · rfl
  · obtain rfl := List.mem_singleton.1 hname
    rfl

/-- A field that is just a name is filled, and then what stands behind it. -/
theorem expandWith_name {fill : Field → Except TemplateFault (List Char)} {name : List Char}
    (hname : name ∈ ["events".toList, "interval".toList]) (rest : List Char) :
    expandWith fill ('{' :: (name ++ '}' :: rest)) =
      (fill ⟨name, none, []⟩ >>= fun front => expandWith fill rest >>= fun back => .ok (front ++ back)) := by
  have hfirst (more : List Char) : name ++ '}' :: rest ≠ '{' :: more := by
    rcases List.mem_cons.1 hname with rfl | hname
    · simp
    · obtain rfl := List.mem_singleton.1 hname
      simp
  have hshorter : rest.length ≤ (name ++ '}' :: rest).length := by
    simp only [List.length_append, List.length_cons]
    omega
  rw [expandWith.eq_5 _ _ hfirst, read?_name hname]
  dsimp only
  rw [if_pos hshorter]
  rfl

/-- One piece is filled, and then what stands behind it. -/
theorem expandWith_write (piece : Piece) (rest : List Char) :
    expandWith (Field.fill (values path n) expand) (piece.write ++ rest) =
      (piece.filled path n >>= fun front => expandWith (Field.fill (values path n) expand) rest >>= fun back =>
        .ok (front ++ back)) := by
  cases piece with
  | plain c h =>
    rw [Piece.write, List.singleton_append,
      expandWith.eq_6 _ c rest (fun _ hc => (h.1 hc).elim) (fun _ hc => (h.2 hc).elim) h.2 h.1]
    cases expandWith (Field.fill (values path n) expand) rest <;> rfl
  | opening =>
    rw [show Piece.write .opening ++ rest = '{' :: '{' :: rest from rfl, expandWith.eq_2]
    cases expandWith (Field.fill (values path n) expand) rest <;> rfl
  | closing =>
    rw [show Piece.write .closing ++ rest = '}' :: '}' :: rest from rfl, expandWith.eq_3]
    cases expandWith (Field.fill (values path n) expand) rest <;> rfl
  | events =>
    rw [show Piece.write .events ++ rest = '{' :: ("events".toList ++ '}' :: rest) from rfl,
      expandWith_name (.head _), fill_events]
    rfl
  | interval =>
    rw [show Piece.write .interval ++ rest = '{' :: ("interval".toList ++ '}' :: rest) from rfl,
      expandWith_name (.tail _ (.head _)), fill_interval]
    rfl

/-- Only an interval can fail to be filled. -/
theorem filled_eq_ok_iff (piece : Piece) :
    (∃ front, piece.filled path n = .ok front) ↔ (piece = .interval → Text.isWritable n) := by
  cases piece with
  | plain c h => exact iff_of_true ⟨[c], rfl⟩ nofun
  | opening => exact iff_of_true ⟨['{'], rfl⟩ nofun
  | closing => exact iff_of_true ⟨['}'], rfl⟩ nofun
  | events => exact iff_of_true ⟨path, rfl⟩ nofun
  | interval =>
    cases h : Text.isWritable n with
    | true => exact iff_of_true ⟨_, if_pos h⟩ fun _ => rfl
    | false => simp [Piece.filled, h]

/-- Such a template can be filled unless it asks for an interval that cannot be written. -/
theorem fill_eq_ok_iff (pieces : List Piece) :
    (∃ text, fill (values path n) (Piece.template pieces) = .ok text) ↔
      (Piece.interval ∈ pieces → Text.isWritable n) := by
  rw [fill, Piece.template, String.toList_ofList, Template.expand]
  induction pieces with
  | nil => exact iff_of_true ⟨[], expandWith.eq_1 _⟩ fun h => (List.not_mem_nil h).elim
  | cons piece pieces ih =>
    rw [List.flatMap_cons, expandWith_write]
    constructor
    · rintro ⟨text, htext⟩ hmem
      obtain ⟨front, hfront, hrest⟩ := exists_of_bind_eq_ok htext
      rcases List.mem_cons.1 hmem with hmem | hmem
      · exact (filled_eq_ok_iff piece).1 ⟨front, hfront⟩ hmem.symm
      · obtain ⟨back, hback, -⟩ := exists_of_bind_eq_ok hrest
        exact ih.1 ⟨back, hback⟩ hmem
    · intro hwritable
      obtain ⟨front, hfront⟩ := (filled_eq_ok_iff piece).2 fun h => hwritable (h ▸ .head _)
      obtain ⟨back, hback⟩ := ih.2 fun h => hwritable (.tail _ h)
      exact ⟨front ++ back, by rw [hfront, hback]; rfl⟩

end InlineImpact.Template
