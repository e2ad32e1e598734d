import InlineImpact.Proofs.Capture.Lookup

/-!
The written form of a method and its two readers. Identities and the keys of captures are read in the same way
from any text, so they agree on which texts they accept and on what these name. A written form is one of these
texts, whatever the sign and the size of its numbers, and names the method that it is written for.
-/
namespace InlineImpact

namespace Capture

/-- What a text holds behind its first colon, without the blanks around the text. -/
def hashPart (s : List Char) : List Char := (Text.cutAt ':' (Text.trim s)).2

/-- The method that is named; without a hash, the one whose hash is zero. -/
def Naming.method (n : Naming) : MethodId := ⟨n.token, n.hash.getD 0⟩

variable {s : List Char} {n : Naming}

theorem names_text (m : MethodId) : Names m.text.toList ⟨m.token, some m.hash⟩ := by
  apply Names.hashed
  · rw [m.trim_text, m.toList_text]
  · exact Text.spellsHex_hex8 m.token
  · exact Text.spellsHex_hex8 m.hash

/-- An identity is read from what a text names. -/
theorem read?_eq (s : List Char) : MethodId.read? s = (namingOf? s).map Naming.method := by
  rw [MethodId.read?, namingOf?]
  obtain ⟨token, hash⟩ := Text.cutAt ':' (Text.trim s)
  dsimp only
  cases Text.readHex? token with
  | none => by_cases hempty : hash.isEmpty = true <;> simp [hempty]
  | some t =>
    by_cases hempty : hash.isEmpty = true
    · simp [hempty, Naming.method]
    · cases Text.readHex? hash <;> simp [hempty, Naming.method]

/-- A hash is named if something follows the colon. -/
theorem Names.hash_eq_none_iff (h : Names s n) : n.hash = none ↔ hashPart s = [] := by
  rw [hashPart]
  rcases h with ⟨htext | htext, htoken⟩ | ⟨htext, htoken, hhash⟩
  · rw [htext, cutAt_of_not_mem (colon_not_mem htoken)]
    simp
  · rw [htext, cutAt_append (colon_not_mem htoken)]
    simp
  · rw [htext, cutAt_append (colon_not_mem htoken)]
    simp [Text.ne_nil_of_spellsHex hhash]

/-- The key of a text is the written form of the method that is read from it, with a hash if the text has one. -/
theorem methodKey?_eq_written (s : List Char) : methodKey? s =
    (MethodId.read? s).map (if hashPart s = [] then MethodId.tokenText else MethodId.text) := by
  rw [methodKey?_eq, read?_eq]
  cases hn : namingOf? s with
  | none => rfl
  | some n =>
    have hhash := (namingOf?_eq_some_iff.1 hn).hash_eq_none_iff
    obtain ⟨token, _ | hash⟩ := n
    · rw [if_pos (hhash.1 rfl)]
      rfl
    · rw [if_neg (hhash.not.1 (Option.some_ne_none hash))]
      rfl

end Capture

namespace MethodId

open Capture

variable {s : List Char} {m : MethodId}

/-- A method is read from a text if the text names it. -/
theorem read?_eq_some_iff : read? s = some m ↔ ∃ n, Names s n ∧ n.method = m := by
  rw [read?_eq, Option.map_eq_some_iff]
  simp only [namingOf?_eq_some_iff]

theorem read?_text (m : MethodId) : read? m.text.toList = some m := by
  rw [read?_eq_some_iff]
  exact ⟨_, names_text m, rfl⟩

theorem hashPart_text_ne_nil (m : MethodId) : hashPart m.text.toList ≠ [] := by
  intro h
  cases (names_text m).hash_eq_none_iff.2 h

theorem hash_eq_zero (hread : read? s = some m) (h : hashPart s = []) : m.hash = 0 := by
  obtain ⟨n, hn, rfl⟩ := read?_eq_some_iff.1 hread
  rw [Naming.method, hn.hash_eq_none_iff.2 h]
  rfl

/-- Every method is read from its written form, so no two have one in common. What is read are the texts that
name a method, in any spelling. The key that a capture keeps such a text under is the written form of the method
if the text has a hash; if it has none, the key is the form without a hash, and the hash of the method is zero. -/
theorem text_identifies :
    (∀ m : MethodId, read? m.text.toList = some m ∧ methodKey? m.text.toList = some m.text) ∧
    Function.Injective text ∧
    (∀ s m, read? s = some m ↔ ∃ n, Names s n ∧ n.method = m) ∧
    (∀ s, hashPart s ≠ [] → methodKey? s = (read? s).map text) ∧
    ∀ s, hashPart s = [] → methodKey? s = (read? s).map tokenText ∧ ∀ m, read? s = some m → m.hash = 0 := by
  refine ⟨fun m => ⟨read?_text m, ?_⟩, text_injective, fun _ _ => read?_eq_some_iff, ?_, ?_⟩
  · rw [methodKey?_eq_written, if_neg m.hashPart_text_ne_nil, read?_text]
    rfl
  · intro s h
    rw [methodKey?_eq_written, if_neg h]
  · intro s h
    rw [methodKey?_eq_written, if_pos h]
    exact ⟨rfl, fun m hread => hash_eq_zero hread h⟩

end MethodId

end InlineImpact
