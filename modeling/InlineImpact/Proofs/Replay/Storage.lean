import InlineImpact.Proofs.Replay
import InlineImpact.Proofs.Text.Hex
import InlineImpact.Proofs.Text.Utf8
import InlineImpact.Proofs.Workspace

/-!
Writing replays out. In a workspace that fits a layout with room for replays a tree is written out,
unless its root's token is so long that the name of the file is too long.
-/
namespace InlineImpact

/-- A text that can be the name of a file. -/
def Nameable (s : String) : Prop := '/' ∉ s.toList ∧ '\x00' ∉ s.toList

instance (s : String) : Decidable (Nameable s) := inferInstanceAs (Decidable (_ ∧ _))

theorem Nameable.append {s t : String} (hs : Nameable s) (ht : Nameable t) : Nameable (s ++ t) := by
  unfold Nameable at *
  simp only [String.toList_append, List.mem_append]
  tauto

theorem nameable_of_forall {s : String} (h : ∀ c ∈ s.toList, c ≠ '/' ∧ c ≠ '\x00') : Nameable s :=
  ⟨fun hc => (h _ hc).1 rfl, fun hc => (h _ hc).2 rfl⟩

section Digits

theorem digitChar_nameable {d : Nat} (h : d < 16) : d.digitChar ≠ '/' ∧ d.digitChar ≠ '\x00' := by
  have hall : ∀ d < 16, Nat.digitChar d ≠ '/' ∧ Nat.digitChar d ≠ '\x00' := by decide
  exact hall d h

theorem nameable_hex8 (n : Int) : Nameable (Text.hex8 n) := by
  apply nameable_of_forall
  intro c hc
  rw [Text.hex8, String.toList_ofList] at hc
  rcases Text.mem_hexWide hc with rfl | ⟨d, hd, rfl⟩
  · decide
  · exact digitChar_nameable hd

theorem nameable_toString (n : Nat) : Nameable (toString n) := by
  apply nameable_of_forall
  intro c hc
  rw [Nat.toString_eq_ofList_toDigits, String.toList_ofList] at hc
  obtain ⟨d, hd, rfl⟩ := Text.exists_digitChar_of_mem_toDigits (by decide) hc
  exact digitChar_nameable (by omega)

theorem exists_digitChar_of_mem_digest {text : String} {c : Char} (h : c ∈ (Replay.digest text).toList) :
    ∃ d < 16, Nat.digitChar d = c := by
  rw [Replay.digest, String.toList_ofList, Digest.hex, String.toList_ofList] at h
  obtain ⟨byte, -, hc⟩ := List.mem_flatMap.1 (List.mem_of_mem_take h)
  have hbyte := byte.toNat_lt
  simp only [Digest.hexByte, List.mem_cons, List.not_mem_nil, or_false] at hc
  rcases hc with rfl | rfl
  · exact ⟨_, by omega, rfl⟩
  · exact ⟨_, by omega, rfl⟩

theorem nameable_digest (text : String) : Nameable (Replay.digest text) := by
  apply nameable_of_forall
  intro c hc
  obtain ⟨d, hd, rfl⟩ := exists_digitChar_of_mem_digest hc
  exact digitChar_nameable hd

end Digits

namespace Replay

/-- The name of the file of a replay. -/
def fileName (t : Tree) (text : String) : String := nameFor t text ++ ".xml"

theorem nameable_fileName (t : Tree) (text : String) : Nameable (fileName t text) := by
  have hfixed : Nameable "replay-" ∧ Nameable "-" ∧ Nameable ".xml" := by decide
  obtain ⟨hreplay, hdash, hxml⟩ := hfixed
  unfold fileName nameFor
  exact (((((hreplay.append (nameable_hex8 _)).append hdash).append (nameable_toString _)).append
    hdash).append (nameable_digest text)).append hxml

theorem utf8ByteSize_ofList_le (cs : List Char) : (String.ofList cs).utf8ByteSize ≤ 4 * cs.length := by
  induction cs with
  | nil => decide
  | cons c cs ih =>
    have hcons : String.ofList (c :: cs) = String.singleton c ++ String.ofList cs := by simp
    have hchar := c.utf8Size_le_four
    rw [hcons, String.utf8ByteSize_append, String.utf8ByteSize_singleton, List.length_cons]
    omega

/-- Apart from the root's token and the size, there is a bound for the name of a file. -/
theorem utf8ByteSize_fileName_le (t : Tree) (text : String) : (fileName t text).utf8ByteSize ≤
    53 + (Text.hex8 t.root.token).utf8ByteSize + (toString t.size).utf8ByteSize := by
  have hmark : "replay-".utf8ByteSize = 7 ∧ "-".utf8ByteSize = 1 ∧ ".xml".utf8ByteSize = 4 := by decide
  obtain ⟨hreplay, hdash, hxml⟩ := hmark
  have hdigest : (digest text).utf8ByteSize ≤ 40 := by
    have hlength : ((Digest.hex text.toUTF8).toList.take 10).length ≤ 10 := by
      rw [List.length_take]
      omega
    have := utf8ByteSize_ofList_le ((Digest.hex text.toUTF8).toList.take 10)
    rw [digest]
    omega
  simp only [fileName, nameFor, String.utf8ByteSize_append, hreplay, hdash, hxml]
  omega

theorem intercalate_concat_ne_empty (parts : List String) {last : String} (h : last ≠ "") :
    "/".intercalate (parts ++ [last]) ≠ "" := by
  by_cases hp : parts = []
  · simpa [hp] using h
  · rw [String.intercalate_append_of_ne_nil hp (List.cons_ne_nil last [])]
    simp

theorem text_concat (root : String) (parts : List String) {last : String} (h : last ≠ "") :
    PurePath.text ⟨root, parts ++ [last]⟩ = root ++ "/".intercalate (parts ++ [last]) := by
  have hne := intercalate_concat_ne_empty parts h
  simp only [PurePath.text]
  rw [if_neg]
  simp [hne]

/-- The text of the directory of replays. -/
def directoryText (resultsDir : String) : String := (directory (targetDir resultsDir)).text

theorem exists_directory_eq (resultsDir : String) :
    ∃ root parts, directory resultsDir = ⟨root, parts ++ ["replay"]⟩ := by
  have hreplay : PurePath.ofText "replay" = ⟨"", ["replay"]⟩ := by
    rw [PurePath.ofText, Text.splitOn_slash]
    decide
  rw [directory, hreplay]
  exact ⟨_, _, rfl⟩

theorem file_eq (resultsDir name : String) :
    file resultsDir name = (directory resultsDir).text ++ "/" ++ (name ++ ".xml") := by
  obtain ⟨root, parts, hdir⟩ := exists_directory_eq resultsDir
  have hjoin : PurePath.join ⟨root, parts ++ ["replay"]⟩ ⟨"", [name ++ ".xml"]⟩ =
      ⟨root, (parts ++ ["replay"]) ++ [name ++ ".xml"]⟩ := rfl
  rw [file, hdir, hjoin, text_concat root _ (by simp), text_concat root parts (by decide),
    String.intercalate_append_of_ne_nil (by simp) (by simp)]
  simp [String.append_assoc]

section File

variable (resultsDir : String) (t : Tree) (text : String)

theorem text_directory_ne_empty : (directory resultsDir).text ≠ "" := by
  obtain ⟨root, parts, hdir⟩ := exists_directory_eq resultsDir
  have hne := intercalate_concat_ne_empty parts (show "replay" ≠ "" by decide)
  rw [hdir, text_concat root parts (by decide)]
  simp [hne]

theorem splitOn_file : (file resultsDir (nameFor t text)).splitOn "/" =
    (directory resultsDir).text.splitOn "/" ++ [fileName t text] := by
  rw [file_eq]
  exact Text.splitOn_append_slash _ _ (nameable_fileName t text).1

/-- The file is looked for from where its directory is. -/
theorem head?_file :
    (file resultsDir (nameFor t text)).toList.head? = (directory resultsDir).text.toList.head? := by
  have hne : (directory resultsDir).text.toList ≠ [] := by
    simpa using text_directory_ne_empty resultsDir
  rw [file_eq, String.append_assoc, String.toList_append, List.head?_append_of_ne_nil _ hne]

theorem endsWith_file : (file resultsDir (nameFor t text)).endsWith "/" = false := by
  rw [Bool.eq_false_iff]
  intro hend
  have hfile : (file resultsDir (nameFor t text)).toList =
      ((directory resultsDir).text ++ "/" ++ nameFor t text).toList ++ ".xml".toList := by
    simp [file_eq]
  have hlast := Text.endsWith_slash_iff.1 hend
  rw [hfile, List.getLast?_append] at hlast
  exact absurd (show some 'l' = some '/' from hlast) (by decide)

theorem not_mem_file (h : '\x00' ∉ (directory resultsDir).text.toList) :
    '\x00' ∉ (file resultsDir (nameFor t text)).toList := by
  have hname : '\x00' ∉ (fileName t text).toList := (nameable_fileName t text).2
  have hfile : file resultsDir (nameFor t text) = (directory resultsDir).text ++ "/" ++ fileName t text :=
    file_eq ..
  rw [hfile]
  simp only [String.toList_append, List.mem_append, not_or]
  exact ⟨⟨h, by decide⟩, hname⟩

/-- The name of the file leads one place further down. -/
theorem next_fileName (place : Place) : Workspace.next place (fileName t text) = place ++ [fileName t text] := by
  have hfirst : (fileName t text).toList.head? = some 'r' := by simp [fileName, nameFor]
  have hne (s : String) (hs : s.toList.head? ≠ some 'r') : (fileName t text == s) = false := by
    rw [beq_eq_false_iff_ne]
    rintro rfl
    exact hs hfirst
  rw [Workspace.next, hne "" (by decide), hne "." (by decide), hne ".." (by decide)]
  rfl

end File

/-- Once the directory is there, the file is compared, and written if it differs. -/
theorem prepare_of_made {ws made : Workspace} {t : Tree} {text resultsDir : String} (ht : content t = .ok text)
    (hmade : ws.makeDirectories (directoryText resultsDir) = .ok made) :
    prepare ws t resultsDir =
      (isCurrent made (file (targetDir resultsDir) (nameFor t text)) text).bind fun current =>
        (if current then .ok made
        else (made.writeText (file (targetDir resultsDir) (nameFor t text)) text).mapError .storage).map
          fun ws => (configuration (targetDir resultsDir) (nameFor t text), ws) := by
  unfold directoryText at hmade
  simp only [prepare, ht, hmade, bind, Except.bind, Except.mapError]
  generalize file (targetDir resultsDir) (nameFor t text) = path
  cases isCurrent made path text with
  | error failure => rfl
  | ok current =>
    cases current with
    | true => rfl
    | false =>
      generalize made.writeText path text = written
      cases written <;> rfl

end Replay

open Replay (directoryText fileName)
open Workspace (maxNameBytes next)

theorem admits_toUTF8 (text : String) (executable : Bool) :
    Purpose.text.Admits (some (.file text.toUTF8 executable)) := by
  refine ⟨_, _, rfl, ?_⟩
  rw [Workspace.decode?, Text.fromUTF8?_toUTF8]
  rfl

/-- The layout has a directory for replays, and what stands there under the name of a replay is text. -/
structure Layout.TakesReplays (L : Layout) (resultsDir : String) : Prop where
  makes : L.Makes (directoryText resultsDir)
  texts : ∀ t text, Replay.content t = .ok text →
    L.purpose (next (((directoryText resultsDir).splitOn "/").foldl next
      (L.startOf (directoryText resultsDir))) (fileName t text)) = some .text

namespace Replay

section Current

variable {ws : Workspace} {path text : String} {place : Place}

theorem isCurrent_of_locate_error {e : StorageError} (h : ws.locate path = .error e) :
    isCurrent ws path text = .ok false := by
  simp [isCurrent, Workspace.holds, Workspace.entry?, h]

/-- A file of text has the written form or it does not. -/
theorem exists_isCurrent (hplace : ws.locate path = .ok place)
    (htext : Purpose.text.Admits (ws.entries.get? place)) : ∃ current, isCurrent ws path text = .ok current := by
  simp only [isCurrent, Workspace.holds, Workspace.entry?, Workspace.read, hplace]
  cases hentry : ws.entries.get? place with
  | none => exact ⟨false, rfl⟩
  | some entry =>
    rw [hentry] at htext
    obtain ⟨bytes, executable, rfl, hdecode⟩ := htext
    obtain ⟨cs, hcs⟩ := Option.isSome_iff_exists.1 hdecode
    simp only [hcs]
    exact ⟨_, rfl⟩

/-- What is no text cannot be compared. -/
theorem isCurrent_of_garbled (hplace : ws.locate path = .ok place)
    (hdata : Purpose.data.Admits (ws.entries.get? place))
    (hgarbled : ¬Purpose.text.Admits (ws.entries.get? place)) : isCurrent ws path text = .error (.notText path) := by
  simp only [isCurrent, Workspace.holds, Workspace.entry?, Workspace.read, hplace]
  cases hentry : ws.entries.get? place with
  | none =>
    rw [hentry] at hgarbled
    exact (hgarbled trivial).elim
  | some entry =>
    rw [hentry] at hdata hgarbled
    obtain ⟨bytes, executable, rfl⟩ := hdata
    cases hdecode : Workspace.decode? bytes with
    | none =>
      simp only [hdecode]
      rfl
    | some cs => exact (hgarbled ⟨bytes, executable, rfl, by rw [hdecode]; rfl⟩).elim

end Current

end Replay

namespace Layout.TakesReplays

variable {L : Layout} {resultsDir text : String} {t : Tree} {ws : Workspace}

/-- The path of the file of a replay. -/
theorem leads (h : L.TakesReplays resultsDir) (ht : Replay.content t = .ok text) :
    L.Leads (directoryText resultsDir) (Replay.file (Replay.targetDir resultsDir) (Replay.nameFor t text))
      ((directoryText resultsDir).splitOn "/") (fileName t text) .text := by
  have hstart : L.startOf (Replay.file (Replay.targetDir resultsDir) (Replay.nameFor t text)) =
      L.startOf (directoryText resultsDir) := by
    have hsame : (Replay.file (Replay.targetDir resultsDir) (Replay.nameFor t text)).startsWith "/" =
        (directoryText resultsDir).startsWith "/" := by
      rw [Bool.eq_iff_iff, Text.startsWith_slash_iff, Text.startsWith_slash_iff, Replay.head?_file]
      rfl
    rw [startOf, hsame, ← startOf]
  constructor
  case named => exact Replay.not_mem_file _ _ _ h.makes.named
  case nonempty =>
    rw [Replay.file_eq]
    simp
  case file => exact Replay.endsWith_file ..
  case cut => exact Replay.splitOn_file ..
  case short => exact h.makes.short
  case within =>
    rw [hstart]
    exact fun p hp => hp
  case purpose =>
    rw [hstart]
    exact h.texts t text ht

/-- A tree is written out. -/
theorem prepare (h : L.TakesReplays resultsDir) (hws : L.Fits ws) (ht : Replay.content t = .ok text)
    (hname : (fileName t text).utf8ByteSize ≤ maxNameBytes) :
    ∃ c ws', Replay.prepare ws t resultsDir = .ok (c, ws') ∧ L.Keeps ws ws' := by
  obtain ⟨made, hmade, hkeep, hopen⟩ := hws.makeDirectories h.makes
  have hl := h.leads ht
  obtain ⟨written, hwritten, hkeep'⟩ := hkeep.fits.write hl hopen hname nofun (admits_toUTF8 text)
  have hlocate := hkeep.fits.locate hl hopen
  rw [if_neg (Nat.not_lt.2 hname)] at hlocate
  have hadmits : Purpose.text.Admits _ := hkeep.fits.admits _ _ hl.purpose
  obtain ⟨current, hcurrent⟩ : ∃ current, Replay.isCurrent made
      (Replay.file (Replay.targetDir resultsDir) (Replay.nameFor t text)) text = .ok current :=
    Replay.exists_isCurrent hlocate hadmits
  rw [Replay.prepare_of_made ht hmade, hcurrent]
  cases current with
  | true => exact ⟨_, _, rfl, hkeep⟩
  | false =>
    rw [Workspace.writeText, hwritten]
    exact ⟨_, _, rfl, hkeep.trans hkeep'⟩

/-- A tree is not written out if the name of its file is too long. -/
theorem prepare_of_long (h : L.TakesReplays resultsDir) (hws : L.Fits ws)
    (ht : Replay.content t = .ok text) (hname : maxNameBytes < (fileName t text).utf8ByteSize) :
    Replay.prepare ws t resultsDir = .error (.storage ⟨.nameTooLong,
      Replay.file (Replay.targetDir resultsDir) (Replay.nameFor t text)⟩) := by
  obtain ⟨made, hmade, hkeep, hopen⟩ := hws.makeDirectories h.makes
  have hl := h.leads ht
  have hwritten := hkeep.fits.write_of_long hl hopen hname text.toUTF8
  have hlocate := hkeep.fits.locate hl hopen
  rw [if_pos hname] at hlocate
  rw [Replay.prepare_of_made ht hmade, Replay.isCurrent_of_locate_error hlocate, Workspace.writeText, hwritten]
  rfl

end Layout.TakesReplays

section Usual

/-- A workspace with no more than its root. -/
def bareFiles : Workspace := ⟨[], [([], .directory)]⟩

/-- The places of replays in the usual directory. -/
def replayLayout : Layout where
  here := []
  purpose
    | [] | ["results"] | ["results", "replay"] => some .directory
    | ["results", "replay", _] => some .text
    | _ => none
  root := rfl
  start := rfl

theorem bareFiles_fits : replayLayout.Fits bareFiles := by
  constructor
  case here => rfl
  case root => rfl
  case start => rfl
  case admits =>
    intro p u hp
    by_cases hroot : p = []
    · subst hroot
      obtain rfl : Purpose.directory = u := Option.some.inj hp
      rfl
    · have hnone : bareFiles.entries.get? p = none := by
        simp [bareFiles, Keyed.get?, Ne.symm hroot]
      rw [hnone]
      cases u <;> trivial

theorem directoryText_default : directoryText defaultResultsDir = "results/replay" := by
  rw [Replay.directoryText, show Replay.targetDir defaultResultsDir = "results" by decide, Replay.directory,
    PurePath.ofText, PurePath.ofText, Text.splitOn_slash, Text.splitOn_slash]
  decide

theorem splitOn_directoryText_default : (directoryText defaultResultsDir).splitOn "/" = ["results", "replay"] := by
  rw [directoryText_default, Text.splitOn_slash]
  decide

theorem replayLayout_takesReplays : replayLayout.TakesReplays defaultResultsDir := by
  have hparts := splitOn_directoryText_default
  have hstart (path : String) : replayLayout.startOf path = [] := ite_self _
  constructor
  case makes =>
    constructor
    case named =>
      rw [directoryText_default]
      decide
    case nonempty =>
      rw [directoryText_default]
      decide
    case short =>
      rw [hparts]
      decide
    case directories =>
      rw [Layout.way, hparts, hstart]
      intro p hp
      have hall : ∀ q ∈ [["results"], ["results", "replay"]], replayLayout.purpose q = some .directory := by
        simp [replayLayout]
      exact hall p hp
  case texts =>
    intro t text _
    rw [hparts, hstart, Replay.next_fileName]
    rfl

end Usual

end InlineImpact
