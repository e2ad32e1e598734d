import InlineImpact.Proofs.Replay.Archive

/-!
Restoring replays. Where there is room for the file of a tree, writing the tree out leads to a file that is
read as this tree alone, whatever text the file held before. It fails for just three reasons: a number of the
tree or the name of its file is too long, or what stands in the file is no text.
-/
namespace InlineImpact.Replay

open Workspace (maxNameBytes next stops)

section Room

variable {ws : Workspace} {resultsDir : String} {t : Tree}

/-- The path of the file of a tree. -/
def treePath (resultsDir : String) (t : Tree) : String :=
  file (targetDir resultsDir) (nameFor t (Forest.dumpText [t]))

/-- Where the file of a tree stands. -/
def treePlace (ws : Workspace) (resultsDir : String) (t : Tree) : Place :=
  ((directoryText resultsDir).splitOn "/").foldl next (ws.start (directoryText resultsDir)) ++
    [fileName t (Forest.dumpText [t])]

/-- The directory of replays is there or can be made, and where the file of the tree stands is nothing or a
file, whatever its bytes are. No directory that is to be made takes the place of the file. -/
structure HasRoom (ws : Workspace) (resultsDir : String) (t : Tree) : Prop where
  named : '\x00' ∉ (directoryText resultsDir).toList
  short : ∀ part ∈ (directoryText resultsDir).splitOn "/", part.utf8ByteSize ≤ maxNameBytes
  start : ws.entries.get? (ws.start (directoryText resultsDir)) = some .directory
  free : ∀ p ∈ stops (ws.start (directoryText resultsDir)) ((directoryText resultsDir).splitOn "/"),
    p ≠ treePlace ws resultsDir t ∧ (ws.entries.get? p = none ∨ ws.entries.get? p = some .directory)
  file : Purpose.data.Admits (ws.entries.get? (treePlace ws resultsDir t))

/-- The file of the tree is not longer in its name than a file may be. -/
def HasShortName (t : Tree) : Prop := (fileName t (Forest.dumpText [t])).utf8ByteSize ≤ maxNameBytes

/-- Once the directory is made, the path leads to the place, where nothing has changed. -/
theorem HasRoom.makeDirectories (h : HasRoom ws resultsDir t) :
    ∃ made, ws.makeDirectories (directoryText resultsDir) = .ok made ∧
      made.locate (treePath resultsDir t) =
        (if maxNameBytes < (fileName t (Forest.dumpText [t])).utf8ByteSize then .error .nameTooLong
        else .ok (treePlace ws resultsDir t)) ∧
      made.entries.get? (treePlace ws resultsDir t) = ws.entries.get? (treePlace ws resultsDir t) := by
  have hne : directoryText resultsDir ≠ "" := text_directory_ne_empty (targetDir resultsDir)
  obtain ⟨made, hmade, hhere, hget⟩ :=
    Workspace.makeDirectoriesFrom_spec (fun p hp => (h.free p hp).2) h.short
  have hstops (p : Place)
      (hp : p ∈ stops (ws.start (directoryText resultsDir)) ((directoryText resultsDir).splitOn "/")) :
      made.entries.get? p = some .directory := by rw [hget, if_pos hp]
  have hkept : made.entries.get? (ws.start (directoryText resultsDir)) = some .directory := by
    rw [hget]
    split
    · rfl
    · exact h.start
  refine ⟨made, ?_, ?_, ?_⟩
  · rw [Workspace.makeDirectories, Workspace.parts_of_named h.named hne]
    simp only [bind, Except.bind, hmade]
  · have hpath : made.start (treePath resultsDir t) = ws.start (directoryText resultsDir) := by
      rw [treePath, Workspace.start_congr (head?_file ..), Workspace.start, hhere]
      rfl
    have hnamed : '\x00' ∉ (treePath resultsDir t).toList := not_mem_file _ _ _ h.named
    have hpath' : treePath resultsDir t ≠ "" := by
      rw [treePath, file_eq]
      simp
    rw [Workspace.locate, Workspace.parts_of_named hnamed hpath', hpath, treePath, splitOn_file, treePlace,
      ← next_fileName]
    exact Workspace.follow_concat hkept hstops h.short _
  · rw [hget, if_neg fun hp => (h.free _ hp).1 rfl]

end Room

section Outcome

variable {ws ws' : Workspace} {resultsDir : String} {t : Tree} {c : Configuration}

/-- The file of the configuration is read as a forest whose only root is the tree's, with the same tree. -/
def ReadsBack (ws : Workspace) (c : Configuration) (t : Tree) : Prop :=
  ∃ path f u, fileOf c = some path ∧ Forest.load ws path = .ok f ∧ f.ambiguous = [] ∧ f.roots = [t.root] ∧
    f.tree t.root = .ok u ∧ t.same u = true

theorem Restores.readsBack (h : Restores ws c t) : ReadsBack ws c t := by
  obtain ⟨path, f, u, hpath, hload, hambiguous, htrees, hsame⟩ := h
  have hroots : f.roots = [t.root] := by
    rw [Forest.roots, htrees, hsame.root]
    rfl
  have htree : f.tree t.root = .ok u := by
    simp [Forest.tree, hambiguous, htrees, hsame.root]
  exact ⟨path, f, u, hpath, hload, hambiguous, hroots, htree, Tree.same_iff_alike.2 hsame⟩

/-- A tree is written out where text or nothing stands. -/
theorem HasRoom.exists_prepare (h : HasRoom ws resultsDir t) (hreadable : Forest.Readable t)
    (hname : HasShortName t) (htext : Purpose.text.Admits (ws.entries.get? (treePlace ws resultsDir t))) :
    ∃ c ws', prepare ws t resultsDir = .ok (c, ws') := by
  obtain ⟨made, hmade, hlocate, hentry⟩ := h.makeDirectories
  rw [if_neg (Nat.not_lt.2 hname)] at hlocate
  rw [← hentry] at htext
  have hfile : made.entries.get? (treePlace ws resultsDir t) ≠ some .directory := by
    intro hdirectory
    rw [hdirectory] at htext
    obtain ⟨bytes, executable, hne, -⟩ := htext
    cases hne
  obtain ⟨current, hcurrent⟩ : ∃ current,
      isCurrent made (treePath resultsDir t) (Forest.dumpText [t]) = .ok current := exists_isCurrent hlocate htext
  obtain ⟨written, hwritten⟩ :=
    Workspace.exists_write (endsWith_file ..) hlocate hfile (Forest.dumpText [t]).toUTF8
  rw [treePath] at hcurrent
  rw [prepare_of_made (content_of_readable hreadable) hmade, hcurrent]
  cases current with
  | true => exact ⟨_, _, rfl⟩
  | false =>
    rw [Workspace.writeText, hwritten]
    exact ⟨_, _, rfl⟩

theorem HasRoom.prepare_of_long (h : HasRoom ws resultsDir t) (hreadable : Forest.Readable t)
    (hname : ¬HasShortName t) :
    prepare ws t resultsDir = .error (.storage ⟨.nameTooLong, treePath resultsDir t⟩) := by
  obtain ⟨made, hmade, hlocate, -⟩ := h.makeDirectories
  rw [if_pos (Nat.not_le.1 hname)] at hlocate
  have hcurrent : isCurrent made (treePath resultsDir t) (Forest.dumpText [t]) = .ok false :=
    isCurrent_of_locate_error hlocate
  have hwritten := Workspace.write_of_locate_error (endsWith_file ..) hlocate (Forest.dumpText [t]).toUTF8
  rw [treePath] at hcurrent ⊢
  rw [prepare_of_made (content_of_readable hreadable) hmade, hcurrent, Workspace.writeText, hwritten]
  rfl

theorem HasRoom.prepare_of_garbled (h : HasRoom ws resultsDir t) (hreadable : Forest.Readable t)
    (hname : HasShortName t) (hgarbled : ¬Purpose.text.Admits (ws.entries.get? (treePlace ws resultsDir t))) :
    prepare ws t resultsDir = .error (.notText (treePath resultsDir t)) := by
  obtain ⟨made, hmade, hlocate, hentry⟩ := h.makeDirectories
  rw [if_neg (Nat.not_lt.2 hname)] at hlocate
  rw [← hentry] at hgarbled
  have hdata := h.file
  rw [← hentry] at hdata
  have hcurrent : isCurrent made (treePath resultsDir t) (Forest.dumpText [t]) =
      .error (.notText (treePath resultsDir t)) := isCurrent_of_garbled hlocate hdata hgarbled
  rw [treePath] at hcurrent ⊢
  rw [prepare_of_made (content_of_readable hreadable) hmade, hcurrent]
  rfl

/-- There is nothing else that keeps a tree from being written out. -/
theorem HasRoom.of_prepare (h : HasRoom ws resultsDir t) (hsize : Forest.hasReadableSize t.size)
    (hprepare : prepare ws t resultsDir = .ok (c, ws')) : Forest.Readable t ∧ HasShortName t ∧
      Purpose.text.Admits (ws.entries.get? (treePlace ws resultsDir t)) := by
  obtain ⟨text, ht, -⟩ := wrote_of_prepare hprepare
  have hreadable : Forest.Readable t := List.forall_mem_cons.2 ⟨hsize, readable_of_content ht⟩
  have hname : HasShortName t := by
    by_contra hname
    rw [h.prepare_of_long hreadable hname] at hprepare
    cases hprepare
  refine ⟨hreadable, hname, ?_⟩
  by_contra hgarbled
  rw [h.prepare_of_garbled hreadable hname hgarbled] at hprepare
  cases hprepare

/-- A tree is written out unless a number of its or the name of its file is too long or the file is there and
is no text. What is written out is read again, whatever was there. Nothing else is needed of the tree, but
that its size has at most 4300 digits. -/
theorem prepare_restores_iff (h : HasRoom ws resultsDir t) (hsize : Forest.hasReadableSize t.size) :
    ((∃ c ws', prepare ws t resultsDir = .ok (c, ws')) ↔ Forest.Readable t ∧ HasShortName t ∧
      Purpose.text.Admits (ws.entries.get? (treePlace ws resultsDir t))) ∧
    (∀ c ws', prepare ws t resultsDir = .ok (c, ws') → ReadsBack ws' c t) ∧
    (Forest.Readable t → HasShortName t →
      ¬Purpose.text.Admits (ws.entries.get? (treePlace ws resultsDir t)) →
      prepare ws t resultsDir = .error (.notText (treePath resultsDir t))) := by
  refine ⟨⟨?_, ?_⟩, ?_, h.prepare_of_garbled⟩
  · rintro ⟨c, ws', hprepare⟩
    exact h.of_prepare hsize hprepare
  · rintro ⟨hreadable, hname, htext⟩
    exact h.exists_prepare hreadable hname htext
  · intro c ws' hprepare
    exact ((keeps_of_prepare hprepare).restores hsize).readsBack

end Outcome

section Leftover

/-- The usual directory of replays, with a file left over where a tree goes. -/
def leftover (t : Tree) (bytes : ByteArray) : Workspace where
  here := []
  entries := [([], .directory), (["results"], .directory), (["results", "replay"], .directory),
    (["results", "replay", fileName t (Forest.dumpText [t])], .file bytes false)]

variable (t : Tree) (bytes : ByteArray)

theorem treePlace_leftover :
    treePlace (leftover t bytes) defaultResultsDir t = ["results", "replay", fileName t (Forest.dumpText [t])] := by
  have hstart : (leftover t bytes).start (directoryText defaultResultsDir) = [] := ite_self _
  rw [treePlace, splitOn_directoryText_default, hstart]
  rfl

theorem get?_leftover : (leftover t bytes).entries.get? (treePlace (leftover t bytes) defaultResultsDir t) =
    some (.file bytes false) := by
  rw [treePlace_leftover]
  simp [leftover, Keyed.get?]

theorem hasRoom_leftover : HasRoom (leftover t bytes) defaultResultsDir t := by
  have hstart : (leftover t bytes).start (directoryText defaultResultsDir) = [] := ite_self _
  constructor
  case named =>
    rw [directoryText_default]
    decide
  case short =>
    rw [splitOn_directoryText_default]
    decide
  case start =>
    rw [hstart]
    rfl
  case free =>
    rw [splitOn_directoryText_default, hstart, treePlace_leftover]
    intro p hp
    have hway : p = ["results"] ∨ p = ["results", "replay"] := by simpa [stops, next] using hp
    rcases hway with rfl | rfl
    · exact ⟨by simp, .inr rfl⟩
    · exact ⟨by simp, .inr rfl⟩
  case file =>
    rw [get?_leftover]
    exact ⟨bytes, false, rfl⟩

variable {t} in
theorem hasShortName_of_le (h : 53 + (Text.hex8 t.root.token).utf8ByteSize + (toString t.size).utf8ByteSize ≤
    maxNameBytes) : HasShortName t := (utf8ByteSize_fileName_le t _).trans h

/-- A file that was cut off behind its first line. -/
def cutOff : Workspace := leftover Forest.recursiveTree "<InlineForest>\r\n".toUTF8

/-- The tree is written out again. -/
theorem prepare_restores_cutOff :
    HasRoom cutOff defaultResultsDir Forest.recursiveTree ∧ Forest.hasReadableSize Forest.recursiveTree.size ∧
      ∃ c ws', prepare cutOff Forest.recursiveTree defaultResultsDir = .ok (c, ws') ∧
        ReadsBack ws' c Forest.recursiveTree := by
  have hroom : HasRoom cutOff defaultResultsDir Forest.recursiveTree := hasRoom_leftover ..
  have hreadable : Forest.Readable Forest.recursiveTree := by
    unfold Forest.Readable
    decide +kernel
  have hsize := hreadable _ (.head _)
  have htext : Purpose.text.Admits
      (cutOff.entries.get? (treePlace cutOff defaultResultsDir Forest.recursiveTree)) := by
    rw [cutOff, get?_leftover]
    exact admits_toUTF8 ..
  obtain ⟨hiff, hback, -⟩ := prepare_restores_iff hroom hsize
  obtain ⟨c, ws', hprepare⟩ := hiff.2 ⟨hreadable, hasShortName_of_le (by decide +kernel), htext⟩
  exact ⟨hroom, hsize, c, ws', hprepare, hback c ws' hprepare⟩

/-- A root without inlining. -/
def barren : Tree := .empty ⟨0x6000001, 0x1234⟩

/-- A file with a byte that is no text. -/
def garbled : Workspace := leftover barren ⟨#[0xFF]⟩

/-- The tree is not written out, although there is room for its file. -/
theorem prepare_garbled_stops :
    HasRoom garbled defaultResultsDir barren ∧ Forest.Readable barren ∧ HasShortName barren ∧
      ¬∃ c ws', prepare garbled barren defaultResultsDir = .ok (c, ws') := by
  have hroom : HasRoom garbled defaultResultsDir barren := hasRoom_leftover ..
  have hreadable : Forest.Readable barren := by
    unfold Forest.Readable
    decide +kernel
  have hname : HasShortName barren := hasShortName_of_le (by decide +kernel)
  have hdecode : Workspace.decode? ⟨#[0xFF]⟩ = none := by decide +kernel
  have hgarbled : ¬Purpose.text.Admits (garbled.entries.get? (treePlace garbled defaultResultsDir barren)) := by
    rw [garbled, get?_leftover]
    rintro ⟨bytes, executable, hfile, htext⟩
    cases hfile
    rw [hdecode] at htext
    cases htext
  refine ⟨hroom, hreadable, hname, ?_⟩
  rw [hroom.prepare_of_garbled hreadable hname hgarbled]
  rintro ⟨c, ws', hprepare⟩
  cases hprepare

end Leftover

end InlineImpact.Replay
