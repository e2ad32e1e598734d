import InlineImpact.Proofs.Outcome
import InlineImpact.Proofs.Text.Parts
import InlineImpact.Workspace

/-!
What a workspace goes on to take. A layout tells what may stand at which place. While a workspace fits
it, the directories of the layout can be made, its files can be read and written, and the workspace
fits it still.
-/
namespace InlineImpact

namespace Workspace

/-- The places that the parts of a path lead through, the last one included. -/
def stops (place : Place) : List String → List Place
  | [] => []
  | part :: rest => next place part :: stops (next place part) rest

variable {ws : Workspace} {place : Place} {parts : List String}

theorem parts_of_named {path : String} (hnull : '\x00' ∉ path.toList) (hne : path ≠ "") :
    Workspace.parts path = .ok (path.splitOn "/") := by
  rw [Workspace.parts, if_neg (by simpa using hnull), if_neg (by simpa using hne)]

theorem named_of_parts {path : String} (h : Workspace.parts path = .ok parts) :
    '\x00' ∉ path.toList ∧ path ≠ "" ∧ parts = path.splitOn "/" := by
  unfold Workspace.parts at h
  split at h
  · cases h
  · rename_i hnull
    split at h
    · cases h
    · rename_i hne
      exact ⟨by simpa using hnull, by simpa using hne, (Except.ok.inj h).symm⟩

theorem follow_ne_unnameable : ws.follow place parts ≠ .error .unnameable := by
  induction parts generalizing place with
  | nil => exact nofun
  | cons part rest ih =>
    rw [follow]
    split
    · exact nofun
    · exact nofun
    · split
      · exact nofun
      · exact ih

/-- A path without a null character names something, if only what is not there. -/
theorem read_ne_unnameable {path : String} (hnull : '\x00' ∉ path.toList) {fault : StorageFault}
    (h : ws.read path = .error fault) : fault.error ≠ .unnameable := by
  unfold Workspace.read at h
  split at h
  · rename_i error herror
    rw [← Except.error.inj h]
    rintro rfl
    by_cases hne : path = ""
    · subst hne
      cases herror
    · rw [locate, parts_of_named hnull hne] at herror
      exact follow_ne_unnameable herror
  · split at h
    · rw [← Except.error.inj h]
      exact nofun
    · rw [← Except.error.inj h]
      exact nofun
    · cases h

/-- What is read is the content of the file that the path leads to. -/
theorem exists_place_of_read {path : String} {content : ByteArray} (h : ws.read path = .ok content) :
    ∃ place executable, ws.locate path = .ok place ∧
      ws.entries.get? place = some (.file content executable) := by
  unfold Workspace.read at h
  split at h
  · cases h
  · rename_i place hplace
    split at h
    · cases h
    · cases h
    · rename_i old executable hold
      cases h
      exact ⟨place, executable, hplace, hold⟩

/-- Paths that begin alike start from one place. -/
theorem start_congr {path path' : String} (h : path.toList.head? = path'.toList.head?) :
    ws.start path = ws.start path' := by
  have hsame : path.startsWith "/" = path'.startsWith "/" := by
    rw [Bool.eq_iff_iff, Text.startsWith_slash_iff, Text.startsWith_slash_iff, h]
  rw [start, start, hsame]

theorem next_of_long {place : Place} {part : String} (hlong : 2 < part.length) :
    next place part = place ++ [part] := by
  have hpart (s : String) (hs : s.length ≤ 2) : (part == s) = false := by
    rw [beq_eq_false_iff_ne]
    rintro rfl
    omega
  rw [next, hpart "" (by decide), hpart "." (by decide), hpart ".." (by decide)]
  rfl

/-- Of two names one leads to a place that the other does not, if it is long and not the same. -/
theorem next_ne_next {place : Place} {part name : String} (hlong : 2 < part.length) (hne : name ≠ part) :
    next place name ≠ next place part := by
  rw [next_of_long hlong]
  unfold next
  split
  · exact fun h => by simpa using congrArg List.length h
  · split
    · intro h
      have hlength := congrArg List.length h
      rw [List.length_dropLast, List.length_append, List.length_singleton] at hlength
      omega
    · exact fun h => hne (List.singleton_inj.1 (List.append_cancel_left h))

/-- The way to a file leads through directories; only the name of the file itself can be too long. -/
theorem follow_concat (hplace : ws.entries.get? place = some .directory)
    (hstops : ∀ p ∈ stops place parts, ws.entries.get? p = some .directory)
    (hshort : ∀ part ∈ parts, part.utf8ByteSize ≤ maxNameBytes) (name : String) :
    ws.follow place (parts ++ [name]) =
      if maxNameBytes < name.utf8ByteSize then .error .nameTooLong
      else .ok (next (parts.foldl next place) name) := by
  induction parts generalizing place with
  | nil =>
    simp only [List.nil_append, follow, hplace, List.foldl_nil]
  | cons part rest ih =>
    obtain ⟨hpart, hrest⟩ := List.forall_mem_cons.1 hshort
    obtain ⟨hnext, hstops⟩ := List.forall_mem_cons.1 hstops
    rw [List.cons_append, follow, hplace]
    simp only [if_neg (Nat.not_lt.2 hpart)]
    exact ih hnext hstops hrest

/-- A path that is a name after a slash leads from the root to that name. -/
theorem locate_rooted (hroot : ws.entries.get? [] = some .directory) (name : String)
    (hslash : '/' ∉ name.toList) (hnull : '\x00' ∉ name.toList) (hshort : name.utf8ByteSize ≤ maxNameBytes) :
    ws.locate ("/" ++ name) = .ok (next [] name) := by
  have hparts : ("/" ++ name).splitOn "/" = [""] ++ [name] := by
    have hsplit := Text.splitOn_append_slash "" name hslash
    rwa [String.empty_append, Text.splitOn_slash ""] at hsplit
  have hnamed : '\x00' ∉ ("/" ++ name).toList := by simp [hnull]
  have hstart : ws.start ("/" ++ name) = [] := by
    refine if_pos (String.startsWith_string_iff.2 ?_)
    simp
  rw [locate, parts_of_named hnamed (by simp), hparts, hstart]
  refine (follow_concat hroot (fun p hp => ?_) (by decide) name).trans (if_neg (Nat.not_lt.2 hshort))
  obtain rfl : p = [] := List.mem_singleton.1 hp
  exact hroot

theorem read_rooted (hroot : ws.entries.get? [] = some .directory) (name : String) (hslash : '/' ∉ name.toList)
    (hnull : '\x00' ∉ name.toList) (hshort : name.utf8ByteSize ≤ maxNameBytes) {content : ByteArray}
    {executable : Bool} (hfile : ws.entries.get? (next [] name) = some (.file content executable)) :
    ws.read ("/" ++ name) = .ok content := by
  unfold Workspace.read
  simp only [locate_rooted hroot name hslash hnull hshort, hfile]

/-- The root is there already. -/
theorem makeDirectories_root (hroot : ws.entries.get? [] = some .directory) : ws.makeDirectories "/" = .ok ws := by
  have hparts : Workspace.parts "/" = .ok ["", ""] := by
    have hsplit := Text.splitOn_append_slash "" "" (by decide)
    rw [String.empty_append, String.append_empty, Text.splitOn_slash ""] at hsplit
    rw [parts_of_named (by decide) (by decide), hsplit]
    rfl
  have hstart : ws.start "/" = [] := if_pos (String.startsWith_string_iff.2 (by simp))
  simp [makeDirectories, hparts, hstart, makeDirectoriesFrom, next, hroot, bind, Except.bind]

/-- A file in the root, and nothing else. -/
def ofFile (name : String) (content : ByteArray) : Workspace :=
  ⟨[], [([], .directory), ([name], .file content false)]⟩

/-- A path that is followed to its end leads where its parts say. -/
theorem eq_foldl_of_follow {p : Place} (h : ws.follow place parts = .ok p) : p = parts.foldl next place := by
  induction parts generalizing place with
  | nil => exact (Except.ok.inj h).symm
  | cons part rest ih =>
    rw [follow] at h
    split at h
    · cases h
    · cases h
    · split at h
      · cases h
      · exact ih h

theorem eq_foldl_of_locate {path : String} {p : Place} (h : ws.locate path = .ok p) :
    p = (path.splitOn "/").foldl next (ws.start path) := by
  obtain ⟨parts, hparts, hfollow⟩ := exists_of_bind_eq_ok h
  rw [← (named_of_parts hparts).2.2]
  exact eq_foldl_of_follow hfollow

/-- Every directory is still one, and relative paths start where they did. -/
structure Extends (ws' ws : Workspace) : Prop where
  here : ws'.here = ws.here
  directories : ∀ p, ws.entries.get? p = some .directory → ws'.entries.get? p = some .directory

namespace Extends

variable {ws' ws'' : Workspace}

theorem trans (h : ws''.Extends ws') (h' : ws'.Extends ws) : ws''.Extends ws :=
  ⟨h.here.trans h'.here, fun p hp => h.directories p (h'.directories p hp)⟩

theorem follow (h : ws'.Extends ws) {p : Place} (hp : ws.follow place parts = .ok p) :
    ws'.follow place parts = .ok p := by
  induction parts generalizing place with
  | nil => exact hp
  | cons part rest ih =>
    rw [Workspace.follow] at hp ⊢
    split at hp
    · cases hp
    · cases hp
    · rename_i hdirectory
      rw [h.directories place hdirectory]
      split at hp
      · cases hp
      · rename_i hshort
        simp only [if_neg hshort]
        exact ih hp

/-- A path leads where it led. -/
theorem locate (h : ws'.Extends ws) {path : String} {p : Place} (hp : ws.locate path = .ok p) :
    ws'.locate path = .ok p := by
  have hstart : ws'.start path = ws.start path := by rw [start, start, h.here]
  rw [Workspace.locate, hstart]
  rw [Workspace.locate] at hp
  cases hparts : Workspace.parts path with
  | error e =>
    rw [hparts] at hp
    cases hp
  | ok parts =>
    rw [hparts] at hp
    exact h.follow hp

end Extends

/-- Making directories takes nothing away. -/
theorem get?_of_makeDirectoriesFrom {ws' : Workspace} (h : ws.makeDirectoriesFrom place parts = .ok ws') :
    ws'.here = ws.here ∧ ∀ p e, ws.entries.get? p = some e → ws'.entries.get? p = some e := by
  induction parts generalizing ws place with
  | nil =>
    cases h
    exact ⟨rfl, fun _ _ h => h⟩
  | cons part rest ih =>
    rw [makeDirectoriesFrom] at h
    split at h
    · exact ih h
    · cases h
    · rename_i hnone
      split at h
      · cases h
      · obtain ⟨hhere, hget⟩ := ih h
        refine ⟨hhere, fun p e hp => hget p e ?_⟩
        have hne : p ≠ next place part := by
          rintro rfl
          rw [hnone] at hp
          cases hp
        rw [Keyed.get?_put_of_ne hne, hp]

theorem exists_of_makeDirectories {ws' : Workspace} {path : String} (h : ws.makeDirectories path = .ok ws') :
    ∃ parts, Workspace.parts path = .ok parts ∧
      ws.makeDirectoriesFrom (ws.start path) parts = .ok ws' := by
  unfold makeDirectories at h
  split at h
  · rename_i hleft
    cases h
    exact exists_of_bind_eq_ok hleft
  · cases h

theorem get?_of_makeDirectories {ws' : Workspace} {path : String} (h : ws.makeDirectories path = .ok ws') :
    ws'.here = ws.here ∧ ∀ p e, ws.entries.get? p = some e → ws'.entries.get? p = some e := by
  obtain ⟨parts, -, hfrom⟩ := exists_of_makeDirectories h
  exact get?_of_makeDirectoriesFrom hfrom

/-- A file that was written stands where its path leads, and nothing else is changed. -/
theorem exists_place_of_write {ws' : Workspace} {path : String} {content : ByteArray}
    (h : ws.write path content = .ok ws') : ∃ place executable, ws.locate path = .ok place ∧
      ws.entries.get? place ≠ some .directory ∧ ws'.here = ws.here ∧
      ws'.entries = ws.entries.put place (.file content executable) := by
  unfold write at h
  split at h
  · cases h
  · rename_i place hplace
    have hlocate : ws.locate path = .ok place := by
      unfold locateFile at hplace
      split at hplace
      · cases hlocate : ws.locate (Path.trimSlashes path) <;> rw [hlocate] at hplace <;> cases hplace
      · exact hplace
    split at h
    · cases h
    · rename_i old executable hold
      cases h
      exact ⟨place, executable, hlocate, by simp [hold], rfl, rfl⟩
    · rename_i hnone
      cases h
      exact ⟨place, false, hlocate, by simp [hnone], rfl, rfl⟩

/-- A path that does not end in a slash may be one of a file. -/
theorem locateFile_eq {path : String} (hend : path.endsWith "/" = false) : ws.locateFile path = ws.locate path := by
  rw [locateFile, hend, if_neg Bool.false_ne_true]

/-- A file is written where no directory stands. -/
theorem exists_write {path : String} (hend : path.endsWith "/" = false) (hplace : ws.locate path = .ok place)
    (hfile : ws.entries.get? place ≠ some .directory) (content : ByteArray) :
    ∃ ws', ws.write path content = .ok ws' := by
  simp only [write, locateFile_eq hend, hplace]
  split
  · exact (hfile ‹_›).elim
  · exact ⟨_, rfl⟩
  · exact ⟨_, rfl⟩

theorem write_of_locate_error {path : String} {e : StorageError} (hend : path.endsWith "/" = false)
    (hlocate : ws.locate path = .error e) (content : ByteArray) : ws.write path content = .error ⟨e, path⟩ := by
  simp only [write, locateFile_eq hend, hlocate]
  rfl

/-- Exactly the directories on the way are made. -/
theorem makeDirectoriesFrom_spec (hstops : ∀ p ∈ stops place parts,
      ws.entries.get? p = none ∨ ws.entries.get? p = some .directory)
    (hshort : ∀ part ∈ parts, part.utf8ByteSize ≤ maxNameBytes) :
    ∃ ws', ws.makeDirectoriesFrom place parts = .ok ws' ∧ ws'.here = ws.here ∧ ∀ p,
      ws'.entries.get? p = if p ∈ stops place parts then some .directory else ws.entries.get? p := by
  induction parts generalizing ws place with
  | nil => exact ⟨ws, rfl, rfl, fun p => by simp [stops]⟩
  | cons part rest ih =>
    obtain ⟨hpart, hrest⟩ := List.forall_mem_cons.1 hshort
    obtain ⟨hnext, hstops⟩ := List.forall_mem_cons.1 hstops
    rw [makeDirectoriesFrom]
    rcases hnext with hnone | hdir
    · simp only [hnone, if_neg (Nat.not_lt.2 hpart)]
      let made : Workspace := ⟨ws.here, ws.entries.put (next place part) .directory⟩
      have hput (p : Place) : made.entries.get? p =
          if p = next place part then some .directory else ws.entries.get? p := Keyed.get?_put ..
      have hfree : ∀ p ∈ stops (next place part) rest,
          made.entries.get? p = none ∨ made.entries.get? p = some .directory := by
        intro p hp
        rw [hput]
        split
        · exact .inr rfl
        · exact hstops p hp
      obtain ⟨ws', hok, hhere, hget⟩ := ih hfree hrest
      refine ⟨ws', hok, hhere, fun p => ?_⟩
      rw [hget, hput]
      grind [stops]
    · simp only [hdir]
      obtain ⟨ws', hok, hhere, hget⟩ := ih hstops hrest
      refine ⟨ws', hok, hhere, fun p => ?_⟩
      rw [hget]
      grind [stops]

end Workspace

open Workspace (maxNameBytes next stops)

/-- What a place is for. -/
inductive Purpose where
  | directory
  /-- A file that holds well-formed text. -/
  | text
  | data

/-- What may stand at a place; there need not be anything yet. -/
def Purpose.Admits : Purpose → Option Entry → Prop
  | _, none => True
  | directory, some e => e = .directory
  | text, some e => ∃ content executable, e = .file content executable ∧
      (Workspace.decode? content).isSome
  | data, some e => ∃ content executable, e = .file content executable

/-- What some places are for. The root and the place that relative paths start from are directories. -/
structure Layout where
  here : Place
  purpose : Place → Option Purpose
  root : purpose [] = some .directory
  start : purpose here = some .directory

namespace Layout

/-- Nothing stands in the way of the layout. -/
structure Fits (L : Layout) (ws : Workspace) : Prop where
  here : ws.here = L.here
  root : ws.entries.get? [] = some .directory
  start : ws.entries.get? L.here = some .directory
  admits : ∀ p u, L.purpose p = some u → u.Admits (ws.entries.get? p)

/-- The layout fits still, and no directory of it was lost. -/
structure Keeps (L : Layout) (ws ws' : Workspace) : Prop where
  fits : L.Fits ws'
  directories : ∀ p, L.purpose p = some .directory → ws.entries.get? p = some .directory →
    ws'.entries.get? p = some .directory

variable (L : Layout)

def startOf (path : String) : Place := if path.startsWith "/" then [] else L.here

/-- The places that a path leads through. -/
def way (path : String) : List Place := stops (L.startOf path) (path.splitOn "/")

/-- The directories on the way are there. -/
def Open (dir : String) (ws : Workspace) : Prop :=
  ∀ p ∈ L.way dir, ws.entries.get? p = some .directory

/-- The path is one of a directory of the layout. -/
structure Makes (dir : String) : Prop where
  named : '\x00' ∉ dir.toList
  nonempty : dir ≠ ""
  short : ∀ part ∈ dir.splitOn "/", part.utf8ByteSize ≤ maxNameBytes
  directories : ∀ p ∈ L.way dir, L.purpose p = some .directory

/-- The path is one of a file of the layout: a name after parts that lead through a directory. -/
structure Leads (dir path : String) (parts : List String) (name : String) (u : Purpose) : Prop where
  named : '\x00' ∉ path.toList
  nonempty : path ≠ ""
  file : path.endsWith "/" = false
  cut : path.splitOn "/" = parts ++ [name]
  short : ∀ part ∈ parts, part.utf8ByteSize ≤ maxNameBytes
  within : ∀ p ∈ stops (L.startOf path) parts, p ∈ L.way dir
  purpose : L.purpose (next (parts.foldl next (L.startOf path)) name) = some u

variable {L} {ws ws' ws'' : Workspace} {dir path name : String} {parts : List String} {u : Purpose}

theorem Keeps.refl (h : L.Fits ws) : L.Keeps ws ws := ⟨h, fun _ _ h => h⟩

theorem Keeps.trans (h : L.Keeps ws ws') (h' : L.Keeps ws' ws'') : L.Keeps ws ws'' :=
  ⟨h'.fits, fun p hp hd => h'.directories p hp (h.directories p hp hd)⟩

theorem Open.keep (h : L.Open dir ws) (hm : L.Makes dir) (hk : L.Keeps ws ws') : L.Open dir ws' :=
  fun p hp => hk.directories p (hm.directories p hp) (h p hp)

namespace Fits

/-- Entries that change as the layout has it, and no directory among them. -/
theorem keeps (h : L.Fits ws) (hhere : ws'.here = ws.here)
    (hchange : ∀ p u, L.purpose p = some u → ws'.entries.get? p ≠ ws.entries.get? p →
      u.Admits (ws'.entries.get? p) ∧ ws.entries.get? p ≠ some .directory) : L.Keeps ws ws' := by
  have hdir (p : Place) (hp : L.purpose p = some .directory)
      (hd : ws.entries.get? p = some .directory) : ws'.entries.get? p = some .directory := by
    by_contra hne
    exact (hchange p _ hp (hd ▸ hne)).2 hd
  refine ⟨⟨hhere.trans h.here, hdir _ L.root h.root, hdir _ L.start h.start, fun p u hu => ?_⟩, hdir⟩
  by_cases hsame : ws'.entries.get? p = ws.entries.get? p
  · exact hsame ▸ h.admits p u hu
  · exact (hchange p u hu hsame).1

theorem startOf (h : L.Fits ws) (path : String) : ws.start path = L.startOf path := by
  rw [Workspace.start, Layout.startOf, h.here]

theorem directory_startOf (h : L.Fits ws) (path : String) :
    ws.entries.get? (L.startOf path) = some .directory := by
  rw [Layout.startOf]
  split
  · exact h.root
  · exact h.start

theorem makeDirectories (h : L.Fits ws) (hm : L.Makes dir) :
    ∃ ws', ws.makeDirectories dir = .ok ws' ∧ L.Keeps ws ws' ∧ L.Open dir ws' := by
  have hfree : ∀ p ∈ L.way dir, ws.entries.get? p = none ∨ ws.entries.get? p = some .directory := by
    intro p hp
    have := h.admits p _ (hm.directories p hp)
    cases he : ws.entries.get? p with
    | none => exact .inl rfl
    | some e =>
      rw [he] at this
      exact .inr (congrArg some this)
  obtain ⟨ws', hok, hhere, hget⟩ := Workspace.makeDirectoriesFrom_spec hfree hm.short
  refine ⟨ws', ?_, h.keeps hhere fun p u hu hne => ?_, fun p hp => by rw [hget, ← way, if_pos hp]⟩
  · rw [Workspace.makeDirectories, Workspace.parts_of_named hm.named hm.nonempty, h.startOf]
    simp only [bind, Except.bind, hok]
  · rw [hget, ← way] at hne ⊢
    split at hne
    · rename_i hp
      obtain rfl : .directory = u := Option.some.inj ((hm.directories p hp).symm.trans hu)
      rw [if_pos hp]
      exact ⟨rfl, Ne.symm hne⟩
    · exact (hne rfl).elim

theorem locate (h : L.Fits ws) (hl : L.Leads dir path parts name u) (ho : L.Open dir ws) :
    ws.locate path = if maxNameBytes < name.utf8ByteSize then .error .nameTooLong
      else .ok (next (parts.foldl next (L.startOf path)) name) := by
  rw [Workspace.locate, Workspace.parts_of_named hl.named hl.nonempty, hl.cut, h.startOf]
  exact Workspace.follow_concat (h.directory_startOf path) (fun p hp => ho p (hl.within p hp)) hl.short name

theorem locateFile (h : L.Fits ws) (hl : L.Leads dir path parts name u) (ho : L.Open dir ws) :
    ws.locateFile path = if maxNameBytes < name.utf8ByteSize then .error .nameTooLong
      else .ok (next (parts.foldl next (L.startOf path)) name) := by
  rw [Workspace.locateFile_eq hl.file, h.locate hl ho]

theorem write_of_long (h : L.Fits ws) (hl : L.Leads dir path parts name u) (ho : L.Open dir ws)
    (hname : maxNameBytes < name.utf8ByteSize) (content : ByteArray) :
    ws.write path content = .error ⟨.nameTooLong, path⟩ :=
  Workspace.write_of_locate_error hl.file ((h.locate hl ho).trans (if_pos hname)) content

/-- What stands at the place of a file, if anything does, is a file. -/
theorem entry_cases (h : L.Fits ws) (hl : L.Leads dir path parts name u) (hu : u ≠ .directory) :
    let entry := ws.entries.get? (next (parts.foldl next (L.startOf path)) name)
    entry = none ∨ ∃ content executable, entry = some (.file content executable) ∧
      u.Admits (some (.file content executable)) := by
  intro entry
  have hadmits : u.Admits entry := h.admits _ _ hl.purpose
  rcases entry with _ | e
  · exact .inl rfl
  · refine .inr ?_
    cases u with
    | directory => exact (hu rfl).elim
    | text =>
      obtain ⟨content, executable, rfl, htext⟩ := hadmits
      exact ⟨content, executable, rfl, content, executable, rfl, htext⟩
    | data =>
      obtain ⟨content, executable, rfl⟩ := hadmits
      exact ⟨content, executable, rfl, content, executable, rfl⟩

theorem write (h : L.Fits ws) (hl : L.Leads dir path parts name u) (ho : L.Open dir ws)
    (hname : name.utf8ByteSize ≤ maxNameBytes) (hu : u ≠ .directory) {content : ByteArray}
    (hcontent : ∀ executable, u.Admits (some (.file content executable))) :
    ∃ ws', ws.write path content = .ok ws' ∧ L.Keeps ws ws' := by
  have hentry := h.entry_cases hl hu
  have hpurpose := hl.purpose
  rw [Workspace.write, h.locateFile hl ho, if_neg (Nat.not_lt.2 hname)]
  generalize next (parts.foldl next (L.startOf path)) name = place at hentry hpurpose ⊢
  have hput (executable : Bool) (hnot : ws.entries.get? place ≠ some .directory) :
      L.Keeps ws { ws with entries := ws.entries.put place (.file content executable) } := by
    refine h.keeps rfl fun p u' hu' hne => ?_
    rw [Keyed.get?_put] at hne ⊢
    split at hne
    · rename_i hp
      subst hp
      rw [if_pos rfl, ← Option.some.inj (hpurpose.symm.trans hu')]
      exact ⟨hcontent executable, hnot⟩
    · exact (hne rfl).elim
  rcases hentry with hnone | ⟨old, executable, hold, -⟩
  · simp only [hnone]
    exact ⟨_, rfl, hput false (by simp [hnone])⟩
  · simp only [hold]
    exact ⟨_, rfl, hput executable (by simp [hold])⟩

/-- A file of data takes more bytes, also if it is new. -/
theorem append (h : L.Fits ws) (hl : L.Leads dir path parts name .data) (ho : L.Open dir ws)
    (hname : name.utf8ByteSize ≤ maxNameBytes) (bytes : ByteArray) :
    ∃ ws', ws.append path bytes = .ok ws' ∧ L.Keeps ws ws' := by
  unfold Workspace.append
  split
  · exact h.write hl ho hname nofun fun executable => ⟨_, executable, rfl⟩
  · exact h.write hl ho hname nofun fun executable => ⟨_, executable, rfl⟩

end Fits

end Layout

end InlineImpact
