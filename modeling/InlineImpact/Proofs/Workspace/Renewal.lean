import InlineImpact.Proofs.Keyed
import InlineImpact.Proofs.Workspace.Content

/-!
Files that are made anew. A file that is removed is gone until it is written again, and writing to another
file does not bring it back. What is there afterwards at the same place has come since.
-/
namespace InlineImpact.Workspace

variable {ws ws' : Workspace} {path : String}

theorem holds_eq_false_iff : ws.holds path = false ↔
    ∀ place, ws.locate path = .ok place → ws.entries.get? place = none := by
  unfold holds entry?
  cases ws.locate path <;> simp

/-- A path leads to the same place in workspaces with the same start. -/
theorem locate_unique {p q : Place} (hp : ws.locate path = .ok p) (hq : ws'.locate path = .ok q)
    (hhere : ws'.here = ws.here) : q = p := by
  rw [eq_foldl_of_locate hp, eq_foldl_of_locate hq, start, start, hhere]

/-- What is removed is gone. -/
theorem holds_of_remove (h : ws.remove path = .ok ws') : ws'.here = ws.here ∧ ws'.holds path = false := by
  unfold remove at h
  split at h
  · cases h
  · rename_i place hplace
    split at h
    · cases h
    · cases h
    · cases h
      refine ⟨rfl, holds_eq_false_iff.2 fun q hq => ?_⟩
      rw [locate_unique hplace hq rfl]
      exact Keyed.get?_filter_ne place ws.entries

/-- A file that is written makes none appear elsewhere. -/
theorem holds_of_write_elsewhere {other : String} {content : ByteArray} (h : ws.write other content = .ok ws')
    (hapart : ∀ p, ws.locate other = .ok p → ws'.locate path ≠ .ok p) (hgone : ws.holds path = false) :
    ws'.holds path = false := by
  obtain ⟨place, executable, hplace, -, hhere, hentries⟩ := exists_place_of_write h
  have hget {p : Place} (hne : p ≠ place) : ws'.entries.get? p = ws.entries.get? p := by
    rw [hentries, Keyed.get?_put_of_ne hne]
  -- The new file is no directory, so all ways were open before.
  have hextends : ws.Extends ws' := by
    refine ⟨hhere.symm, fun p hp => ?_⟩
    have hne : p ≠ place := by
      rintro rfl
      rw [hentries, Keyed.get?_put_self] at hp
      cases hp
    rw [← hget hne, hp]
  refine holds_eq_false_iff.2 fun q hq => ?_
  have hne : q ≠ place := by
    rintro rfl
    exact hapart _ hplace hq
  rw [hget hne]
  exact holds_eq_false_iff.1 hgone q (hextends.locate hq)

theorem short_of_follow {place p : Place} {parts : List String} (h : ws.follow place parts = .ok p) :
    ∀ part ∈ parts, part.utf8ByteSize ≤ maxNameBytes := by
  induction parts generalizing place with
  | nil => exact nofun
  | cons part rest ih =>
    rw [follow] at h
    split at h
    · cases h
    · cases h
    · split at h
      · cases h
      · exact List.forall_mem_cons.2 ⟨Nat.not_lt.1 ‹_›, ih h⟩

theorem exists_long_of_follow {place : Place} {parts : List String}
    (h : ws.follow place parts = .error .nameTooLong) : ∃ part ∈ parts, maxNameBytes < part.utf8ByteSize := by
  induction parts generalizing place with
  | nil => cases h
  | cons part rest ih =>
    rw [follow] at h
    split at h
    · cases h
    · cases h
    · split at h
      · exact ⟨part, .head _, ‹_›⟩
      · obtain ⟨long, hmem, hlong⟩ := ih h
        exact ⟨long, .tail _ hmem, hlong⟩

/-- A path with a part that is too long leads nowhere in any workspace. -/
theorem locate_ne_of_nameTooLong (h : ws.locate path = .error .nameTooLong) (p : Place) :
    ws'.locate path ≠ .ok p := by
  intro hp
  obtain ⟨parts, hparts, hfollow⟩ := exists_of_bind_eq_ok hp
  rw [locate, hparts] at h
  obtain ⟨part, hmem, hlong⟩ := exists_long_of_follow h
  exact absurd hlong (Nat.not_lt.2 (short_of_follow hfollow part hmem))

theorem follow_append (place : Place) (parts more : List String) :
    ws.follow place (parts ++ more) = (ws.follow place parts).bind fun p => ws.follow p more := by
  induction parts generalizing place with
  | nil => rfl
  | cons part rest ih =>
    rw [List.cons_append, follow, follow]
    split
    · rfl
    · rfl
    · split
      · rfl
      · exact ih _

theorem follow_singleton_eq_ok {place p : Place} {name : String} (h : ws.follow place [name] = .ok p) :
    ws.entries.get? place = some .directory ∧ name.utf8ByteSize ≤ maxNameBytes ∧ p = next place name := by
  rw [follow] at h
  split at h
  · cases h
  · cases h
  · split at h
    · cases h
    · exact ⟨‹_›, Nat.not_lt.1 ‹_›, (Except.ok.inj h).symm⟩

/-- Where one file of a directory is found, another is, unless its name is too long. -/
theorem locate_sibling {other : String} {above : List String} {name name' : String} {p : Place}
    (h : ws.locate other = .ok p) (hcut : other.splitOn "/" = above ++ [name])
    (hcut' : path.splitOn "/" = above ++ [name']) (hnull : '\x00' ∉ path.toList) (hne : path ≠ "")
    (hstart : ws.start path = ws.start other) : p = next (above.foldl next (ws.start other)) name ∧
      ws.locate path = if maxNameBytes < name'.utf8ByteSize then .error .nameTooLong
        else .ok (next (above.foldl next (ws.start other)) name') := by
  obtain ⟨parts, hparts, hfollow⟩ := exists_of_bind_eq_ok h
  rw [(named_of_parts hparts).2.2, hcut, follow_append] at hfollow
  obtain ⟨top, htop, hlast⟩ := exists_of_bind_eq_ok hfollow
  obtain ⟨hdirectory, -, rfl⟩ := follow_singleton_eq_ok hlast
  obtain rfl := eq_foldl_of_follow htop
  refine ⟨rfl, ?_⟩
  rw [locate, parts_of_named hnull hne, hcut', hstart]
  show ws.follow (ws.start other) (above ++ [name']) = _
  rw [follow_append, htop]
  show ws.follow _ [name'] = _
  simp only [follow, hdirectory]

/-- The file at the path has come into being between two workspaces. -/
def Appears (path : String) (before after : Workspace) : Prop :=
  ∃ place content executable, before.locate path = .ok place ∧ before.entries.get? place = none ∧
    after.locate path = .ok place ∧ after.entries.get? place = some (.file content executable)

end InlineImpact.Workspace
