import InlineImpact.Proofs.Workspace

/-!
What a file contains, as text. It is there to be read, it grows by what is appended, and changes of the
workspace elsewhere leave it alone.
-/
namespace InlineImpact.Workspace

/-- The path leads to a file with just this text. -/
def Contains (ws : Workspace) (path text : String) : Prop :=
  ∃ place executable, ws.locate path = .ok place ∧
    ws.entries.get? place = some (.file text.toUTF8 executable)

variable {ws ws' : Workspace} {path text : String}

theorem Contains.read (h : ws.Contains path text) : ws.read path = .ok text.toUTF8 := by
  obtain ⟨place, executable, hplace, hfile⟩ := h
  unfold Workspace.read
  simp only [hplace, hfile]

/-- Files take the place of files only. -/
theorem extends_of_write {content : ByteArray} (h : ws.write path content = .ok ws') : ws'.Extends ws := by
  obtain ⟨place, executable, -, hfile, hhere, hentries⟩ := exists_place_of_write h
  refine ⟨hhere, fun p hp => ?_⟩
  have hne : p ≠ place := by
    rintro rfl
    exact hfile hp
  rw [hentries, Keyed.get?_put_of_ne hne, hp]

theorem contains_of_write (h : ws.write path text.toUTF8 = .ok ws') : ws'.Contains path text := by
  obtain ⟨place, executable, hplace, -, -, hentries⟩ := exists_place_of_write h
  exact ⟨place, executable, (extends_of_write h).locate hplace, by rw [hentries, Keyed.get?_put_self]⟩

/-- A file that can be written but not read is missing. -/
theorem notFound_of_write {content : ByteArray} {fault : StorageFault} (hwrite : ws.write path content = .ok ws')
    (hread : ws.read path = .error fault) : fault.error = .notFound := by
  obtain ⟨place, executable, hplace, hfile, -⟩ := exists_place_of_write hwrite
  unfold Workspace.read at hread
  simp only [hplace] at hread
  split at hread
  · exact (Except.error.inj hread) ▸ rfl
  · rename_i hdirectory
    exact (hfile hdirectory).elim
  · cases hread

/-- What is appended to a file that is missing or empty is all that it contains. -/
theorem contains_of_appendText (h : ws.appendText path text = .ok ws')
    (hnew : ∀ bytes, ws.read path = .ok bytes → bytes = ByteArray.empty) : ws'.Contains path text := by
  unfold appendText append at h
  split at h
  · rename_i old hold
    rw [hnew old hold, ByteArray.empty_append] at h
    exact contains_of_write h
  · exact contains_of_write h

theorem Contains.appendText (h : ws.Contains path text) {more : String}
    (happend : ws.appendText path more = .ok ws') : ws'.Contains path (text ++ more) := by
  have hbytes : (text ++ more).toUTF8 = text.toUTF8 ++ more.toUTF8 := String.toByteArray_append
  rw [Workspace.appendText, append, h.read] at happend
  have hwrite : ws.write path (text ++ more).toUTF8 = .ok ws' := by
    rw [hbytes]
    exact happend
  exact contains_of_write hwrite

theorem Contains.makeDirectories (h : ws.Contains path text) {directory : String}
    (hmade : ws.makeDirectories directory = .ok ws') : ws'.Contains path text := by
  obtain ⟨place, executable, hplace, hfile⟩ := h
  obtain ⟨hhere, hkept⟩ := get?_of_makeDirectories hmade
  have hextends : ws'.Extends ws := ⟨hhere, fun p hp => hkept p _ hp⟩
  exact ⟨place, executable, hextends.locate hplace, hkept _ _ hfile⟩

/-- Writing to another place leaves the file alone. -/
theorem Contains.write_elsewhere (h : ws.Contains path text) {other : String} {content : ByteArray}
    (hwrite : ws.write other content = .ok ws') (hne : ws.locate other ≠ ws.locate path) :
    ws'.Contains path text := by
  obtain ⟨place, executable, hplace, hfile⟩ := h
  obtain ⟨place', executable', hplace', -, -, hentries⟩ := exists_place_of_write hwrite
  have hapart : place ≠ place' := by
    rintro rfl
    exact hne (hplace'.trans hplace.symm)
  refine ⟨place, executable, (extends_of_write hwrite).locate hplace, ?_⟩
  rw [hentries, Keyed.get?_put_of_ne hapart, hfile]

end InlineImpact.Workspace
