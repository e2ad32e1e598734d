import InlineImpact.Proofs.Path
import InlineImpact.Proofs.Workspace

/-!
Making the directory of a path. Followed from the root, the text of the directory leads through places
above the one that the path leads to, so the path finds no file afterwards that it did not find before.
-/
namespace InlineImpact.Workspace

/-- A part of a path that leads one place further down. -/
structure IsName (part : String) : Prop where
  nonempty : part ≠ ""
  notHere : part ≠ "."
  notAbove : part ≠ ".."
  noSlash : '/' ∉ part.toList
  noNull : '\x00' ∉ part.toList

/-- What is stored stands in directories, and the place that relative paths start from has a path. -/
structure IsTree (ws : Workspace) : Prop where
  names : ∀ part ∈ ws.here, IsName part
  parents : ∀ p part e, ws.entries.get? (p ++ [part]) = some e → ws.entries.get? p = some .directory

variable {ws : Workspace} {place : Place} {parts : List String}

theorem IsTree.exists_above (h : ws.IsTree) {p q : Place} {e : Entry} (hp : ws.entries.get? p = some e)
    (hq : q <+: p) : ∃ e, ws.entries.get? q = some e := by
  obtain ⟨below, rfl⟩ := hq
  induction below using List.reverseRecOn generalizing e with
  | nil => exact ⟨e, by rwa [List.append_nil] at hp⟩
  | append_singleton init last ih =>
    rw [← List.append_assoc] at hp
    exact ih (h.parents _ _ _ hp)

section Way

theorem next_of_isName {part : String} (h : IsName part) : next place part = place ++ [part] := by
  simp [next, h.nonempty, h.notHere, h.notAbove]

theorem foldl_next_of_isName (h : ∀ part ∈ parts, IsName part) : parts.foldl next place = place ++ parts := by
  induction parts generalizing place with
  | nil => simp
  | cons part rest ih =>
    obtain ⟨hpart, hrest⟩ := List.forall_mem_cons.1 h
    rw [List.foldl_cons, next_of_isName hpart, ih hrest]
    simp

theorem foldl_next_of_blank (h : ∀ part ∈ parts, part = "") : parts.foldl next place = place := by
  induction parts with
  | nil => rfl
  | cons part rest ih =>
    obtain ⟨rfl, hrest⟩ := List.forall_mem_cons.1 h
    exact ih hrest

/-- A path leads to a name of its own or stays on the way that it came. -/
theorem mem_foldl_next {part : String} (h : part ∈ parts.foldl next place) :
    part ∈ place ∨ part ∈ parts ∧ part ≠ "" ∧ part ≠ "." ∧ part ≠ ".." := by
  induction parts generalizing place with
  | nil => exact .inl h
  | cons first rest ih =>
    refine (ih h).elim (fun hnext => ?_) fun hrest => .inr ⟨.tail _ hrest.1, hrest.2⟩
    unfold next at hnext
    split at hnext
    · exact .inl hnext
    · split at hnext
      · exact .inl (List.dropLast_subset _ hnext)
      · rcases List.mem_append.1 hnext with hplace | hfirst
        · exact .inl hplace
        · obtain rfl := List.mem_singleton.1 hfirst
          simp_all

/-- A way that never goes up passes places above the one that it leads to. -/
theorem isPrefix_of_mem_stops (h : ".." ∉ parts) (place : Place) : place <+: parts.foldl next place ∧
    ∀ q ∈ stops place parts, q <+: parts.foldl next place := by
  induction parts generalizing place with
  | nil => exact ⟨List.prefix_rfl, nofun⟩
  | cons part rest ih =>
    obtain ⟨hpart, hrest⟩ : ".." ≠ part ∧ ".." ∉ rest := by simpa using h
    obtain ⟨hplace, hstops⟩ := ih hrest (next place part)
    have hdown : place <+: next place part := by
      unfold next
      split
      · exact List.prefix_rfl
      · rw [if_neg (by simpa using hpart.symm)]
        exact List.prefix_append _ _
    exact ⟨hdown.trans hplace, List.forall_mem_cons.2 ⟨hplace, hstops⟩⟩

theorem mem_stops_append {q : Place} (h : q ∈ stops place parts) (more : List String) :
    q ∈ stops place (parts ++ more) := by
  induction parts generalizing place with
  | nil => cases h
  | cons part rest ih => exact (List.mem_cons.1 h).elim (· ▸ .head _) fun h => .tail _ (ih h)

theorem stops_of_blank (h : ∀ part ∈ parts, part = "") : ∀ q ∈ stops place parts, q = place := by
  induction parts with
  | nil => exact nofun
  | cons part rest ih =>
    obtain ⟨rfl, hrest⟩ := List.forall_mem_cons.1 h
    exact List.forall_mem_cons.2 ⟨rfl, ih hrest⟩

end Way

section Normal

/-- From the root the parts of a path are kept as the places that they lead to. -/
theorem reverse_foldl_pushPart {kept : List String} (h : ".." ∉ kept) :
    (parts.foldl (Path.pushPart true) kept).reverse = parts.foldl next kept.reverse := by
  induction parts generalizing kept with
  | nil => rfl
  | cons part rest ih =>
    rw [List.foldl_cons, List.foldl_cons]
    have hstep : ".." ∉ Path.pushPart true kept part ∧
        (Path.pushPart true kept part).reverse = next kept.reverse part := by
      unfold Path.pushPart next
      split
      · exact ⟨h, rfl⟩
      · by_cases hup : part = ".."
        · subst hup
          cases kept with
          | nil => exact ⟨h, rfl⟩
          | cons last above =>
            obtain ⟨hlast, habove⟩ : ".." ≠ last ∧ ".." ∉ above := by simpa using h
            simp [hlast.symm, habove]
        · have hdown : (part != "..") = true := by simpa using hup
          have hstay : ¬(part == "..") = true := by simpa using hup
          rw [if_pos hdown, if_neg hstay, List.reverse_cons]
          exact ⟨fun hmem => (List.mem_cons.1 hmem).elim (fun heq => hup heq.symm) h, rfl⟩
    rw [ih hstep.1, hstep.2]

theorem blank_of_mem_splitOn {s : String} (h : ∀ c ∈ s.toList, c = '/') : ∀ part ∈ s.splitOn "/", part = "" := by
  intro part hpart
  obtain ⟨hslash, hsub⟩ := Text.mem_splitOn hpart
  refine String.toList_eq_nil_iff.1 (List.eq_nil_iff_forall_not_mem.2 fun c hc => hslash ?_)
  exact h c (hsub hc) ▸ hc

theorem eq_slash_of_mem_slashes {n : Nat} {c : Char} (h : c ∈ (Path.slashes n).toList) : c = '/' := by
  rw [Path.slashes, String.toList_ofList] at h
  exact (List.mem_replicate.1 h).2

theorem leadingSlashes_ne_zero {p : String} (hroot : p.startsWith "/" = true) :
    ∃ n, Path.leadingSlashes p.toList = n + 1 := by
  obtain ⟨rest, hrest⟩ := String.startsWith_string_iff.1 hroot
  have hfront : p.toList = '/' :: rest := hrest.symm
  unfold Path.leadingSlashes
  rw [hfront, List.takeWhile_cons_of_pos (by rfl)]
  split
  · contradiction
  · exact ⟨1, rfl⟩
  · exact ⟨0, rfl⟩

theorem mem_intercalate {c : Char} (h : c ∈ ("/".intercalate parts).toList) :
    c = '/' ∨ ∃ part ∈ parts, c ∈ part.toList := by
  rw [String.toList_intercalate] at h
  induction parts with
  | nil => simp at h
  | cons part rest ih =>
    cases rest with
    | nil => exact .inr ⟨part, .head _, by simpa using h⟩
    | cons next rest =>
      rw [List.map_cons, List.map_cons, List.intercalate_cons_cons, List.append_assoc,
        List.mem_append, List.mem_append, ← List.map_cons] at h
      rcases h with h | h | h
      · exact .inr ⟨part, .head _, h⟩
      · exact .inl (List.mem_singleton.1 h)
      · exact (ih h).imp_right fun ⟨part, hpart, hc⟩ => ⟨part, .tail _ hpart, hc⟩

theorem isName_of_mem_foldl_next {p part : String} (hnull : '\x00' ∉ p.toList)
    (h : part ∈ (p.splitOn "/").foldl next []) : IsName part := by
  obtain ⟨hpart, hne, hhere, habove⟩ := (mem_foldl_next h).resolve_left nofun
  obtain ⟨hslash, hsub⟩ := Text.mem_splitOn hpart
  exact ⟨hne, hhere, habove, hslash, fun hc => hnull (hsub hc)⟩

/-- A rooted path that is normal is the place that it leads to, written out. -/
theorem exists_normalize_eq {p : String} (hroot : p.startsWith "/" = true) (hnull : '\x00' ∉ p.toList) :
    ∃ n, Path.normalize p = Path.slashes (n + 1) ++ "/".intercalate ((p.splitOn "/").foldl next []) := by
  obtain ⟨n, hlead⟩ := leadingSlashes_ne_zero hroot
  have hplace : ((p.splitOn "/").foldl (Path.pushPart true) []).reverse = (p.splitOn "/").foldl next [] :=
    reverse_foldl_pushPart nofun
  have hall : ∀ c ∈ (Path.slashes (n + 1) ++ "/".intercalate ((p.splitOn "/").foldl next [])).toList,
      decide (c ≠ '\x00') = true := by
    intro c hc
    rw [decide_eq_true_iff]
    rintro rfl
    rw [String.toList_append] at hc
    rcases List.mem_append.1 hc with hc | hc
    · exact absurd (eq_slash_of_mem_slashes hc) (by decide)
    · rcases mem_intercalate hc with hc | ⟨part, hpart, hc⟩
      · exact absurd hc (by decide)
      · exact (isName_of_mem_foldl_next hnull hpart).noNull hc
  have hne : (Path.slashes (n + 1) ++ "/".intercalate ((p.splitOn "/").foldl next [])).toList ≠ [] := by
    simp [Path.slashes, List.replicate_succ]
  refine ⟨n, ?_⟩
  unfold Path.normalize
  simp only [hlead, Nat.zero_lt_succ, decide_true, gt_iff_lt, hplace]
  rw [List.takeWhile_eq_self_iff.2 hall, if_neg (by simpa using hne), String.ofList_toList]

/-- The parts of a rooted path that is normal are those of the place that it leads to, after blanks. -/
theorem exists_splitOn_normalize {p : String} (hroot : p.startsWith "/" = true) (hnull : '\x00' ∉ p.toList) :
    ∃ blanks : List String, (∀ part ∈ blanks, part = "") ∧
      (Path.normalize p).splitOn "/" = blanks ++ (p.splitOn "/").foldl next [] := by
  obtain ⟨n, hnormal⟩ := exists_normalize_eq hroot hnull
  have hblank (n : Nat) : ∀ part ∈ (Path.slashes n).splitOn "/", part = "" :=
    blank_of_mem_splitOn fun c hc => eq_slash_of_mem_slashes hc
  rw [hnormal]
  cases hplace : (p.splitOn "/").foldl next [] with
  | nil => exact ⟨(Path.slashes (n + 1)).splitOn "/", hblank _, by simp⟩
  | cons part rest =>
    refine ⟨(Path.slashes n).splitOn "/", hblank n, ?_⟩
    have hfront : Path.slashes (n + 1) = Path.slashes n ++ "/" := by
      refine String.toList_injective ?_
      simp [Path.slashes, List.replicate_succ']
    rw [hfront, Text.splitOn_join, Text.splitOn_intercalate (fun part hpart => ?_) (List.cons_ne_nil _ _)]
    exact (isName_of_mem_foldl_next hnull (hplace ▸ hpart)).noSlash

end Normal

section Absolute

/-- What is joined to a path is followed from where the path leads. -/
theorem foldl_splitOn_join {a b : String} (ha : a.isEmpty = false) (hb : b.startsWith "/" = false) :
    ((Path.join a b).splitOn "/").foldl next place =
      (b.splitOn "/").foldl next ((a.splitOn "/").foldl next place) := by
  unfold Path.join
  rw [if_neg (by simp [hb]), ha, Bool.false_or]
  split
  · rename_i hend
    obtain ⟨front, hfront⟩ := List.getLast?_eq_some_iff.1 (Text.endsWith_slash_iff.1 hend)
    obtain rfl : a = String.ofList front ++ "/" := by
      refine String.toList_injective ?_
      simpa using hfront
    have hblank : (String.ofList front ++ "/").splitOn "/" = (String.ofList front).splitOn "/" ++ [""] := by
      simpa using Text.splitOn_append_slash (String.ofList front) "" nofun
    rw [hblank, Text.splitOn_join, List.foldl_append, List.foldl_append]
    rfl
  · rw [Text.splitOn_join, List.foldl_append]

theorem IsTree.foldl_splitOn_hereText (h : ws.IsTree) : (ws.hereText.splitOn "/").foldl next [] = ws.here := by
  have hcut : ws.hereText.splitOn "/" = [""] ++ ("/".intercalate ws.here).splitOn "/" := by
    have hjoin := Text.splitOn_join "" ("/".intercalate ws.here)
    rwa [String.empty_append, Text.splitOn_of_not_mem (s := "") nofun] at hjoin
  rw [hcut, List.foldl_append]
  cases hhere : ws.here with
  | nil => exact foldl_next_of_blank (blank_of_mem_splitOn nofun)
  | cons part rest =>
    rw [← hhere, Text.splitOn_intercalate (fun part hpart => (h.names part hpart).noSlash) (by simp [hhere])]
    exact foldl_next_of_isName h.names

theorem IsTree.foldl_splitOn_join (h : ws.IsTree) (path : String) :
    ((Path.join ws.hereText path).splitOn "/").foldl next [] = (path.splitOn "/").foldl next (ws.start path) := by
  by_cases hroot : path.startsWith "/" = true
  · rw [Path.join, if_pos hroot, start, if_pos hroot]
  · have hne : ws.hereText.isEmpty = false := by simp [hereText]
    rw [Workspace.foldl_splitOn_join hne (by simpa using hroot), h.foldl_splitOn_hereText, start, if_neg hroot]

theorem IsTree.rooted_join (h : ws.IsTree) {path : String} (hnull : '\x00' ∉ path.toList) :
    (Path.join ws.hereText path).startsWith "/" = true ∧ '\x00' ∉ (Path.join ws.hereText path).toList := by
  have hhere : '\x00' ∉ ws.hereText.toList := by
    intro hmem
    rw [hereText, String.toList_append] at hmem
    rcases List.mem_append.1 hmem with hmem | hmem
    · exact absurd hmem (by decide)
    · rcases mem_intercalate hmem with hmem | ⟨part, hpart, hmem⟩
      · exact absurd hmem (by decide)
      · exact (h.names part hpart).noNull hmem
  have hfront (more : String) : (ws.hereText ++ more).startsWith "/" = true := by
    rw [String.startsWith_string_iff, hereText]
    simp
  unfold Path.join
  split
  · exact ⟨‹_›, hnull⟩
  · split
    · exact ⟨hfront path, by simp [hhere, hnull]⟩
    · exact ⟨by rw [String.append_assoc]; exact hfront _, by simp [hhere, hnull]⟩

/-- The directory of a path lies above the place that the path leads to. -/
theorem IsTree.isPrefix_of_mem_stops (h : ws.IsTree) {path : String} (hnull : '\x00' ∉ path.toList) {q : Place}
    (hq : q ∈ stops [] ((Path.directory (Path.absolute ws.hereText path)).splitOn "/")) :
    q <+: (path.splitOn "/").foldl next (ws.start path) := by
  obtain ⟨hroot, hnull⟩ := h.rooted_join hnull
  obtain ⟨blanks, hblanks, hnormal⟩ := exists_splitOn_normalize hroot hnull
  have hnames : ∀ part ∈ ((Path.join ws.hereText path).splitOn "/").foldl next [], IsName part :=
    fun part hpart => isName_of_mem_foldl_next hnull hpart
  rw [Path.absolute] at hq
  rw [← h.foldl_splitOn_join path]
  rcases Path.splitOn_directory (Path.normalize (Path.join ws.hereText path)) with hslashes | ⟨more, hmore⟩
  · rw [stops_of_blank (blank_of_mem_splitOn hslashes) q hq]
    exact List.nil_prefix
  · have hstop := mem_stops_append hq more
    rw [← hmore, hnormal] at hstop
    have hdown : ".." ∉ blanks ++ ((Path.join ws.hereText path).splitOn "/").foldl next [] := by
      intro hmem
      rcases List.mem_append.1 hmem with hmem | hmem
      · exact absurd (hblanks _ hmem) (by decide)
      · exact (hnames _ hmem).notAbove rfl
    have habove := (Workspace.isPrefix_of_mem_stops hdown []).2 q hstop
    rwa [List.foldl_append, foldl_next_of_blank hblanks, foldl_next_of_isName hnames] at habove

end Absolute

section Made

theorem eq_of_makeDirectoriesFrom {made : Workspace} (hmade : ws.makeDirectoriesFrom place parts = .ok made)
    (h : ∀ q ∈ stops place parts, ∃ e, ws.entries.get? q = some e) : made = ws := by
  induction parts generalizing place with
  | nil => exact (Except.ok.inj hmade).symm
  | cons part rest ih =>
    obtain ⟨⟨e, he⟩, hrest⟩ := List.forall_mem_cons.1 h
    rw [makeDirectoriesFrom, he] at hmade
    cases e with
    | directory => exact ih hmade hrest
    | file content executable => cases hmade

/-- Directories that are made are new places, and no files. -/
theorem file_of_makeDirectoriesFrom {made : Workspace} {p : Place} {content : ByteArray} {executable : Bool}
    (hmade : ws.makeDirectoriesFrom place parts = .ok made)
    (hp : made.entries.get? p = some (.file content executable)) :
    ws.entries.get? p = some (.file content executable) := by
  induction parts generalizing ws place with
  | nil =>
    cases hmade
    exact hp
  | cons part rest ih =>
    rw [makeDirectoriesFrom] at hmade
    split at hmade
    · exact ih hmade
    · cases hmade
    · split at hmade
      · cases hmade
      · have hbefore := ih hmade
        rw [Keyed.get?_put] at hbefore
        split at hbefore
        · cases hbefore
        · exact hbefore

theorem IsTree.startsWith_directory (h : ws.IsTree) {path : String} (hnull : '\x00' ∉ path.toList)
    (hne : Path.directory (Path.absolute ws.hereText path) ≠ "") :
    (Path.directory (Path.absolute ws.hereText path)).startsWith "/" = true := by
  obtain ⟨hroot, hnull⟩ := h.rooted_join hnull
  obtain ⟨n, hnormal⟩ := exists_normalize_eq hroot hnull
  have hprefix := Path.directory_isPrefix (Path.absolute ws.hereText path)
  rw [String.startsWith_string_iff]
  cases hdir : (Path.directory (Path.absolute ws.hereText path)).toList with
  | nil => exact (hne (String.toList_eq_nil_iff.1 hdir)).elim
  | cons c rest =>
    have hfront : (Path.slashes (n + 1)).toList = '/' :: List.replicate n '/' := by
      rw [Path.slashes, String.toList_ofList, List.replicate_succ]
    rw [hdir, Path.absolute, hnormal, String.toList_append, hfront, List.cons_append] at hprefix
    simp [(List.cons_prefix_cons.1 hprefix).1]

/-- A path that finds a file once its directory is made found it before, in a directory that was there. -/
theorem IsTree.eq_of_makeDirectories (h : ws.IsTree) {made : Workspace} {path : String} {bytes : ByteArray}
    (hmade : ws.makeDirectories (Path.directory (Path.absolute ws.hereText path)) = .ok made)
    (hread : made.read path = .ok bytes) : made = ws := by
  obtain ⟨place, executable, hlocate, hfile⟩ := exists_place_of_read hread
  obtain ⟨_, hparts, -⟩ := exists_of_bind_eq_ok hlocate
  obtain ⟨hnull, -⟩ := named_of_parts hparts
  have hplace : place = (path.splitOn "/").foldl next (ws.start path) := by
    rw [eq_foldl_of_locate hlocate, start, start, (get?_of_makeDirectories hmade).1]
  obtain ⟨parts, hparts, hfrom⟩ := exists_of_makeDirectories hmade
  obtain ⟨-, hne, rfl⟩ := named_of_parts hparts
  rw [start, if_pos (h.startsWith_directory hnull hne)] at hfrom
  refine eq_of_makeDirectoriesFrom hfrom fun q hq => ?_
  have hbefore := file_of_makeDirectoriesFrom hfrom hfile
  exact h.exists_above hbefore (hplace ▸ h.isPrefix_of_mem_stops hnull hq)

end Made

end InlineImpact.Workspace
