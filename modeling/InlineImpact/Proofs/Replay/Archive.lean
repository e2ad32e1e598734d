import InlineImpact.Proofs.Forest.Load
import InlineImpact.Proofs.Keyed
import InlineImpact.Proofs.Replay.Canonical
import InlineImpact.Proofs.Replay.Storage
import InlineImpact.Proofs.Workspace.Content

/-!
Writing out one tree after another. Trees that are alike share configuration and file, and different ones
do not get in each other's way: whatever was written since, the file of a configuration holds its tree and
nothing else. Names are cut digests, so this is as good as these tell written forms apart.
-/
namespace InlineImpact

theorem Configuration.get?_settings_make {name resultsDir : String} {settings : List (String × String)}
    (h : (settings.map Prod.fst).Nodup) {k v : String} (hmem : (k, v) ∈ settings) :
    (make name settings resultsDir).settings.get? k = some v := by
  have hperm : (settings.mergeSort settingLe).Perm settings := List.mergeSort_perm _ _
  exact Keyed.get?_ofPairs ((hperm.map Prod.fst).nodup_iff.2 h) (hperm.mem_iff.2 hmem)

namespace Replay

open Workspace (next)

/-- The file that a configuration replays. -/
def fileOf (c : Configuration) : Option String := c.settings.get? "COMPlus_JitInlineReplayFile"

theorem fileOf_configuration (resultsDir name : String) :
    fileOf (configuration resultsDir name) = some (file resultsDir name) :=
  Configuration.get?_settings_make (by simp [Configuration.precompiledOff, Configuration.knob])
    (.tail _ (.tail _ (.head _)))

/-- The file at a path has this text, up to the ends of its lines. -/
def Holds (ws : Workspace) (path text : String) : Prop :=
  ∃ bytes, ws.read path = .ok bytes ∧ Workspace.decode? bytes = some text.toList

section Files

variable {ws ws' : Workspace} {path text : String} {t : Tree}

theorem holds_iff : Holds ws path text ↔ ∃ place content executable, ws.locate path = .ok place ∧
    ws.entries.get? place = some (.file content executable) ∧ Workspace.decode? content = some text.toList := by
  constructor
  · rintro ⟨bytes, hread, htext⟩
    unfold Workspace.read at hread
    split at hread
    · cases hread
    · rename_i place hplace
      split at hread
      · cases hread
      · cases hread
      · rename_i executable hentry
        cases hread
        exact ⟨place, _, executable, hplace, hentry, htext⟩
  · rintro ⟨place, content, executable, hplace, hentry, htext⟩
    refine ⟨content, ?_, htext⟩
    simp only [Workspace.read, hplace, hentry]

/-- The file of a tree holds the forest of this tree alone. -/
theorem load_of_holds (ht : content t = .ok text) (hsize : Forest.hasReadableSize t.size)
    (h : Holds ws path text) : Forest.load ws path = .ok (Forest.regained [t]) := by
  obtain ⟨bytes, hread, htext⟩ := h
  have hreadable : ∀ u ∈ [t], Forest.Readable u :=
    List.forall_mem_singleton.2 (List.forall_mem_cons.2 ⟨hsize, readable_of_content ht⟩)
  obtain ⟨s, hs, hlines⟩ := Option.map_eq_some_iff.1 htext
  obtain rfl : s.toUTF8 = bytes := by
    unfold String.fromUTF8? at hs
    split at hs
    · cases hs
      rfl
    · cases hs
  rw [Forest.load, hread]
  simp only [Text.decodeLossy_toUTF8, hlines, ← dumpText_of_content ht, Forest.read_dumpText hreadable,
    Forest.ofReports_reportOf]
  rfl

end Files

section Names

variable {t u : Tree} {text text' : String}

theorem not_mem_digest (text : String) : '-' ∉ (digest text).toList := by
  intro h
  obtain ⟨d, hd, hmark⟩ := exists_digitChar_of_mem_digest h
  have hall : ∀ d < 16, Nat.digitChar d ≠ '-' := by decide
  exact hall d hd hmark

/-- A name ends in the digest. -/
theorem digest_eq_of_nameFor_eq (h : nameFor t text = nameFor u text') : digest text = digest text' := by
  have hname (t : Tree) (text : String) : (nameFor t text).toList.reverse =
      (digest text).toList.reverse ++ '-' :: ("replay-" ++ Text.hex8 t.root.token ++ "-" ++
        toString t.size).toList.reverse := by
    simp [nameFor]
  have hsame := congrArg (fun s => s.toList.reverse) h
  simp only [hname] at hsame
  have hnot (text : String) : '-' ∉ (digest text).toList.reverse := by
    rw [List.mem_reverse]
    exact not_mem_digest text
  exact String.toList_inj.1 (List.reverse_injective (append_mark_inj (hnot _) (hnot _) hsame).1)

/-- If the trees may share a name by root and size, the digests tell their written forms apart. -/
def ToldApart (t u : Tree) : Prop :=
  (t.root = u.root → t.size = u.size) → ∀ text text', content t = .ok text → content u = .ok text' →
    digest text = digest text' → text = text'

/-- Trees that are told apart share a name only if they share the written form. -/
theorem content_eq_of_nameFor_eq (h : ToldApart t u) (ht : content t = .ok text) (hu : content u = .ok text')
    (hname : nameFor t text = nameFor u text') : text = text' := by
  have hn : name t = .ok (nameFor t text) := by rw [name, ht]; rfl
  have hn' : name u = .ok (nameFor t text) := by rw [name, hu, hname]; rfl
  exact h (fun hroot => size_eq_of_name_eq hroot hn hn') text text' ht hu (digest_eq_of_nameFor_eq hname)

end Names

section Writing

variable {ws ws' : Workspace} {resultsDir text : String} {t : Tree} {c : Configuration}

/-- Files of replays stand side by side. -/
theorem foldl_next_file (ws : Workspace) (resultsDir : String) : ∃ place : Place, ∀ t text,
    ((file resultsDir (nameFor t text)).splitOn "/").foldl next (ws.start (file resultsDir (nameFor t text))) =
      place ++ [fileName t text] := by
  refine ⟨((directory resultsDir).text.splitOn "/").foldl next (ws.start (directory resultsDir).text),
    fun t text => ?_⟩
  rw [splitOn_file, Workspace.start_congr (head?_file resultsDir t text), List.foldl_append, List.foldl_cons,
    List.foldl_nil, next_fileName]

/-- What writing a tree out comes to: its file has its written form, and no other file is changed. -/
structure Wrote (ws : Workspace) (resultsDir : String) (t : Tree) (text : String) (ws' : Workspace) : Prop where
  holds : Holds ws' (file resultsDir (nameFor t text)) text
  grown : ws'.Extends ws
  others : ∀ p e, ws.entries.get? p = some e → ws'.entries.get? p = some e ∨
    p = ((file resultsDir (nameFor t text)).splitOn "/").foldl next (ws.start (file resultsDir (nameFor t text)))

theorem wrote_of_prepare (h : prepare ws t resultsDir = .ok (c, ws')) : ∃ text, content t = .ok text ∧
    c = configuration (targetDir resultsDir) (nameFor t text) ∧
    Wrote ws (targetDir resultsDir) t text ws' := by
  obtain ⟨text, ht, h⟩ := exists_of_bind_eq_ok h
  obtain ⟨made, hmade, h⟩ := exists_of_bind_eq_ok h
  obtain ⟨current, hcurrent, h⟩ := exists_of_bind_eq_ok h
  obtain ⟨hhere, hkept⟩ := Workspace.get?_of_makeDirectories (mapError_eq_ok.1 hmade)
  have hextends : made.Extends ws := ⟨hhere, fun p hp => hkept p _ hp⟩
  refine ⟨text, ht, ?_⟩
  generalize hpath : file (targetDir resultsDir) (nameFor t text) = path at hcurrent h
  cases current with
  | true =>
    obtain ⟨rfl, rfl⟩ := Prod.mk.inj (Except.ok.inj h)
    refine ⟨rfl, ?_, hextends, fun p e hp => .inl (hkept p e hp)⟩
    rw [hpath]
    unfold isCurrent at hcurrent
    split at hcurrent
    · cases hcurrent
    · split at hcurrent
      · cases hcurrent
      · rename_i bytes hbytes
        split at hcurrent
        · cases hcurrent
        · rename_i cs hcs
          have hsame : String.ofList cs = text := by simpa using Except.ok.inj hcurrent
          exact ⟨bytes, hbytes, by rw [hcs, ← hsame, String.toList_ofList]⟩
  | false =>
    obtain ⟨written, hwritten, h⟩ := exists_of_bind_eq_ok h
    obtain ⟨rfl, rfl⟩ := Prod.mk.inj (Except.ok.inj h)
    obtain ⟨place, executable, hplace, -, -, hentries⟩ :=
      Workspace.exists_place_of_write (mapError_eq_ok.1 hwritten)
    have hput (p : Place) : written.entries.get? p =
        if p = place then some (.file text.toUTF8 executable) else made.entries.get? p := by
      rw [hentries, Keyed.get?_put]
    have hextends' : written.Extends made := Workspace.extends_of_write (mapError_eq_ok.1 hwritten)
    refine ⟨rfl, ?_, hextends'.trans hextends, fun p e hp => ?_⟩
    · have hlines : '\r' ∉ text.toList := dumpText_of_content ht ▸ Forest.not_mem_dumpText [t]
      have htext : Workspace.decode? text.toUTF8 = some text.toList := by
        rw [Workspace.decode?, Text.fromUTF8?_toUTF8, Option.map_some, Text.unifyLineEnds_of_not_mem hlines]
      rw [hpath]
      exact holds_iff.2 ⟨place, _, executable, hextends'.locate hplace, by rw [hput, if_pos rfl], htext⟩
    · by_cases hp' : p = place
      · refine .inr ?_
        have hstart : made.start path = ws.start path := by rw [Workspace.start, Workspace.start, hhere]
        rw [hpath, hp', Workspace.eq_foldl_of_locate hplace, hstart]
      · rw [hput, if_neg hp', hkept p e hp]
        exact .inl rfl

/-- The files of other replays have their texts still. -/
theorem Wrote.holds_of_ne (h : Wrote ws resultsDir t text ws') {u : Tree} {text' : String}
    (hne : nameFor u text' ≠ nameFor t text)
    (hu : Holds ws (file resultsDir (nameFor u text')) text') :
    Holds ws' (file resultsDir (nameFor u text')) text' := by
  obtain ⟨place, bytes, executable, hplace, hentry, htext⟩ := holds_iff.1 hu
  refine holds_iff.2 ⟨place, bytes, executable, h.grown.locate hplace, ?_, htext⟩
  refine (h.others place _ hentry).resolve_right fun hsame => hne ?_
  obtain ⟨dir, hdir⟩ := foldl_next_file ws resultsDir
  rw [Workspace.eq_foldl_of_locate hplace, hdir, hdir] at hsame
  have hfile : fileName u text' = fileName t text := List.singleton_inj.1 (List.append_cancel_left hsame)
  exact (String.append_left_inj ".xml").1 hfile

end Writing

section Runs

/-- The file of the configuration has the written form of the tree. -/
def Keeps (ws : Workspace) (resultsDir : String) (t : Tree) (c : Configuration) : Prop :=
  ∃ text, content t = .ok text ∧ c = configuration resultsDir (nameFor t text) ∧
    Holds ws (file resultsDir (nameFor t text)) text

/-- The trees that were written out so far, with their configurations, and the files there are. -/
structure Archive where
  made : List (Tree × Configuration)
  files : Workspace

/-- Writes one more tree out. One that cannot be written changes nothing. -/
def Archive.add (resultsDir : String) (a : Archive) (t : Tree) : Archive :=
  match prepare a.files t resultsDir with
  | .ok (c, files) => ⟨a.made ++ [(t, c)], files⟩
  | .error _ => a

/-- Writes some trees out, one after another. -/
def Archive.of (files : Workspace) (resultsDir : String) (ts : List Tree) : Archive :=
  ts.foldl (Archive.add resultsDir) ⟨[], files⟩

/-- Every configuration has a file that keeps its tree, and the trees are among these. -/
def Archive.Sound (resultsDir : String) (ts : List Tree) (a : Archive) : Prop :=
  ∀ made ∈ a.made, made.1 ∈ ts ∧ Keeps a.files (targetDir resultsDir) made.1 made.2

variable {ws ws' : Workspace} {resultsDir : String} {t : Tree} {ts : List Tree}

theorem keeps_of_prepare {c : Configuration} (h : prepare ws t resultsDir = .ok (c, ws')) :
    Keeps ws' (targetDir resultsDir) t c := by
  obtain ⟨text, ht, hc, hwrote⟩ := wrote_of_prepare h
  exact ⟨text, ht, hc, hwrote.holds⟩

theorem Archive.add_of_ok {a : Archive} {c : Configuration} (h : prepare a.files t resultsDir = .ok (c, ws)) :
    a.add resultsDir t = ⟨a.made ++ [(t, c)], ws⟩ := by
  unfold Archive.add
  rw [h]

theorem Archive.add_of_error {a : Archive} {failure : Failure}
    (h : prepare a.files t resultsDir = .error failure) : a.add resultsDir t = a := by
  unfold Archive.add
  rw [h]

/-- Writing out another tree that is told apart changes no file for a tree. -/
theorem Keeps.prepare {u : Tree} {c c' : Configuration} (hu : Keeps ws (targetDir resultsDir) u c')
    (h : Replay.prepare ws t resultsDir = .ok (c, ws')) (hapart : ToldApart t u) :
    Keeps ws' (targetDir resultsDir) u c' := by
  obtain ⟨text, ht, hc, hwrote⟩ := wrote_of_prepare h
  obtain ⟨text', hu, rfl, hholds⟩ := hu
  refine ⟨text', hu, rfl, ?_⟩
  by_cases hname : nameFor t text = nameFor u text'
  · obtain rfl := content_eq_of_nameFor_eq hapart ht hu hname
    rw [← hname]
    exact hwrote.holds
  · exact hwrote.holds_of_ne (Ne.symm hname) hholds

theorem Archive.Sound.add {a : Archive} (h : a.Sound resultsDir ts) (ht : t ∈ ts)
    (hapart : ∀ u ∈ ts, ToldApart t u) : (a.add resultsDir t).Sound resultsDir ts := by
  cases hprepare : Replay.prepare a.files t resultsDir with
  | error failure =>
    rw [Archive.add_of_error hprepare]
    exact h
  | ok written =>
    rw [Archive.add_of_ok hprepare]
    intro made hmade
    rcases List.mem_append.1 hmade with hmade | hmade
    · obtain ⟨hmem, hkeeps⟩ := h made hmade
      exact ⟨hmem, hkeeps.prepare hprepare (hapart _ hmem)⟩
    · obtain rfl := List.mem_singleton.1 hmade
      exact ⟨ht, keeps_of_prepare hprepare⟩

/-- By induction on the trees that are written out. -/
theorem Archive.sound_of (files : Workspace) (hapart : ∀ t ∈ ts, ∀ u ∈ ts, ToldApart t u) :
    (Archive.of files resultsDir ts).Sound resultsDir ts := by
  have hrun (a : Archive) (ha : a.Sound resultsDir ts) (us : List Tree) (hus : us ⊆ ts) :
      (us.foldl (Archive.add resultsDir) a).Sound resultsDir ts := by
    induction us generalizing a with
    | nil => exact ha
    | cons t rest ih =>
      obtain ⟨ht, hrest⟩ := List.cons_subset.1 hus
      rw [List.foldl_cons]
      exact ih (a.add resultsDir t) (ha.add ht (hapart t ht)) hrest
  exact hrun ⟨[], files⟩ (fun made hmade => by cases hmade) ts (List.Subset.refl ts)

/-- The text in the file that a configuration replays. -/
def replayText (ws : Workspace) (c : Configuration) : Option (List Char) := do
  Workspace.decode? (← (ws.read (← fileOf c)).toOption)

theorem Keeps.replayText_eq {c : Configuration} (h : Keeps ws resultsDir t c) :
    ∃ text, content t = .ok text ∧ replayText ws c = some text.toList := by
  obtain ⟨text, ht, rfl, bytes, hread, htext⟩ := h
  refine ⟨text, ht, ?_⟩
  rw [replayText, fileOf_configuration]
  simpa [hread, Except.toOption] using htext

/-- The file of the configuration is read as a forest of one tree, and the tree is alike. -/
def Restores (ws : Workspace) (c : Configuration) (t : Tree) : Prop :=
  ∃ path f u, fileOf c = some path ∧ Forest.load ws path = .ok f ∧ f.ambiguous = [] ∧ f.trees = [u] ∧ t.Alike u

theorem Keeps.restores {c : Configuration} (h : Keeps ws resultsDir t c) (hsize : Forest.hasReadableSize t.size) :
    Restores ws c t := by
  obtain ⟨text, ht, rfl, hholds⟩ := h
  refine ⟨_, _, t.bare, fileOf_configuration resultsDir _, load_of_holds ht hsize hholds, ?_⟩
  rw [Forest.regained_singleton]
  refine ⟨rfl, rfl, rfl, fun k => ?_⟩
  rw [(Tree.regained_bare t).keys]

/-- One configuration, and one text in its file, for trees that are alike and for no others. -/
theorem configuration_eq_iff {u : Tree} {c c' : Configuration} (ht : Keeps ws resultsDir t c)
    (hu : Keeps ws' resultsDir u c') : c = c' ∧ replayText ws c = replayText ws' c' ↔ t.Alike u := by
  obtain ⟨text, hcontent, htext⟩ := ht.replayText_eq
  obtain ⟨text', hcontent', htext'⟩ := hu.replayText_eq
  constructor
  · rintro ⟨-, hsame⟩
    rw [htext, htext'] at hsame
    obtain rfl := String.toList_inj.1 (Option.some.inj hsame)
    exact alike_of_content_eq hcontent hcontent'
  · intro h
    obtain rfl : text = text' := Except.ok.inj (hcontent.symm.trans ((content_eq_of_alike h).trans hcontent'))
    refine ⟨?_, htext.trans htext'.symm⟩
    obtain ⟨_, ht, rfl, -⟩ := ht
    obtain ⟨_, hu, rfl, -⟩ := hu
    rw [nameFor_eq_of_alike h, Except.ok.inj (ht.symm.trans hcontent), Except.ok.inj (hu.symm.trans hcontent')]

/-- The configuration alone tells trees apart, as far as the digest does. -/
theorem alike_of_configuration_eq {u : Tree} {c : Configuration} (hapart : ToldApart t u)
    (ht : Keeps ws resultsDir t c) (hu : Keeps ws' resultsDir u c) : t.Alike u := by
  obtain ⟨text, ht, rfl, -⟩ := ht
  obtain ⟨text', hu, hc, -⟩ := hu
  have hname : nameFor t text = nameFor u text' := congrArg Configuration.name hc
  obtain rfl := content_eq_of_nameFor_eq hapart ht hu hname
  exact alike_of_content_eq ht hu

/-- Writing out is canonical, and does not interfere with what was written before: each configuration that
was made so far still has a file with its tree alone. A size of more than 4300 digits could not be read
again. -/
theorem prepare_canonical (files : Workspace) (resultsDir : String)
    (hsize : ∀ t ∈ ts, Forest.hasReadableSize t.size) (hapart : ∀ t ∈ ts, ∀ u ∈ ts, ToldApart t u) :
    (∀ made ∈ (Archive.of files resultsDir ts).made,
      Restores (Archive.of files resultsDir ts).files made.2 made.1) ∧
    (∀ root ds es t u, Tree.ofDecisions root ds = .ok t → Tree.ofDecisions root es = .ok u →
      (∀ k, k ∈ ds.map Decision.key ↔ k ∈ es.map Decision.key) → t.Alike u) ∧
    ∀ t u, (t.Alike u → ∀ ws, prepare ws t resultsDir = prepare ws u resultsDir) ∧
      ∀ ws ws' v v' c c', prepare ws t resultsDir = .ok (c, ws') → prepare v u resultsDir = .ok (c', v') →
        (c = c' ∧ replayText ws' c = replayText v' c' ↔ t.Alike u) ∧ (ToldApart t u → c = c' → t.Alike u) := by
  refine ⟨fun made hmade => ?_, fun root ds es t u ht hu hkeys => Tree.alike_of_ofDecisions ht hu hkeys,
    fun t u => ⟨fun h ws => prepare_eq_of_alike h ws resultsDir, fun ws ws' v v' c c' ht hu => ?_⟩⟩
  · obtain ⟨hmem, hkept⟩ := Archive.sound_of files hapart made hmade
    exact hkept.restores (hsize _ hmem)
  · refine ⟨configuration_eq_iff (keeps_of_prepare ht) (keeps_of_prepare hu), fun htold heq => ?_⟩
    subst heq
    exact alike_of_configuration_eq htold (keeps_of_prepare ht) (keeps_of_prepare hu)

end Runs

section Growth

variable {t u : Tree} {ts : List Tree} {resultsDir : String}

theorem toldApart_self (t : Tree) : ToldApart t t := fun _ _ _ ht hu _ => Except.ok.inj (ht.symm.trans hu)

/-- Nothing is asked of the digests of trees that have one root and grow. -/
theorem toldApart_of_size_ne (hroot : t.root = u.root) (hsize : t.size ≠ u.size) : ToldApart t u :=
  fun h => (hsize (h hroot)).elim

/-- Where there is room for replays, every tree with a short name is written out. -/
theorem Archive.made_of_fits {L : Layout} (hL : L.TakesReplays resultsDir) {files : Workspace}
    (hfits : L.Fits files) (hts : ∀ t ∈ ts, ∃ text, content t = .ok text ∧
      (fileName t text).utf8ByteSize ≤ Workspace.maxNameBytes) :
    (Archive.of files resultsDir ts).made.map Prod.fst = ts := by
  have hrun (us : List Tree) (hus : us ⊆ ts) (a : Archive) (ha : L.Fits a.files) :
      (us.foldl (Archive.add resultsDir) a).made.map Prod.fst = a.made.map Prod.fst ++ us := by
    induction us generalizing a with
    | nil => exact (List.append_nil _).symm
    | cons t rest ih =>
      obtain ⟨ht, hrest⟩ := List.cons_subset.1 hus
      obtain ⟨text, htext, hname⟩ := hts t ht
      obtain ⟨c, ws, hprepare, hkeeps⟩ := hL.prepare ha htext hname
      rw [List.foldl_cons, Archive.add_of_ok hprepare, ih hrest _ hkeeps.fits]
      simp
  exact hrun ts (List.Subset.refl ts) ⟨[], files⟩ hfits

/-- A tree, and the empty tree of its root. -/
def growth : List Tree := [.empty Forest.recursiveTree.root, Forest.recursiveTree]

theorem toldApart_growth : ∀ t ∈ growth, ∀ u ∈ growth, ToldApart t u := by
  have hsize : Tree.size (.empty Forest.recursiveTree.root) ≠ Forest.recursiveTree.size := by decide
  simp only [growth, List.forall_mem_cons, List.not_mem_nil, false_imp_iff, implies_true, and_true]
  exact ⟨⟨toldApart_self _, toldApart_of_size_ne rfl hsize⟩, toldApart_of_size_ne rfl hsize.symm, toldApart_self _⟩

/-- Both are written out where nothing was before, and both are read again. -/
theorem prepare_growth : (∀ t ∈ growth, Forest.hasReadableSize t.size) ∧
    (∀ t ∈ growth, ∀ u ∈ growth, ToldApart t u) ∧
    (Archive.of bareFiles defaultResultsDir growth).made.map Prod.fst = growth ∧
    ∀ made ∈ (Archive.of bareFiles defaultResultsDir growth).made,
      Restores (Archive.of bareFiles defaultResultsDir growth).files made.2 made.1 := by
  have hsize : ∀ t ∈ growth, Forest.hasReadableSize t.size := by decide +kernel
  refine ⟨hsize, toldApart_growth, ?_, (prepare_canonical bareFiles defaultResultsDir hsize toldApart_growth).1⟩
  refine Archive.made_of_fits replayLayout_takesReplays bareFiles_fits fun t ht => ?_
  have hreadable : ∀ t ∈ growth, Forest.Readable t := by
    unfold Forest.Readable
    decide +kernel
  have hshort : ∀ t ∈ growth, 53 + (Text.hex8 t.root.token).utf8ByteSize + (toString t.size).utf8ByteSize ≤
      Workspace.maxNameBytes := by decide +kernel
  have hcontent := content_of_readable (hreadable t ht)
  exact ⟨_, hcontent, (utf8ByteSize_fileName_le t _).trans (hshort t ht)⟩

end Growth

end Replay

end InlineImpact
