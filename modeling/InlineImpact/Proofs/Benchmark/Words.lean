import InlineImpact.Proofs.Benchmark
import InlineImpact.Proofs.Configuration.Naming
import InlineImpact.Proofs.Template

/-!
What a process is given. No word of a command and no name or value of an environment may hold a null character.
The environment of a configuration never does; in the command only the template of the capture tool and the
arguments of the benchmark can.
-/
namespace InlineImpact

/-- The words of a text have all of its characters but blanks. -/
theorem Text.flatten_runsWithout {α : Type} (p : α → Bool) (s : List α) :
    (runsWithout p s).flatten = s.filter (!p ·) := by
  fun_induction runsWithout p s <;> simp_all

theorem Text.exists_word_iff {c : Char} (hc : isBlank c = false) (s : List Char) :
    (∃ word ∈ words s, c ∈ word) ↔ c ∈ s := by
  rw [← List.mem_flatten, words, flatten_runsWithout, List.mem_filter]
  simp [hc]

theorem Path.not_mem_directory {c : Char} {p : String} (h : c ∉ p.toList) : c ∉ (directory p).toList :=
  fun hc => h ((directory_isPrefix p).subset hc)

namespace Template

variable {path text : List Char} {n : Int}

theorem not_mem_digits (n : Int) : '\x00' ∉ Piece.digits n := by
  intro h
  rcases List.mem_append.1 h with h | h
  · split at h
    · exact absurd (List.mem_singleton.1 h) (by decide)
    · cases h
  · exact absurd (Nat.isDigit_of_mem_toDigits (by decide) (by decide) h) (by decide)

/-- Filling a template neither adds null characters nor takes any away, if the path has none. -/
theorem mem_of_fill {pieces : List Piece} (hpath : '\x00' ∉ path)
    (h : fill (Piece.values path n) (Piece.template pieces) = .ok text) :
    '\x00' ∈ text ↔ '\x00' ∈ (Piece.template pieces).toList := by
  have hpiece {piece : Piece} {front : List Char} (h : piece.filled path n = .ok front) :
      '\x00' ∈ front ↔ '\x00' ∈ piece.write := by
    cases piece with
    | plain c hc =>
      obtain rfl := Except.ok.inj h
      rfl
    | opening =>
      obtain rfl := Except.ok.inj h
      decide
    | closing =>
      obtain rfl := Except.ok.inj h
      decide
    | events =>
      obtain rfl := Except.ok.inj h
      exact iff_of_false hpath (by decide)
    | interval =>
      rw [Piece.filled] at h
      split at h
      · obtain rfl := Except.ok.inj h
        exact iff_of_false (not_mem_digits n) (by decide)
      · cases h
  rw [Piece.template, String.toList_ofList]
  rw [fill, Piece.template, String.toList_ofList, Template.expand] at h
  induction pieces generalizing text with
  | nil =>
    rw [List.flatMap_nil, expandWith.eq_1] at h
    obtain rfl := Except.ok.inj h
    rfl
  | cons piece pieces ih =>
    rw [List.flatMap_cons, expandWith_write] at h
    obtain ⟨front, hfront, h⟩ := exists_of_bind_eq_ok h
    obtain ⟨back, hback, h⟩ := exists_of_bind_eq_ok h
    obtain rfl := Except.ok.inj h
    rw [List.flatMap_cons, List.mem_append, List.mem_append]
    exact or_congr (hpiece hfront) (ih hback)

end Template

open Benchmark (hasNull)

@[simp] theorem Benchmark.hasNull_iff {text : String} : hasNull text = true ↔ '\x00' ∈ text.toList := by
  simp [hasNull]

/-- A name and a value that can be in the environment of a process. -/
def Settable (setting : String × String) : Prop :=
  '=' ∉ setting.1.toList ∧ '\x00' ∉ setting.1.toList ∧ '\x00' ∉ setting.2.toList

theorem settable_mk {k v : String} (hname : '=' ∉ k.toList) (hnull : '\x00' ∉ k.toList) (hv : '\x00' ∉ v.toList) :
    Settable (k, v) := ⟨hname, hnull, hv⟩

/-- An environment that a process can have. -/
def Proper (env : Keyed String String) : Prop := ∀ setting ∈ env, Settable setting

namespace Proper

variable {env : Keyed String String} {k v : String}

theorem put (henv : Proper env) (h : Settable (k, v)) : Proper (env.put k v) := by
  intro setting hsetting
  rcases Keyed.mem_put hsetting with rfl | hsetting
  · exact h
  · exact henv _ hsetting

theorem foldl_put {ps : List (String × String)} (hps : ∀ p ∈ ps, Settable p) (henv : Proper env) :
    Proper (ps.foldl (fun env (k, v) => env.put k v) env) := by
  induction ps generalizing env with
  | nil => exact henv
  | cons p rest ih =>
    obtain ⟨hp, hrest⟩ := List.forall_mem_cons.1 hps
    exact ih hrest (henv.put hp)

end Proper

namespace Configuration

theorem settable_knob {name value : String} (hname : '=' ∉ name.toList ∧ '\x00' ∉ name.toList)
    (hvalue : '\x00' ∉ value.toList) : Settable (knob name value) := by
  have hfront : '=' ∉ "COMPlus_".toList ∧ '\x00' ∉ "COMPlus_".toList := by decide
  simp only [Settable, knob, String.toList_append, List.mem_append, not_or]
  exact ⟨⟨hfront.1, hname.1⟩, ⟨hfront.2, hname.2⟩, hvalue⟩

theorem proper_settings_make {name resultsDir : String} {settings : List (String × String)}
    (h : ∀ setting ∈ settings, Settable setting) : Proper (make name settings resultsDir).settings :=
  .foldl_put (fun setting hsetting => h setting (List.mem_mergeSort.1 hsetting)) nofun

theorem settable_precompiledOff : Settable precompiledOff := settable_knob (by decide) (by decide)

theorem settable_dumpForest : Settable dumpForest := settable_knob (by decide) (by decide)

variable {resultsDir : String} {c : Configuration}

/-- Whatever directory, depth or tree it is made for, the settings of a configuration can be handed to a process. -/
theorem Built.proper_settings (h : Built resultsDir c) : Proper c.settings := by
  have hprecompiled := settable_precompiledOff
  have hdump := settable_dumpForest
  cases h with
  | base =>
    refine proper_settings_make ?_
    simp only [List.forall_mem_cons]
    exact ⟨hprecompiled, settable_knob (by decide) (by decide), settable_knob (by decide) (by decide), hdump, nofun⟩
  | standard =>
    refine proper_settings_make ?_
    simp only [List.forall_mem_cons]
    exact ⟨hprecompiled, hdump, nofun⟩
  | full depthLimit =>
    have hdepth : '\x00' ∉ (toString depthLimit).toList := fun h =>
      absurd (Text.toNat_of_mem_toString h).1 (by decide)
    refine proper_settings_make ?_
    simp only [List.forall_mem_cons]
    exact ⟨hprecompiled, settable_knob (by decide) (by decide), settable_knob (by decide) hdepth, hdump, nofun⟩
  | @replay _ _ t _ prepared =>
    -- the directory of the replays was made, so its path has no null character
    obtain ⟨text, -, hprepared⟩ := exists_of_bind_eq_ok prepared
    obtain ⟨made, hmade, -⟩ := exists_of_bind_eq_ok hprepared
    obtain ⟨parts, hparts, -⟩ := Workspace.exists_of_makeDirectories (mapError_eq_ok.1 hmade)
    obtain ⟨hdirectory, -, -⟩ := Workspace.named_of_parts hparts
    obtain ⟨text, -, rfl, -⟩ := Replay.wrote_of_prepare prepared
    refine proper_settings_make ?_
    simp only [List.forall_mem_cons]
    exact ⟨hprecompiled, settable_knob (by decide) (by decide),
      settable_knob (by decide) (Replay.not_mem_file _ _ _ hdirectory), nofun⟩

/-- The path of an artifact has a null character only if the name of the benchmark has one. -/
theorem Built.mem_artifact_iff (h : Built resultsDir c) (hdir : '\x00' ∉ c.resultsDir.toList) (benchmark : String)
    {suffix : String} (hsuffix : '\x00' ∉ suffix.toList) :
    '\x00' ∈ (c.artifact benchmark suffix).toList ↔ '\x00' ∈ benchmark.toList := by
  have hname : '\x00' ∉ c.name.toList := by
    rcases h.name_cases with hmodel | ⟨t, text, hname⟩
    · have hall : ∀ model ∈ modelNames, '\x00' ∉ model.toList := by decide
      exact hall _ hmodel
    · have hfile := (Replay.nameable_fileName t text).2
      rw [Replay.fileName, String.toList_append, List.mem_append, not_or] at hfile
      rw [hname]
      exact hfile.1
  have hmarks : '\x00' ∉ "/".toList ∧ '\x00' ∉ "-".toList ∧ '\x00' ∉ ".".toList := by decide
  unfold artifact Path.join
  split
  · simp [hname, hsuffix]
  · split
    · simp [hname, hsuffix, hdir]
    · simp [hname, hsuffix, hdir]

end Configuration

namespace Benchmark

open Template (Piece)

variable {b : Benchmark} {c : Configuration} {s : Settings} {ambient env : Keyed String String}
  {resultsDir cwd : String} {pieces : List Piece} {words : List String}

/-- The iterations and the place of the runner are added to what was there, and then the settings. -/
theorem proper_environment (hc : Configuration.Built resultsDir c) (hambient : Proper ambient)
    (h : b.environment c s cwd ambient = .ok env) : Proper env := by
  obtain ⟨text, htext, h⟩ := exists_of_bind_eq_ok h
  obtain rfl := Except.ok.inj h
  refine .foldl_put (fun setting hsetting => hc.proper_settings setting hsetting) ?_
  have hnames : ∀ name ∈ [iterationsVariable, runnerVariable], '=' ∉ name.toList ∧ '\x00' ∉ name.toList := by
    simp only [List.forall_mem_cons]
    exact ⟨by decide, by decide, nofun⟩
  have hiterations := hnames iterationsVariable (.head _)
  have hrunner := hnames runnerVariable (.tail _ (.head _))
  have hcounted : Proper (ambient.put iterationsVariable text) := by
    refine hambient.put (settable_mk hiterations.1 hiterations.2 ?_)
    obtain ⟨count, -, htext⟩ := exists_of_bind_eq_ok htext
    split at htext
    · obtain rfl := Except.ok.inj htext
      exact fun h => absurd (Text.toNat_of_mem_toString h).1 (by decide)
    · cases htext
  split
  · exact hcounted
  · have hplace : '\x00' ∉ (Path.absolute cwd s.runner).toList := Path.not_mem_normalize (Path.join cwd s.runner)
    exact hcounted.put (settable_mk hrunner.1 hrunner.2 (Path.not_mem_directory hplace))

/-- A template of the capture tool without pieces sets none. -/
theorem captureWords_of_template (hcommand : s.captureCommand = Piece.template pieces) : b.captureWords c s =
    ((Template.fill (Piece.values (c.eventsFile b.name).toList s.pmcInterval) (Piece.template pieces)).mapError
      .template).map fun text => (Text.words text).map String.ofList := by
  unfold captureWords
  rw [hcommand]
  split
  · rename_i hempty
    have hnil : Piece.template pieces = "" := by simpa using hempty
    have hfill : Template.fill (Piece.values (c.eventsFile b.name).toList s.pmcInterval) "" = .ok [] := by
      rw [Template.fill, Template.expand]
      exact Template.expandWith.eq_1 _
    rw [hnil, hfill]
    rfl
  · dsimp only [Piece.values]
    split
    · rename_i text htext
      rw [htext]
      rfl
    · rename_i fault hfault
      rw [hfault]
      rfl

/-- The path of an executable has no null character, whatever is cut off from it. -/
theorem null_of_command (hcommand : s.captureCommand = Piece.template pieces)
    (hevents : '\x00' ∉ (c.eventsFile b.name).toList) (hrunner : '\x00' ∉ s.runner.toList)
    (h : b.command c s cwd = .ok words) : (∃ word ∈ words, '\x00' ∈ word.toList) ↔
      '\x00' ∈ s.captureCommand.toList ∨ ∃ arg ∈ b.args, '\x00' ∈ arg.toList := by
  obtain ⟨capture, hcapture, h⟩ := exists_of_bind_eq_ok h
  obtain rfl := Except.ok.inj h
  rw [captureWords_of_template hcommand] at hcapture
  have hfilled : (∃ word ∈ capture, '\x00' ∈ word.toList) ↔ '\x00' ∈ s.captureCommand.toList := by
    rw [hcommand]
    cases hfill : Template.fill (Piece.values (c.eventsFile b.name).toList s.pmcInterval) (Piece.template pieces) with
    | error fault =>
      rw [hfill] at hcapture
      cases hcapture
    | ok text =>
      rw [hfill] at hcapture
      obtain rfl := Except.ok.inj hcapture
      rw [← Template.mem_of_fill hevents hfill, ← Text.exists_word_iff (by decide) text]
      simp
  have habsolute : '\x00' ∉ (Path.absolute cwd b.path).toList := Path.not_mem_normalize (Path.join cwd b.path)
  have hstart : ∀ word ∈ (if s.runner.isEmpty then [] else [s.runner]), '\x00' ∉ word.toList := by
    split
    · exact nofun
    · exact List.forall_mem_singleton.2 hrunner
  rw [← hfilled]
  generalize Path.absolute cwd b.path = executable at habsolute ⊢
  simp only [List.mem_append, List.mem_cons]
  constructor
  · rintro ⟨word, (hword | hword) | rfl | hword, hnull⟩
    · exact .inl ⟨word, hword, hnull⟩
    · exact (hstart word hword hnull).elim
    · exact (habsolute hnull).elim
    · exact .inr ⟨word, hword, hnull⟩
  · rintro (⟨word, hword, hnull⟩ | ⟨word, hword, hnull⟩)
    · exact ⟨word, .inl (.inl hword), hnull⟩
    · exact ⟨word, .inr (.inr hword), hnull⟩

theorem checkWords_eq_ok_iff {l : Launch} (henv : Proper l.environment) :
    checkWords l = .ok () ↔ ¬∃ word ∈ l.command, '\x00' ∈ word.toList := by
  have hnone : (l.environment.any fun (k, v) => k.contains '=' || hasNull k || hasNull v) = false := by
    rw [List.any_eq_false]
    intro setting hsetting
    obtain ⟨hname, hnull, hvalue⟩ := henv setting hsetting
    simp [hname, hnull, hvalue]
  rw [checkWords, hnone, Bool.or_false]
  simp

end Benchmark

end InlineImpact
