import InlineImpact.Proofs.Configuration
import InlineImpact.Proofs.Replay.Archive

/-!
Whose artifact a path is. Benchmark, configuration and kind of an artifact are joined by a dash and a dot, and
each of them may have dashes in it. Still a path is that of one benchmark, one configuration and one kind, since
the name of a configuration can be told from the end of the path.
-/
namespace InlineImpact

/-- From the last mark on, two texts are the same. -/
theorem append_last_mark_inj {mark : Char} {x y p q : List Char} (hp : mark ∉ p) (hq : mark ∉ q)
    (h : x ++ mark :: p = y ++ mark :: q) : x = y ∧ p = q := by
  have hback := congrArg List.reverse h
  simp only [List.reverse_append, List.reverse_cons, List.append_assoc, List.singleton_append] at hback
  obtain ⟨hlast, hfront⟩ := append_mark_inj (by simpa using hp) (by simpa using hq) hback
  exact ⟨List.reverse_injective hfront, List.reverse_injective hlast⟩

theorem Path.join_injective {a b b' : String} (hb : b.startsWith "/" = false) (hb' : b'.startsWith "/" = false)
    (h : join a b = join a b') : b = b' := by
  simp only [join, hb, hb', Bool.false_eq_true, if_false] at h
  refine String.toList_injective ?_
  split at h
  all_goals simpa using congrArg String.toList h

namespace Replay

variable {t u : Tree} {text text' : String} {front front' : List Char}

/-- A number in base sixteen has a dash at its front only, for its sign. -/
theorem exists_hex8_eq (n : Int) : ∃ sign digits : List Char, (Text.hex8 n).toList = sign ++ digits ∧
    (sign = [] ∨ sign = ['-']) ∧ '-' ∉ digits := by
  have hdigits (k : Nat) : '-' ∉ List.replicate k '0' ++ Text.hexDigits n.natAbs := by
    intro h
    obtain ⟨rest, more, hsplit⟩ := List.append_of_mem h
    obtain ⟨d, hd, hmark⟩ := Text.exists_digitChar_of_mem_filled h
    have hall : ∀ d < 16, '-' ≠ Nat.digitChar d := by decide
    exact hall d hd hmark
  rw [Text.hex8, String.toList_ofList, Text.hexWide]
  split
  · exact ⟨['-'], _, rfl, .inr rfl, hdigits _⟩
  · exact ⟨[], _, rfl, .inl rfl, hdigits _⟩

theorem toList_nameFor (t : Tree) (text : String) : (nameFor t text).toList = "replay".toList ++
    '-' :: ((Text.hex8 t.root.token).toList ++ '-' :: ((toString t.size).toList ++ '-' :: (digest text).toList)) := by
  simp [nameFor]

/-- Whatever stands before it, the name of a replay can be told from the end: the digest and the size have no dash,
and a sign of the token is the second of two dashes. -/
theorem front_eq_of_nameFor (h : front ++ '-' :: (nameFor t text).toList = front' ++ '-' :: (nameFor u text').toList) :
    front = front' ∧ nameFor t text = nameFor u text' := by
  have hsize (n : Nat) : '-' ∉ (toString n).toList := by
    rw [show toString n = n.repr from rfl, Nat.toList_repr]
    exact fun hc => by simpa using Nat.isDigit_of_mem_toDigits (by decide) (by decide) hc
  have hcut (front : List Char) (t : Tree) (text : String) : front ++ '-' :: (nameFor t text).toList =
      ((front ++ '-' :: "replay".toList ++ '-' :: (Text.hex8 t.root.token).toList) ++
        '-' :: (toString t.size).toList) ++ '-' :: (digest text).toList := by
    simp [toList_nameFor]
  have hwhole := h
  rw [hcut, hcut] at h
  obtain ⟨h, hdigest⟩ := append_last_mark_inj (not_mem_digest text) (not_mem_digest text') h
  obtain ⟨h, hsize⟩ := append_last_mark_inj (hsize _) (hsize _) h
  obtain ⟨sign, digits, htoken, hsign, hdigits⟩ := exists_hex8_eq t.root.token
  obtain ⟨sign', digits', htoken', hsign', hdigits'⟩ := exists_hex8_eq u.root.token
  have hshift {sign : List Char} (hsign : sign = [] ∨ sign = ['-']) (stem digits : List Char) :
      stem ++ '-' :: (sign ++ digits) = (stem ++ sign) ++ '-' :: digits := by
    rcases hsign with rfl | rfl <;> simp
  rw [htoken, htoken', hshift hsign, hshift hsign'] at h
  obtain ⟨h, -⟩ := append_last_mark_inj hdigits hdigits' h
  -- What is left ends in a letter, so a sign on one side is a sign on the other.
  have hfront : front = front' := by
    rcases hsign with rfl | rfl <;> rcases hsign' with rfl | rfl
    · simpa using h
    · simpa using congrArg List.getLast? h
    · simpa using congrArg List.getLast? h
    · simpa using h
  subst hfront
  exact ⟨rfl, String.toList_injective (List.cons_eq_cons.1 (List.append_cancel_left hwhole)).2⟩

end Replay

namespace Configuration

/-- The configurations that runs are made under, for one directory of results. -/
inductive Built (resultsDir : String) : Configuration → Prop where
  | base : Built resultsDir (base resultsDir)
  | standard : Built resultsDir (standard resultsDir)
  | full (depthLimit : Int) : Built resultsDir (full resultsDir depthLimit)
  | replay {ws ws' : Workspace} {t : Tree} {c : Configuration}
      (prepared : Replay.prepare ws t resultsDir = .ok (c, ws')) : Built resultsDir c

/-- The names of the models. -/
def modelNames : List String := ["base", "default", "full"]

variable {resultsDir : String} {c c' : Configuration}

namespace Built

/-- All of them have their artifacts in one directory. -/
theorem resultsDir_eq (h : Built resultsDir c) : c.resultsDir = Replay.targetDir resultsDir := by
  cases h with
  | base | standard | full => rfl
  | @replay _ _ t _ prepared =>
    have hc := Replay.configurationOf_of_prepare prepared
    rw [Replay.configurationOf] at hc
    cases hn : Replay.name t with
    | error failure =>
      rw [hn] at hc
      cases hc
    | ok name =>
      rw [hn] at hc
      have hfilled : (Replay.targetDir resultsDir).isEmpty = false := by
        unfold Replay.targetDir
        split
        · decide
        · exact Bool.eq_false_iff.2 ‹_›
      rw [← Except.ok.inj hc]
      exact if_neg (by simp [hfilled])

theorem name_cases (h : Built resultsDir c) :
    c.name ∈ modelNames ∨ ∃ t text, c.name = Replay.nameFor t text := by
  cases h with
  | base => exact .inl (.head _)
  | standard => exact .inl (.tail _ (.head _))
  | full => exact .inl (.tail _ (.tail _ (.head _)))
  | replay prepared =>
    obtain ⟨text, -, hname⟩ := Replay.exists_content_of_name
      (Replay.name_of_configurationOf (Replay.configurationOf_of_prepare prepared))
    exact .inr ⟨_, text, hname.symm⟩

end Built

/-- A model has no dash in its name, and a letter that no digest has. -/
theorem model_ne_digest {model : String} (text : String) (h : model ∈ modelNames) :
    '-' ∉ model.toList ∧ model.toList ≠ (Replay.digest text).toList := by
  have hall : ∀ model ∈ modelNames, '-' ∉ model.toList ∧ ∃ c ∈ model.toList, ∀ d < 16, Nat.digitChar d ≠ c := by
    simp only [modelNames, List.forall_mem_cons]
    exact ⟨⟨by decide, 's', by decide, by decide⟩, ⟨by decide, 'u', by decide, by decide⟩,
      ⟨by decide, 'u', by decide, by decide⟩, nofun⟩
  obtain ⟨hdash, c, hc, hletter⟩ := hall model h
  refine ⟨hdash, fun heq => ?_⟩
  obtain ⟨d, hd, hdigit⟩ := exists_digitChar_of_mem_digest (heq ▸ hc)
  exact hletter d hd hdigit

/-- No model is taken for a replay, whatever stands before their names. -/
theorem model_ne_replay {model text : String} {t : Tree} {front front' : List Char} (h : model ∈ modelNames) :
    front ++ '-' :: model.toList ≠ front' ++ '-' :: (Replay.nameFor t text).toList := by
  intro heq
  obtain ⟨hdash, hne⟩ := model_ne_digest text h
  have hcut : front' ++ '-' :: (Replay.nameFor t text).toList = (front' ++ '-' :: "replay".toList ++
      '-' :: ((Text.hex8 t.root.token).toList ++ '-' :: (toString t.size).toList)) ++
        '-' :: (Replay.digest text).toList := by
    simp [Replay.toList_nameFor]
  rw [hcut] at heq
  exact hne (append_last_mark_inj hdash (Replay.not_mem_digest text) heq).2

/-- Whatever stands before it, the name of a configuration can be told from the end. -/
theorem Built.front_eq (hc : Built resultsDir c) (hc' : Built resultsDir c') {front front' : List Char}
    (h : front ++ '-' :: c.name.toList = front' ++ '-' :: c'.name.toList) : front = front' ∧ c.name = c'.name := by
  rcases hc.name_cases with hmodel | ⟨t, text, hname⟩ <;> rcases hc'.name_cases with hmodel' | ⟨u, text', hname'⟩
  · obtain ⟨hfront, hname⟩ := append_last_mark_inj (model_ne_digest "" hmodel).1
      (model_ne_digest "" hmodel').1 h
    exact ⟨hfront, String.toList_injective hname⟩
  · rw [hname'] at h
    exact (model_ne_replay hmodel h).elim
  · rw [hname] at h
    exact (model_ne_replay hmodel' h.symm).elim
  · rw [hname, hname'] at h ⊢
    exact Replay.front_eq_of_nameFor h

/-- For one directory of results and benchmarks whose names are no absolute paths, the path of an artifact tells
the benchmark, the configuration and the kind of the artifact. -/
theorem artifact_injective (hc : Built resultsDir c) (hc' : Built resultsDir c') {b b' suffix suffix' : String}
    (hb : b.startsWith "/" = false) (hb' : b'.startsWith "/" = false) (hs : '.' ∉ suffix.toList)
    (hs' : '.' ∉ suffix'.toList) :
    c.artifact b suffix = c'.artifact b' suffix' ↔ b = b' ∧ c.name = c'.name ∧ suffix = suffix' := by
  have hsame : c.resultsDir = c'.resultsDir := hc.resultsDir_eq.trans hc'.resultsDir_eq.symm
  constructor
  · intro h
    have hrelative {b : String} (hb : b.startsWith "/" = false) (name suffix : String) :
        (b ++ "-" ++ name ++ "." ++ suffix).startsWith "/" = false := by
      rw [Bool.eq_false_iff, Ne, Text.startsWith_slash_iff] at hb ⊢
      simp only [String.toList_append]
      cases hchars : b.toList with
      | nil => simp
      | cons first rest => simpa [hchars] using hb
    have hparts (b name suffix : String) : (b ++ "-" ++ name ++ "." ++ suffix).toList =
        (b.toList ++ '-' :: name.toList) ++ '.' :: suffix.toList := by
      simp
    rw [artifact, artifact, hsame] at h
    have hnames := congrArg String.toList (Path.join_injective (hrelative hb _ _) (hrelative hb' _ _) h)
    rw [hparts, hparts] at hnames
    obtain ⟨hstem, hsuffix⟩ := append_last_mark_inj hs hs' hnames
    obtain ⟨hbenchmark, hname⟩ := hc.front_eq hc' hstem
    exact ⟨String.toList_injective hbenchmark, hname, String.toList_injective hsuffix⟩
  · rintro ⟨rfl, hname, rfl⟩
    rw [artifact, artifact, hsame, hname]

/-- A replay of a root with a negative token, and a benchmark that is named like the artifacts of this replay. -/
theorem artifact_injective_lookalike : ∃ c ws,
    Replay.prepare bareFiles (.empty ⟨-5, 0⟩) defaultResultsDir = .ok (c, ws) ∧
      c.artifact "a" "err" ≠ (base defaultResultsDir).artifact "a-replay--0000005-0" "err" := by
  have hreadable : Forest.Readable (.empty ⟨-5, 0⟩) := by
    unfold Forest.Readable
    decide +kernel
  have hcontent := Replay.content_of_readable hreadable
  have hshort : 53 + (Text.hex8 (Tree.empty ⟨-5, 0⟩).root.token).utf8ByteSize +
      (toString (Tree.empty ⟨-5, 0⟩).size).utf8ByteSize ≤ Workspace.maxNameBytes := by decide +kernel
  obtain ⟨c, ws, hprepared, -⟩ := replayLayout_takesReplays.prepare bareFiles_fits hcontent
    ((Replay.utf8ByteSize_fileName_le _ _).trans hshort)
  refine ⟨c, ws, hprepared, fun h => ?_⟩
  have hsame := (artifact_injective (.replay hprepared) .base (by decide +kernel) (by decide +kernel) (by decide)
    (by decide)).1 h
  exact absurd hsame.1 (by decide)

end Configuration

end InlineImpact
