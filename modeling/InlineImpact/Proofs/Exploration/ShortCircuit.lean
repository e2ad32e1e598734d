import InlineImpact.Proofs.Exploration.Scripted
import InlineImpact.Proofs.Noise

/-!
When a root is left alone because all inlining together has no effect beyond noise. That is so exactly
if the runs of its empty and its full tree cannot be told from each other, and a run without samples
passes for one that measured zero.
-/
namespace InlineImpact.Exploration

variable {W : Type}

/-- From the session, the root's empty and full tree come to these measurements, and the settings call
their difference noise, whereby a run without samples passes for one with a single sample, zero. -/
structure Explorer.NoiseOnly (e : Explorer W) (b : Benchmark) (full : Tree) (s : Session W)
    (empty all : Measurement) (threshold sigmas : Float) : Prop where
  ends : ∃ t, (e.measureEnds b full).on s = (.ok (empty, all), t)
  relative : e.settings.noiseThreshold.toFloat "noise threshold" = .ok threshold
  deviations : e.settings.noiseSigmas.toFloat "noise sigmas" = .ok sigmas
  noise : isNoise threshold sigmas empty.filled all.filled = .ok true

section Root

variable {e : Explorer W} {b : Benchmark} {f : Forest} {full : Tree} {s : Session W}

/-- A tree that is grown, and a root that is given up, are not left alone. -/
theorem not_shortCircuited_of_grew {report r : RootReport} {ds : List Decision} {t : Session W}
    (h : e.Grew b report ds s r t) : r.state ≠ .shortCircuited := by
  obtain ⟨J, -, -, hstate⟩ := h
  rcases hstate with h | h <;> rw [h] <;> decide

theorem exploreTree_shortCircuits :
    (e.exploreTree b f full).Yields s
      (fun r _ => r.state = .shortCircuited → ∃ empty all threshold sigmas,
        e.NoiseOnly b full s empty all threshold sigmas) fun _ _ => True := by
  have hgrew {ds : List Decision} {report : RootReport} {x : Exploring W RootReport} {t : Session W}
      {fail : Failure → Session W → Prop} (h : x.Yields t (e.Grew b report ds t) fail) :
      x.Yields t (fun r _ => r.state = .shortCircuited → ∃ empty all threshold sigmas,
        e.NoiseOnly b full s empty all threshold sigmas) fun _ _ => True :=
    h.mono (fun r u hr hstate => (not_shortCircuited_of_grew hr hstate).elim) fun _ _ _ => trivial
  obtain ⟨next, t, hentry, hnext⟩ := e.exploreTree_entry b f full s
  refine .of_on hnext ?_
  cases hentry with
  | @unmeasured failure _ _ =>
    cases failure with
    | aborted point => exact .pure nofun
    | run fault code => exact hgrew (giveUp_did e full.decisions _ fault)
    | _ => exact .throw trivial
  | unjudged _ _ => exact .throw trivial
  | shortCircuited hends hnoise _ =>
    obtain ⟨threshold, hthreshold, hnoise⟩ := exists_of_bind_eq_ok hnoise
    obtain ⟨sigmas, hsigmas, hnoise⟩ := exists_of_bind_eq_ok hnoise
    exact .pure fun _ =>
      ⟨_, _, threshold, sigmas, ⟨_, hends⟩, hthreshold, hsigmas, (isNoise_filled ..).trans hnoise⟩
  | @grown empty _ _ _ _ => exact hgrew (grow_did rfl (some empty) full.decisions)

theorem Explorer.NoiseOnly.exploreTree {empty all : Measurement} {threshold sigmas : Float}
    (h : e.NoiseOnly b full s empty all threshold sigmas) :
    ∃ r t, (e.exploreTree b f full).on s = (.ok r, t) ∧ r.state = .shortCircuited := by
  obtain ⟨t, hends⟩ := h.ends
  have hnoise : e.noise empty all = .ok true :=
    (Explorer.noise_eq h.relative h.deviations empty all).trans ((isNoise_filled ..).symm.trans h.noise)
  have hruns {o : Except Failure (Measurement × Measurement)} {u : Session W}
      (h : (e.measureEnds b full).on s = (o, u)) : o = .ok (empty, all) := congrArg Prod.fst (h.symm.trans hends)
  obtain ⟨next, u, hentry, hnext⟩ := e.exploreTree_entry b f full s
  cases hentry with
  | unmeasured h => cases hruns h
  | unjudged h hfailed =>
    obtain ⟨rfl, rfl⟩ := Prod.mk.inj (Except.ok.inj (hruns h))
    cases hfailed.symm.trans hnoise
  | shortCircuited _ _ _ => exact ⟨_, u, hnext, rfl⟩
  | grown h hgrown =>
    obtain ⟨rfl, rfl⟩ := Prod.mk.inj (Except.ok.inj (hruns h))
    cases hgrown.symm.trans hnoise

/-- A root with decisions is left alone exactly if one of them is not explored yet and the difference
between its full and its empty tree is noise, and that is so in particular if neither tree's run has a
sample. -/
theorem exploreRoot_shortCircuits_iff (e : Explorer W) (b : Benchmark) {root : MethodId}
    (hfull : f.tree root = .ok full) (hne : full.decisions ≠ []) (s : Session W) :
    ((∃ r t, (e.exploreRoot b f root).on s = (.ok r, t) ∧ r.state = .shortCircuited) ↔
      (∃ d ∈ full.decisions, d.context ∉ s.explored) ∧ ∃ empty all threshold sigmas,
        e.NoiseOnly b full s empty all threshold sigmas) ∧
    ∀ empty all threshold sigmas t, (e.measureEnds b full).on s = (.ok (empty, all), t) →
      e.settings.noiseThreshold.toFloat "noise threshold" = .ok threshold →
      e.settings.noiseSigmas.toFloat "noise sigmas" = .ok sigmas → threshold.isFinite = true →
      sigmas.isFinite = true → empty.samples = [] → all.samples = [] →
      e.NoiseOnly b full s empty all threshold sigmas := by
  refine ⟨?_, fun empty all threshold sigmas t hends hrelative hdeviations hthreshold hsigmas hempty hall =>
    ⟨⟨t, hends⟩, hrelative, hdeviations,
      (isNoise_filled ..).trans (isNoise_of_eq_nil hthreshold hsigmas hempty hall)⟩⟩
  have hopening := e.exploreRoot_opening b f root s
  generalize (e.exploreRoot b f root).on s = done at hopening
  cases hopening with
  | refused h => cases h.symm.trans hfull
  | bare h hnone =>
    obtain rfl := Except.ok.inj (h.symm.trans hfull)
    exact (hne hnone).elim
  | explored h _ hall =>
    obtain rfl := Except.ok.inj (h.symm.trans hfull)
    constructor
    · rintro ⟨r, t, hr, hstate⟩
      obtain rfl := Except.ok.inj (Prod.mk.inj hr).1
      cases hstate
    · rintro ⟨⟨d, hd, hnew⟩, -⟩
      exact (hnew (hall d hd)).elim
  | entered h hleft =>
    obtain rfl := Except.ok.inj (h.symm.trans hfull)
    constructor
    · rintro ⟨r, t, hr, hstate⟩
      exact ⟨hleft, exploreTree_shortCircuits.ok r t hr hstate⟩
    · rintro ⟨-, empty, all, threshold, sigmas, hnoise⟩
      exact hnoise.exploreTree

end Root

section Blank

/-- Every run counts, and no capture has a sample. -/
def blank : Script := { capture := fun _ => {} }

theorem measureEnds_of_blank : ∃ t, (blank.explorer.measureEnds early Script.full).on
    (Session.fresh 0 bareFiles none) = (.ok ({}, {}), t) := by
  obtain ⟨c, t, -, -, -, -, -, -, hends⟩ := blank.on_measureEnds (s := .fresh 0 bareFiles none) bareFiles_fits early
    rfl rfl rfl rfl
  exact ⟨t, hends⟩

theorem exploreRoot_blank_shortCircuits_iff :
    let e := blank.explorer
    let s : Session Nat := .fresh 0 bareFiles none
    Script.forest.tree Script.full.root = .ok Script.full ∧ Script.full.decisions ≠ [] ∧
    ((∃ r t, (e.exploreRoot early Script.forest Script.full.root).on s = (.ok r, t) ∧ r.state = .shortCircuited) ↔
      (∃ d ∈ Script.full.decisions, d.context ∉ s.explored) ∧ ∃ empty all threshold sigmas,
        e.NoiseOnly early Script.full s empty all threshold sigmas) ∧
    ∀ empty all threshold sigmas t, (e.measureEnds early Script.full).on s = (.ok (empty, all), t) →
      e.settings.noiseThreshold.toFloat "noise threshold" = .ok threshold →
      e.settings.noiseSigmas.toFloat "noise sigmas" = .ok sigmas → threshold.isFinite = true →
      sigmas.isFinite = true → empty.samples = [] → all.samples = [] →
      e.NoiseOnly early Script.full s empty all threshold sigmas :=
  ⟨Script.tree_forest, List.cons_ne_nil _ _,
    exploreRoot_shortCircuits_iff blank.explorer early Script.tree_forest (List.cons_ne_nil _ _) _⟩

/-- Nothing at all is known of the one root's two trees, and it is left alone for want of an effect. -/
theorem exploreRoot_blank_shortCircuits : ∃ r t u empty all,
    Script.forest.tree Script.full.root = .ok Script.full ∧ Script.full.decisions ≠ [] ∧
      (blank.explorer.exploreRoot early Script.forest Script.full.root).on (Session.fresh 0 bareFiles none) =
        (.ok r, t) ∧ r.state = .shortCircuited ∧
      (blank.explorer.measureEnds early Script.full).on (Session.fresh 0 bareFiles none) =
        (.ok (empty, all), u) ∧ empty.samples = [] ∧ all.samples = [] := by
  obtain ⟨u, hends⟩ := measureEnds_of_blank
  have hnoise : blank.explorer.NoiseOnly early Script.full (.fresh 0 bareFiles none) {} {} 0.01 2.0 :=
    ⟨⟨u, hends⟩, rfl, rfl, (isNoise_filled ..).trans (isNoise_of_eq_nil rfl rfl rfl rfl)⟩
  obtain ⟨r, t, hr, hstate⟩ := hnoise.exploreTree (f := Script.forest)
  have hon := blank.on_exploreRoot (s := .fresh 0 bareFiles none) early fun _ _ => List.not_mem_nil
  exact ⟨r, t, u, {}, {}, Script.tree_forest, List.cons_ne_nil _ _, hon.trans hr, hstate, hends, rfl, rfl⟩

end Blank

end InlineImpact.Exploration
