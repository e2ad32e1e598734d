import InlineImpact.Forest.Extract
import InlineImpact.Proofs.Forest
import InlineImpact.Proofs.Outcome
import Mathlib.Data.List.Infix

/-!
Which parts of a tree can be extracted. The chosen paths have to be paths of the tree, and with each of them
the ones in front of it have to be chosen; the part then has the tree's own decisions at these paths. How
often and in which order paths are chosen is of no importance.
-/
namespace InlineImpact

open scoped List

namespace Tree

variable {t u : Tree} {paths : List CallPath} {ds : List Decision}

/-- Paths of a tree pick its decisions. -/
theorem restrict_of_known (h : ∀ p ∈ paths, ∃ d ∈ t.decisions, d.path = p) :
    ∃ ds, t.restrict paths = ofDecisions t.root ds ∧ ds.map Decision.path = paths ∧ ds ⊆ t.decisions := by
  have hpick (p : CallPath) : ∃ d, p ∈ paths → d ∈ t.decisions ∧ d.path = p := by
    by_cases hp : p ∈ paths
    · obtain ⟨d, hd⟩ := h p hp
      exact ⟨d, fun _ => hd⟩
    · exact ⟨⟨[], default, 0, none, "", []⟩, fun hp' => (hp hp').elim⟩
  choose pick hpick using hpick
  have hfound : ∀ p ∈ paths, t.find? p = some (pick p) := by
    intro p hp
    obtain ⟨hd, hpath⟩ := hpick p hp
    rw [← hpath, find?_path hd, hpath]
  refine ⟨paths.map pick, ?_, ?_, ?_⟩
  · rw [restrict, mapM_eq_ok fun p hp => by rw [hfound p hp]]
    rfl
  · rw [List.map_map]
    exact (List.map_congr_left fun p hp => (hpick p hp).2).trans (List.map_id paths)
  · intro d hd
    obtain ⟨p, hp, rfl⟩ := List.mem_map.1 hd
    exact (hpick p hp).1

/-- Decisions of a tree, each once, are those at their paths. -/
theorem distinct_perm_filter (h : ds ⊆ t.decisions) :
    Decision.distinct ds ~ t.decisions.filter (·.path ∈ ds.map Decision.path) := by
  have hnodup : (t.decisions.filter (·.path ∈ ds.map Decision.path)).Nodup :=
    t.nodup_keys.of_map.sublist List.filter_sublist
  refine (List.perm_ext_iff_of_nodup (Decision.nodup_keys_distinct ds).of_map hnodup).2 fun d => ?_
  have hsub : Decision.distinct ds ⊆ ds := (Decision.distinct_sublist ds).subset
  simp only [List.mem_filter, decide_eq_true_eq]
  constructor
  · intro hd
    exact ⟨h (hsub hd), List.mem_map_of_mem (hsub hd)⟩
  · rintro ⟨hd, hpath⟩
    obtain ⟨e, he, hpath⟩ := List.mem_map.1 (Decision.mem_paths_distinct.2 hpath)
    rwa [← List.inj_on_of_nodup_map t.nodup_paths (h (hsub he)) hd hpath]

theorem known_of_restrict (h : t.restrict paths = .ok u) : ∀ p ∈ paths, ∃ d ∈ t.decisions, d.path = p := by
  intro p hp
  by_contra hforeign
  push Not at hforeign
  obtain ⟨ds, hds, -⟩ := exists_of_bind_eq_ok h
  obtain ⟨d, -, hd⟩ := exists_of_mapM_eq_ok hds p hp
  rw [find?_eq_none_iff.2 hforeign] at hd
  cases hd

/-- A path that is foreign to the tree is named. -/
theorem restrict_of_unknown (h : ∃ p ∈ paths, ∀ d ∈ t.decisions, d.path ≠ p) :
    ∃ p ∈ paths, (∀ d ∈ t.decisions, d.path ≠ p) ∧ t.restrict paths = .error (.foreignSite p t.root) := by
  obtain ⟨p, hp, hforeign⟩ := h
  cases hrestrict : t.restrict paths with
  | ok u =>
    obtain ⟨d, hd, hpath⟩ := known_of_restrict hrestrict p hp
    exact (hforeign d hd hpath).elim
  | error fault =>
    rcases of_bind_eq_error hrestrict with hpicking | ⟨ds, hds, -⟩
    · obtain ⟨q, hq, hfault⟩ := exists_of_mapM_eq_error hpicking
      cases hfound : t.find? q with
      | some d =>
        rw [hfound] at hfault
        cases hfault
      | none =>
        rw [hfound] at hfault
        exact ⟨q, hq, find?_eq_none_iff.1 hfound, congrArg Except.error (Except.error.inj hfault).symm⟩
    · obtain ⟨d, -, hd⟩ := exists_of_mapM_eq_ok hds p hp
      rw [find?_eq_none_iff.2 hforeign] at hd
      cases hd

/-- A part has the tree's own decisions at the chosen paths, in the tree's order. -/
theorem restrict_eq_ok_iff : t.restrict paths = .ok u ↔ (∀ p ∈ paths, ∃ d ∈ t.decisions, d.path = p) ∧
    u.root = t.root ∧ u.decisions = t.decisions.filter (·.path ∈ paths) := by
  rw [← and_iff_right_of_imp known_of_restrict]
  refine and_congr_right fun h => ?_
  obtain ⟨ds, hds, rfl, hsub⟩ := restrict_of_known h
  have hperm := distinct_perm_filter hsub
  rw [hds, ofDecisions_eq_ok_iff]
  refine and_congr_right fun _ => ⟨fun hu => ?_, fun hu => hu ▸ hperm.symm⟩
  refine (hu.trans hperm).eq_of_pairwise ?_ u.ordered (t.ordered.sublist List.filter_sublist)
  exact fun d e _ _ hde hed => (CallPath.Before.asymm hde hed).elim

theorem nodup_paths_distinct (h : ds ⊆ t.decisions) : ((Decision.distinct ds).map Decision.path).Nodup := by
  rw [((distinct_perm_filter h).map Decision.path).nodup_iff]
  exact t.nodup_paths.sublist (List.filter_sublist.map Decision.path)

/-- A part is a tree if the chosen paths are closed. Only the decision directly above another one is looked
for, so that all those in front of it are there is by induction on its depth (`exists_ancestor`). -/
theorem exists_restrict_iff : (∃ u, t.restrict paths = .ok u) ↔
    (∀ p ∈ paths, ∃ d ∈ t.decisions, d.path = p) ∧ ∀ p ∈ paths, ∀ q, q ≠ [] → q <+: p → q ∈ paths := by
  constructor
  · rintro ⟨u, hu⟩
    obtain ⟨hknown, -, hdecisions⟩ := restrict_eq_ok_iff.1 hu
    refine ⟨hknown, fun p hp q hne hfront => ?_⟩
    obtain ⟨d, hd, rfl⟩ := hknown p hp
    have hmem : d ∈ u.decisions := by simp [hdecisions, hd, hp]
    obtain ⟨e, he, rfl⟩ := exists_ancestor hmem hfront hne
    rw [hdecisions, List.mem_filter] at he
    simpa using he.2
  · rintro ⟨hknown, hclosed⟩
    obtain ⟨ds, hds, rfl, hsub⟩ := restrict_of_known hknown
    rw [hds]
    refine exists_ofDecisions t.root (nodup_paths_distinct hsub) fun d hd => ?_
    rw [Decision.supported_iff]
    by_cases hroot : d.above = []
    · exact .inl hroot
    · exact .inr (hclosed d.path (List.mem_map_of_mem hd) d.above hroot (List.prefix_append _ _))

/-- Choosing paths more often or in another order makes no difference. -/
theorem restrict_congr {others : List CallPath} (h : ∀ p, p ∈ others ↔ p ∈ paths)
    (hu : t.restrict paths = .ok u) : t.restrict others = .ok u := by
  obtain ⟨hknown, hroot, hdecisions⟩ := restrict_eq_ok_iff.1 hu
  refine restrict_eq_ok_iff.2 ⟨fun p hp => hknown p ((h p).1 hp), hroot, hdecisions.trans ?_⟩
  refine List.filter_congr fun d _ => ?_
  rw [decide_eq_decide, h]

/-- What is refused is refused for a path that is foreign, or that lacks the one in front of it. -/
theorem restrict_fault {fault : TreeFault} (h : t.restrict paths = .error fault) : ∃ p ∈ paths,
    (fault = .foreignSite p t.root ∧ ∀ d ∈ t.decisions, d.path ≠ p) ∨
    (fault = .missingParent p t.root ∧ p.dropLast ∉ paths) := by
  by_cases hknown : ∀ p ∈ paths, ∃ d ∈ t.decisions, d.path = p
  · obtain ⟨ds, hds, rfl, hsub⟩ := restrict_of_known hknown
    have hpaths := nodup_paths_distinct hsub
    rw [hds] at h
    have hbare : ∃ d ∈ ds, ¬d.Supported ds := by
      by_contra hall
      push Not at hall
      obtain ⟨u, hu⟩ := exists_ofDecisions t.root hpaths hall
      cases h.symm.trans hu
    obtain ⟨d, hd, hlacks, hfault⟩ := ofDecisions_of_unsupported t.root hpaths hbare
    refine ⟨d.path, List.mem_map_of_mem hd, .inr ⟨Except.error.inj (h.symm.trans hfault), fun habove => ?_⟩⟩
    rw [Decision.supported_iff] at hlacks
    refine hlacks (.inr ?_)
    simpa [Decision.path] using habove
  · push Not at hknown
    obtain ⟨p, hp, hforeign, hfault⟩ := restrict_of_unknown hknown
    exact ⟨p, hp, .inl ⟨Except.error.inj (h.symm.trans hfault), hforeign⟩⟩

end Tree

namespace Forest

variable {f : Forest} {root : MethodId}

theorem extract_of_tree {full : Tree} (h : f.tree root = .ok full) (choices : List Choice) :
    f.extract root choices = (full.restrict (choices.map Choice.toPath)).mapError .tree := by
  rw [extract, h]
  rfl

/-- A part of a root's tree can be extracted if its paths are paths of the tree and are closed. It then has
exactly the tree's own decisions there, however the paths were chosen; else a path is named that is foreign or
that lacks the one in front of it. -/
theorem extract_characterized (hroot : root ∈ f.roots) (hclear : root ∉ f.ambiguous) :
    ∃ full, f.tree root = .ok full ∧ ∀ choices : List Choice,
      let paths := choices.map Choice.toPath
      ((∃ t, f.extract root choices = .ok t) ↔ (∀ p ∈ paths, ∃ d ∈ full.decisions, d.path = p) ∧
        ∀ p ∈ paths, ∀ q, q ≠ [] → q <+: p → q ∈ paths) ∧
      (∀ t, f.extract root choices = .ok t → t.root = root ∧
        t.decisions = full.decisions.filter (·.path ∈ paths) ∧ t.isSubtreeOf full = true ∧
        ∀ others : List Choice, (∀ p, p ∈ others.map Choice.toPath ↔ p ∈ paths) →
          f.extract root others = .ok t) ∧
      ∀ failure, f.extract root choices = .error failure → ∃ p ∈ paths,
        (failure = .tree (.foreignSite p root) ∧ ∀ d ∈ full.decisions, d.path ≠ p) ∨
        (failure = .tree (.missingParent p root) ∧ p.dropLast ∉ paths) := by
  obtain ⟨full, hfull⟩ := exists_tree hroot hclear
  obtain rfl := root_of_tree hfull
  refine ⟨full, hfull, fun choices => ?_⟩
  intro paths
  simp only [extract_of_tree hfull, mapError_eq_ok]
  refine ⟨Tree.exists_restrict_iff, fun t ht => ?_, fun failure hfailure => ?_⟩
  · obtain ⟨-, hroot', hdecisions⟩ := Tree.restrict_eq_ok_iff.1 ht
    have hsub : t.decisions ⊆ full.decisions := hdecisions ▸ List.filter_subset_self ..
    exact ⟨hroot', hdecisions, Tree.isSubtreeOf_of_subset hroot' hsub,
      fun others hothers => Tree.restrict_congr hothers ht⟩
  · cases hrestrict : full.restrict paths with
    | ok t =>
      rw [hrestrict] at hfailure
      cases hfailure
    | error fault =>
      rw [hrestrict] at hfailure
      obtain rfl := Except.error.inj hfailure
      simpa using Tree.restrict_fault hrestrict

/-- Two methods in a root, and two more in the first of them. -/
def branchedTree : Tree where
  root := ⟨6, -1⟩
  decisions := [⟨[], ⟨4, 200⟩, 10, some ⟨6, -1⟩, "hot", [("Depth", .int 1)]⟩, ⟨[], ⟨9, -3⟩, 11, none, "", []⟩,
    ⟨[⟨4, 200⟩], ⟨2, 400⟩, 0, none, "", []⟩, ⟨[⟨4, 200⟩], ⟨8, 200⟩, -7, none, "cold", []⟩]
  ordered := by decide
  supported := by decide

/-- The two methods that stand on each other, chosen in the wrong order, one of them twice and once by a
decision with another hash; and one of them alone, which cannot be. -/
theorem extract_branchedTree :
    let f : Forest := ⟨[.empty ⟨1, 0⟩, branchedTree], [], [⟨7, 7⟩]⟩
    let inner : CallPath := [⟨4, 200⟩, ⟨8, 200⟩]
    branchedTree.root ∈ f.roots ∧ branchedTree.root ∉ f.ambiguous ∧
      (∃ t, f.extract branchedTree.root
          [.path inner, .decision ⟨[], ⟨4, 200⟩, 99, none, "", []⟩, .path inner] = .ok t ∧
        t.size = 2 ∧ t.isSubtreeOf branchedTree = true) ∧
      ¬∃ t, f.extract branchedTree.root [.path inner] = .ok t := by
  intro f inner
  have hroot : branchedTree.root ∈ f.roots := by decide
  have hclear : branchedTree.root ∉ f.ambiguous := by decide
  obtain ⟨full, hfull, hextract⟩ := extract_characterized hroot hclear
  obtain rfl : branchedTree = full := Except.ok.inj hfull
  refine ⟨hroot, hclear, ?_, fun h => ?_⟩
  · let choices : List Choice := [.path inner, .decision ⟨[], ⟨4, 200⟩, 99, none, "", []⟩, .path inner]
    obtain ⟨hiff, hpart, -⟩ := hextract choices
    have hknown : ∀ p ∈ choices.map Choice.toPath, ∃ d ∈ branchedTree.decisions, d.path = p := by decide
    have hclosed : ∀ p ∈ choices.map Choice.toPath, ∀ q ∈ p.inits, q ≠ [] → q ∈ choices.map Choice.toPath := by
      decide
    obtain ⟨t, ht⟩ := hiff.2 ⟨hknown, fun p hp q hne hfront => hclosed p hp q ((List.mem_inits q p).2 hfront) hne⟩
    obtain ⟨-, hdecisions, hsub, -⟩ := hpart t ht
    exact ⟨t, ht, by rw [Tree.size, hdecisions]; decide, hsub⟩
  · obtain ⟨hiff, -, -⟩ := hextract [.path inner]
    exact absurd ((hiff.1 h).2 inner (by decide) [⟨4, 200⟩] (by decide) (by decide)) (by decide)

end Forest

end InlineImpact
