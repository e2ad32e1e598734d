import InlineImpact.Proofs.Forest.RoundTrip
import InlineImpact.Proofs.Tree.Formation

/-!
What a written form stands for. Trees with one root and the same paths and hashes have one written form,
in whichever order they were put together and whatever else their decisions tell. And a written form tells
the root, the paths and the hashes.
-/
namespace InlineImpact

namespace Tree

variable {t u : Tree}

theorem Alike.callerOf_eq (h : t.Alike u) (p : CallPath) : t.callerOf p = u.callerOf p := by
  by_cases hp : ∃ d ∈ t.decisions, d.path = p
  · obtain ⟨d, hd, rfl⟩ := hp
    obtain ⟨e, he, hkey⟩ := h.exists_key_eq hd
    obtain ⟨-, hsite, hhash⟩ := Decision.eq_of_key_eq hkey
    have hpath : e.path = d.path := congrArg Prod.fst hkey
    rw [callerOf_path hd, ← hpath, callerOf_path he, Decision.callee, Decision.callee, hsite, hhash]
  · have hnone {x : Tree} (hx : ∀ d ∈ x.decisions, d.path ≠ p) : x.callerOf p = x.root := by
      rw [callerOf, find?_eq_none_iff.2 hx]
      rfl
    have ht : ∀ d ∈ t.decisions, d.path ≠ p := fun d hd heq => hp ⟨d, hd, heq⟩
    rw [hnone ht, hnone, h.root]
    intro e he heq
    obtain ⟨d, hd, hkey⟩ := h.symm.exists_key_eq he
    exact ht d hd ((congrArg Prod.fst hkey).trans heq)

/-- With nothing told besides, trees that are alike are one. -/
theorem Alike.bare_eq (h : t.Alike u) : t.bare = u.bare := by
  have hsub {t u : Tree} (h : t.Alike u) : ∀ d ∈ t.bare.decisions, d ∈ u.bare.decisions := by
    intro d hd
    obtain ⟨e, he, rfl⟩ := List.mem_map.1 hd
    obtain ⟨e', he', hkey⟩ := h.exists_key_eq he
    obtain ⟨habove, hsite, hhash⟩ := Decision.eq_of_key_eq hkey
    refine List.mem_map.2 ⟨e', he', ?_⟩
    rw [plain, plain, habove, hsite, hhash, h.callerOf_eq]
  have hnodup (t : Tree) : t.decisions.Nodup := t.nodup_paths.of_map _
  have hperm : u.bare.decisions.Perm t.bare.decisions :=
    (List.perm_ext_iff_of_nodup (hnodup _) (hnodup _)).2 fun d => ⟨hsub h.symm d, hsub h d⟩
  exact eq_of_perm h.root hperm.symm

end Tree

namespace Replay

open Markup Forest Tree

variable {t u : Tree} {text : String}

/-- Trees that are alike have one written form, or none if a number of theirs is too long. -/
theorem content_eq_of_alike (h : t.Alike u) : content t = content u := by
  have hbare (t : Tree) : dump? [t.bare] = dump? [t] := dump?_bare [t]
  have hdump : dump? [t] = dump? [u] := calc
    dump? [t] = dump? [t.bare] := (hbare t).symm
    _ = dump? [u.bare] := congrArg (fun b => dump? [b]) h.bare_eq
    _ = dump? [u] := hbare u
  unfold content
  rw [hdump]

theorem readable_of_content (h : content t = .ok text) : ∀ n ∈ t.numbers, hasReadableSize n := by
  unfold content dump? at h
  cases hall : [t].all fun t => t.numbers.all hasReadableSize with
  | false =>
    simp only [hall] at h
    cases h
  | true =>
    simp only [List.all_cons, List.all_nil, Bool.and_true, List.all_eq_true] at hall
    exact hall

theorem content_of_readable (h : Readable t) : content t = .ok (dumpText [t]) := by
  unfold content
  rw [dump?_of_readable (List.forall_mem_singleton.2 h)]

/-- The decisions of a written form are read in the order of the listing. -/
theorem listing_eq_of_content_eq (ht : content t = .ok text) (hu : content u = .ok text) :
    (t.preorder t.size []).map t.plain = (u.preorder u.size []).map u.plain := by
  have hroot := (root_and_size_eq_of_content_eq ht hu).1
  have hread (t : Tree) : readDocument? (document "InlineForest" (methods [t])) =
      some ⟨"InlineForest", String.ofList (lineAt 1), (methods [t]).laidOut 1⟩ :=
    readDocument?_document (by decide) ((expected_methods [t]).imp fun _ _ h => ⟨h.isPlainName, h.2⟩) rfl
  have hshape (t : Tree) : (methods [t]).laidOut 1 = .element "Methods" (String.ofList (lineAt 2))
      (.element "Method" (String.ofList (lineAt 3)) (headed t (t.inlinesAt t.size [] 3)) .empty) .empty := by
    rw [methods, inOrder, List.mergeSort_singleton]
    rfl
  have hdocument : document "InlineForest" (methods [t]) = document "InlineForest" (methods [u]) := by
    have hsame := congrArg String.toList ((dumpText_of_content ht).trans (dumpText_of_content hu).symm)
    rw [toList_dumpText, toList_dumpText] at hsame
    exact List.append_cancel_right hsame
  have hlaid : (methods [t]).laidOut 1 = (methods [u]).laidOut 1 :=
    (Element.mk.inj (Option.some.inj ((hread t).symm.trans (hdocument ▸ hread u)))).2.2
  rw [hshape, hshape] at hlaid
  have hheaded := (Hedge.element.inj (Hedge.element.inj hlaid).2.2.1).2.2.1
  have hinlines : t.inlinesAt t.size [] 3 = u.inlinesAt u.size [] 3 :=
    (Hedge.element.inj (Hedge.element.inj (Hedge.element.inj hheaded).2.2.2).2.2.2).2.2.2
  have hdecisions (t : Tree) (h : ∀ n ∈ t.numbers, hasReadableSize n) :
      readDecisions false t.root [] (t.inlinesAt t.size [] 3) = .ok ((t.preorder t.size []).map t.plain) := by
    have := readDecisions_inlinesAt h t.size [] 3
    rwa [callerOf_nil] at this
  have hlist := hdecisions t (readable_of_content ht)
  rw [hinlines, hroot, hdecisions u (readable_of_content hu)] at hlist
  exact (Except.ok.inj hlist).symm

/-- Only trees that are alike have the same written form. -/
theorem alike_of_content_eq (ht : content t = .ok text) (hu : content u = .ok text) : t.Alike u := by
  have hkeys (t : Tree) (k : CallPath × Int) :
      k ∈ ((t.preorder t.size []).map t.plain).map Decision.key ↔ k ∈ t.decisions.map Decision.key := by
    have hplain : Decision.key ∘ t.plain = Decision.key := rfl
    rw [List.map_map, hplain]
    exact (t.preorder_perm.map Decision.key).mem_iff
  refine ⟨(root_and_size_eq_of_content_eq ht hu).1, fun k => ?_⟩
  rw [← hkeys t, ← hkeys u, listing_eq_of_content_eq ht hu]

theorem nameFor_eq_of_alike (h : t.Alike u) : nameFor t = nameFor u := by
  funext text
  rw [nameFor, nameFor, h.root, h.size_eq]

/-- Writing out trees that are alike comes to the same in every way: configuration, files or failure. -/
theorem prepare_eq_of_alike (h : t.Alike u) (ws : Workspace) (resultsDir : String) :
    prepare ws t resultsDir = prepare ws u resultsDir := by
  unfold prepare
  rw [content_eq_of_alike h, nameFor_eq_of_alike h]

end Replay

end InlineImpact
