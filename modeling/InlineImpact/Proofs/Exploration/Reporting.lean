import InlineImpact.Proofs.Exploration.Workable
import InlineImpact.Proofs.Forest.Load
import InlineImpact.Proofs.Replay.Storage

/-!
A host whose runs leave the report of some trees. Every exploration of it finds the forest of the trees
that have their roots for themselves.
-/
namespace InlineImpact.Exploration

/-- Every run counts, and leaves the report of the trees. -/
def Host.reporting (ts : List Tree) : Host Unit where
  probe _ := .ok ()
  run _ _ _ _ ws w := (⟨.ok ⟨100, "/log", "/events", []⟩,
    { ws with entries := ws.entries.put ["log"] (.file (Forest.dumpText ts).toUTF8 false) }, ""⟩, w)
  load _ _ _ w := (.ok { samples := [1.0] }, w)
  poll w := (false, w)

section Reporting

variable {ts : List Tree}

theorem load_of_reporting {ws : Workspace} (hroot : ws.entries.get? [] = some .directory)
    (hts : ∀ t ∈ ts, t.IsShort) :
    Forest.load { ws with entries := ws.entries.put ["log"] (.file (Forest.dumpText ts).toUTF8 false) } "/log" =
      .ok (Forest.regained ts) := by
  refine Forest.load_dumpText (fun t ht => Forest.readable_of_short (hts t ht)) ?_
  generalize hleft : (Workspace.mk ws.here
    (ws.entries.put ["log"] (.file (Forest.dumpText ts).toUTF8 false))) = left
  have hentries : left.entries = ws.entries.put ["log"] (.file (Forest.dumpText ts).toUTF8 false) := by
    rw [← hleft]
  have hplace : left.entries.get? [] = some .directory := by
    rw [hentries, Keyed.get?_put, if_neg (by decide), hroot]
  have hlocate : left.locate "/log" = .ok ["log"] :=
    Workspace.locate_rooted hplace "log" (by decide) (by decide) (by decide)
  simp only [Workspace.read, hlocate, hentries, Keyed.get?_put, if_true]

theorem reporting_behaves (settings : Settings) (hts : ∀ t ∈ ts, t.IsShort) :
    (Host.reporting ts).Behaves settings replayLayout := by
  constructor
  case probe => exact fun _ h => by cases h
  case run_ok =>
    intro verbose b c ws w run hfits hrun
    obtain rfl := Except.ok.inj hrun
    refine ⟨by decide, fun f hf => ?_⟩
    rw [← Except.ok.inj ((load_of_reporting hfits.root hts).symm.trans hf)]
    exact Forest.isShort_regained hts
  case run_error => exact fun _ _ _ _ _ _ _ h => by cases h
  case run_keeps =>
    intro verbose b c ws w hfits
    refine hfits.keeps rfl fun p u hp hne => absurd ?_ hne
    have hother : p ≠ ["log"] := by
      rintro rfl
      cases hp
    rw [Host.reporting, Keyed.get?_put, if_neg hother]
  case load_ok =>
    intro path interval ws w m hm
    obtain rfl := Except.ok.inj hm
    exact fun p hp => by cases hp
  case load_error => exact fun _ _ _ _ _ h => by cases h

end Reporting

end InlineImpact.Exploration
