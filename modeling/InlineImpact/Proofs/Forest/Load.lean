import InlineImpact.Proofs.Forest.RoundTrip
import InlineImpact.Proofs.Text.Utf8
import InlineImpact.Proofs.Workspace

/-!
Loading a report that was written to a file. Its bytes are those of a text whose lines end as they are
expected to, so the file is as good as the text.
-/
namespace InlineImpact

namespace Forest

open Markup

theorem not_mem_dumpText (ts : List Tree) : '\r' ∉ (dumpText ts).toList := by
  have hwritable : (Hedge.node "InlineForest" (methods ts)).Writable :=
    ⟨⟨by decide, by simp⟩, (expected_methods ts).imp fun _ _ h => ⟨h.isPlainName, h.2⟩, trivial⟩
  rw [dumpText_eq, String.toList_ofList, writeDocument, List.mem_append, not_or]
  exact ⟨fun h => return_not_mem_writeHedge hwritable 0 (List.mem_of_mem_drop h), by decide⟩

/-- A report that was written to a file is loaded from there. -/
theorem load_dumpText {ws : Workspace} {path : String} {ts : List Tree} (h : ∀ t ∈ ts, Readable t)
    (hread : ws.read path = .ok (dumpText ts).toUTF8) : load ws path = .ok (regained ts) := by
  rw [load, hread]
  simp only [Text.decodeLossy_toUTF8, Text.unifyLineEnds_of_not_mem (not_mem_dumpText ts), read_dumpText h,
    ofReports_reportOf]
  rfl

/-- A log that can be named is not loaded only for what it holds, or since it is not there. -/
theorem exists_fault_of_load {ws : Workspace} {path : String} {failure : Failure}
    (hnull : '\x00' ∉ path.toList) (h : load ws path = .error failure) :
    ∃ fault, failure = .forest fault := by
  unfold load at h
  split at h
  · rename_i fault hread
    rw [if_neg (Workspace.read_ne_unnameable hnull hread)] at h
    exact ⟨_, (Except.error.inj h).symm⟩
  · generalize read _ = r at h
    cases r with
    | ok f => cases h
    | error fault => exact ⟨fault, (Except.error.inj h).symm⟩

end Forest

end InlineImpact
