import InlineImpact.Proofs.Dataset
import InlineImpact.Proofs.Exploration.Survey
import InlineImpact.Proofs.Exploration.Total
import InlineImpact.Proofs.MethodId
import InlineImpact.Proofs.Tree.Naming

/-!
In which order rows come, and what tells them apart. The rows of an exploration are some of an enumeration
that the surveys give: benchmark after benchmark, in each the roots by descending calls, and for each root
the decisions of its tree in their order. No two places of the enumeration have the same texts, so neither
have two rows.
-/
namespace InlineImpact

open Exploration (Event)
open Dataset (Row Position)
open scoped List

namespace Exploration

open Exploring (Yields)
open Journal

variable {W : Type}

section Order

namespace Survey

variable (v : Survey)

/-- The calls to a root: those that the full model's run counted, or the reported ones if there are none. -/
def calls (root : MethodId) : Int :=
  if v.run.calls (some root) = 0 then ((v.forest.record? root).map (·.callCount)).getD 0
  else v.run.calls (some root)

/-- More calls come first, and among equally many the smaller identity. -/
def Precedes (a b : MethodId) : Prop := v.calls b < v.calls a ∨ (v.calls a = v.calls b ∧ a.Before b)

variable {v}

end Survey

variable {e : Explorer W} {J K : List Event} {v : Survey}

end Order

section Texts

/-- The texts of a place in the three cells that name it. -/
def texts (p : Position) : String × String × String := (p.1, p.2.1.text, p.2.2.text)

variable {e : Explorer W} {J : List Event}

end Texts

section Benchmarks

variable {e : Explorer W} {bs bs' : List Benchmark} {vs vs' : List Survey} {J K : List Event} {b : Benchmark}
  {s t u : Session W}

/-- The rows stand where the surveys of some of the benchmarks have them, in the order of these. -/
structure Explorer.Lists (e : Explorer W) (bs : List Benchmark) (vs : List Survey) (J : List Event) : Prop where
  order : vs.map (·.benchmark) <+ bs
  found : ∀ v ∈ vs, e.Found J v
  rows : (rows J).map Row.position <+ vs.flatMap Survey.positions

namespace Explorer.Lists

theorem append (h : e.Lists bs vs J) (h' : e.Lists bs' vs' K) :
    e.Lists (bs ++ bs') (vs ++ vs') (J ++ K) where
  order := by
    rw [List.map_append]
    exact h.order.append h'.order
  found v hv := (List.mem_append.1 hv).elim (fun hv => found_append (h.found v hv) K)
    fun hv => found_of_append (h'.found v hv) J
  rows := by
    rw [rows_append, List.map_append, List.flatMap_append]
    exact h.rows.append h'.rows

/-- Events without a row. -/
theorem of_silent (bs : List Benchmark) (h : Journal.rows J = []) : e.Lists bs [] J where
  order := List.nil_sublist _
  found := by simp
  rows := by simp [h]

end Explorer.Lists

/-- Between the sessions, rows were handed out that stand where surveys of some of the benchmarks have
them. -/
def Explorer.Listed (e : Explorer W) (bs : List Benchmark) (s t : Session W) : Prop :=
  ∃ vs J, t.journal = s.journal ++ J ∧ e.Lists bs vs J

theorem Explorer.Listed.append (h : e.Listed bs s t) (h' : e.Listed bs' t u) : e.Listed (bs ++ bs') s u := by
  obtain ⟨vs, J, ht, hJ⟩ := h
  obtain ⟨vs', K, hu, hK⟩ := h'
  exact ⟨vs ++ vs', J ++ K, by rw [hu, ht, List.append_assoc], hJ.append hK⟩

end Benchmarks

end Exploration

end InlineImpact
