import InlineImpact.Proofs.Capture.Records
import Mathlib

/-!
A capture as the list of its lines. Blank lines do not matter, every other line gives its record by itself, and
what the records come to is told of them as a list: the rollovers and the iterations are some of them, and the
calls of a key are the sum of those that name it.
-/
namespace InlineImpact.Capture

/-- The lines of a text that are not blank. -/
def filledLines (text : List Char) : List (List Char) :=
  (Text.splitAtEach '\n' text).filter fun line => Text.trim line ≠ []

/-- The file is a text with these lines, and any blank ones between them. -/
def HasLines (ws : Workspace) (path : String) (lines : List (List Char)) : Prop :=
  ∃ bytes text, ws.read path = .ok bytes ∧ Workspace.decode? bytes = some text ∧ filledLines text = lines

section Reading

variable {line : List Char} {lines : List (List Char)} {ws : Workspace} {path : String} {events : Events}

theorem lineStanding_of_blank (h : Text.trim line = []) : lineStanding line = .faulty := by
  rw [lineStanding, h]
  exact lineStanding_nil

theorem completeLines_eq (text : List Char) :
    completeLines text = (filledLines text).filter fun line => lineStanding line = .sound := by
  rw [completeLines, filledLines, List.filter_filter]
  refine List.filter_congr fun line _ => ?_
  by_cases hblank : Text.trim line = []
  · simp [lineStanding_of_blank hblank]
  · simp [hblank]

/-- A file is read line by line, whatever blank lines there are. -/
theorem readEvents_eq_ok_iff_of_lines (h : HasLines ws path lines) : readEvents ws path = .ok events ↔
    (∀ line ∈ lines, lineStanding line ≠ .excessive) ∧ .ofRecords (lines.filterMap recordOf?) = events := by
  obtain ⟨bytes, text, hfile, htext, rfl⟩ := h
  have hrecords : (completeLines text).filterMap recordOf? = (filledLines text).filterMap recordOf? := by
    rw [completeLines_eq, List.filterMap_filter]
    refine List.filterMap_congr fun line _ => ?_
    by_cases hs : lineStanding line = .sound
    · rw [if_pos (decide_eq_true hs)]
    · rw [if_neg (by simpa using hs), recordOf?_of_ne_sound hs]
  have hfilled : (∀ line ∈ Text.splitAtEach '\n' text, lineStanding line ≠ .excessive) ↔
      ∀ line ∈ filledLines text, lineStanding line ≠ .excessive := by
    refine ⟨fun hall line hline => hall line (List.mem_of_mem_filter hline), fun hall line hline => ?_⟩
    by_cases hblank : Text.trim line = []
    · rw [lineStanding_of_blank hblank]
      decide
    · exact hall line (List.mem_filter.2 ⟨hline, decide_eq_true hblank⟩)
  simp only [readEvents_eq_ok_iff hfile htext, readRecords_eq_ok_iff, hrecords, hfilled]
  constructor
  · rintro ⟨rs, ⟨hall, rfl⟩, hevents⟩
    exact ⟨hall, hevents⟩
  · rintro ⟨hall, hevents⟩
    exact ⟨_, ⟨hall, rfl⟩, hevents⟩

end Reading

section Texts

/-- The text of some lines. -/
def joined (lines : List (List Char)) : List Char := lines.flatMap fun line => line ++ ['\n']

theorem hasLines_joined {lines : List (List Char)}
    (h : ∀ line ∈ lines, '\n' ∉ line ∧ '\r' ∉ line ∧ Text.trim line ≠ []) :
    HasLines (captureOf (joined lines)) "/events" lines := by
  have hfilled : filledLines (joined lines) = lines := by
    rw [filledLines, joined, Text.splitAtEach_flatMap fun line hline => (h line hline).1, List.filter_append]
    have hblank : [([] : List Char)].filter (fun line => Text.trim line ≠ []) = [] := rfl
    rw [hblank, List.append_nil]
    exact List.filter_eq_self.2 fun line hline => by simpa using (h line hline).2.2
  refine ⟨_, _, read_captureOf _, decode?_captureOf fun hmem => ?_, hfilled⟩
  obtain ⟨line, hline, hmem⟩ := List.mem_flatMap.1 hmem
  rcases List.mem_append.1 hmem with hmem | hmem
  · exact (h line hline).2.1 hmem
  · simp at hmem

end Texts

section Records

/-- The sum of some counts, if there are any. -/
def sum? (counts : List Int) : Option Int := if counts = [] then none else some counts.sum

theorem sum?_cons (n : Int) (counts : List Int) :
    sum? (n :: counts) = Option.merge (· + ·) (some n) (sum? counts) := by
  by_cases h : counts = [] <;> simp [sum?, h]

theorem sum?_append (counts more : List Int) :
    sum? (counts ++ more) = Option.merge (· + ·) (sum? counts) (sum? more) := by
  by_cases h : counts = [] <;> by_cases h' : more = [] <;> simp [sum?, h, h']

theorem sum?_perm {counts counts' : List Int} (h : counts.Perm counts') : sum? counts = sum? counts' := by
  have hnil : counts = [] ↔ counts' = [] :=
    ⟨fun heq => (heq ▸ h).nil_eq.symm, fun heq => (heq ▸ h).eq_nil⟩
  simp only [sum?, hnil, h.sum_eq]

def Record.rollover? : Record → Option Rollover
  | .rollover r => some r
  | _ => none

def Record.iteration? : Record → Option Iteration
  | .iteration i => some i
  | _ => none

/-- The calls that a record counts for a key. -/
def Record.callsOf? (key : String) : Record → Option Int
  | .calls key' count => if key = key' then some count else none
  | _ => none

/-- What one record after the other adds to the events so far. -/
theorem foldl_add (rs : List Record) (events : Events) :
    (rs.foldl Events.add events).rollovers = (rs.filterMap Record.rollover?).reverse ++ events.rollovers ∧
    (rs.foldl Events.add events).iterations = (rs.filterMap Record.iteration?).reverse ++ events.iterations ∧
    ∀ key, (rs.foldl Events.add events).calls.get? key =
      Option.merge (· + ·) (events.calls.get? key) (sum? (rs.filterMap (Record.callsOf? key))) := by
  induction rs generalizing events with
  | nil => simp [sum?]
  | cons r rs ih =>
    obtain ⟨hrollovers, hiterations, hcalls⟩ := ih (events.add r)
    rw [List.foldl_cons, hrollovers, hiterations]
    simp only [hcalls]
    cases r with
    | rollover r =>
      simp [Events.add, List.filterMap_cons, Record.rollover?, Record.iteration?, Record.callsOf?]
    | iteration i =>
      simp [Events.add, List.filterMap_cons, Record.rollover?, Record.iteration?, Record.callsOf?]
    | calls key' count =>
      refine ⟨rfl, rfl, fun key => ?_⟩
      rw [Events.add, Keyed.get?_put]
      by_cases hkey : key = key'
      · subst hkey
        rw [if_pos rfl, List.filterMap_cons_some (by rw [Record.callsOf?, if_pos rfl]), sum?_cons]
        cases events.calls.get? key <;> cases sum? (rs.filterMap (Record.callsOf? key)) <;>
          simp [add_assoc]
      · rw [if_neg hkey, List.filterMap_cons_none (by rw [Record.callsOf?, if_neg hkey])]

variable (rs : List Record)

theorem rollovers_ofRecords : (Events.ofRecords rs).rollovers = rs.filterMap Record.rollover? := by
  simp [Events.ofRecords, (foldl_add rs {}).1]

theorem iterations_ofRecords : (Events.ofRecords rs).iterations = rs.filterMap Record.iteration? := by
  simp [Events.ofRecords, (foldl_add rs {}).2.1]

theorem get?_calls_ofRecords (key : String) :
    (Events.ofRecords rs).calls.get? key = sum? (rs.filterMap (Record.callsOf? key)) := by
  simp [Events.ofRecords, (foldl_add rs {}).2.2]

end Records

end InlineImpact.Capture
