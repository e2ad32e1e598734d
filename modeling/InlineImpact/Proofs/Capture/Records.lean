import InlineImpact.Capture
import InlineImpact.Proofs.Decimal.Range
import InlineImpact.Proofs.Outcome
import InlineImpact.Proofs.Text.Lines
import InlineImpact.Proofs.Text.Utf8
import InlineImpact.Proofs.Workspace

/-!
What each line of a capture comes to. A line holds a complete record, or it is dropped and leaves no
trace, or a number in it is too large for its type and the whole capture is lost. The first field of a
record that is not sound decides.
-/
namespace InlineImpact.Capture

/-- What a field, a record or a line comes to. -/
inductive Standing where
  | sound
  /-- The record is dropped. -/
  | faulty
  /-- The capture is lost. -/
  | excessive
  deriving DecidableEq

namespace Standing

/-- The first standing that is not sound decides. -/
def andThen : Standing → Standing → Standing
  | sound, s => s
  | s, _ => s

end Standing

/-- What a field is read as. -/
inductive Role where
  | time
  | number
  | method

/-- A time is a number or the text of one, and no integer beyond the range of doubles; a number has an integer
part; a method is named by one or two numerals in base sixteen. -/
def Role.standing : Role → Json → Standing
  | .time, .int n => if (Decimal.floatOfInt? n).isSome then .sound else .excessive
  | .time, .float _ => .sound
  | .time, .bool _ => .sound
  | .time, .string s => if (Text.readFloat? s.toList).isSome then .sound else .faulty
  | .number, .int _ => .sound
  | .number, .float x =>
    if (Decimal.truncate? x).isSome then .sound else if x.isNaN then .faulty else .excessive
  | .number, .bool _ => .sound
  | .number, .string s => if (Text.readInt? s.toList).isSome then .sound else .faulty
  | .method, v => if (methodKey? (methodText v)).isSome then .sound else .faulty
  | _, _ => .faulty

structure Field where
  name : String
  role : Role
  /-- The field may not be left out. -/
  needed : Bool := true

def Field.standing (f : Field) (record : Json) : Standing :=
  match record.field? f.name with
  | some v => f.role.standing v
  | none => if f.needed then .faulty else .sound

/-- The fields of each kind of record, in the order in which they are read. -/
def fieldsOf? (record : Json) : Option (List Field) :=
  match record.field? "kind" with
  | some (.string "pmc") => some [⟨"ts", .time, true⟩, ⟨"pid", .number, false⟩, ⟨"count", .number, false⟩]
  | some (.string "iteration") => some [⟨"start", .time, true⟩, ⟨"end", .time, true⟩, ⟨"pid", .number, false⟩]
  | some (.string "calls") => some [⟨"method", .method, true⟩, ⟨"count", .number, true⟩]
  | _ => none

def standingOfFields (fields : List Field) (record : Json) : Standing :=
  (fields.map (·.standing record)).foldr Standing.andThen .sound

/-- What a value on a line comes to. What is no record of a known kind is dropped. -/
def recordStanding (record : Json) : Standing :=
  match fieldsOf? record with
  | none => .faulty
  | some fields => standingOfFields fields record

def lineStanding (line : List Char) : Standing :=
  match Json.read (Text.trim line) with
  | .error .malformed => .faulty
  | .error .tooManyDigits => .excessive
  | .ok record => recordStanding record

/-- A computation ends as a standing tells. -/
def Standing.Tells {α : Type} (s : Standing) (outcome : Except Failure α) : Prop :=
  match s with
  | sound => ∃ a, outcome = .ok a
  | faulty => ∃ e, outcome = .error e ∧ isContained e = true
  | excessive => ∃ e, outcome = .error e ∧ isContained e = false

section Fields

variable {α β : Type} {s s' : Standing} {x : Except Failure α} {record : Json}

theorem Standing.Tells.bind {f : α → Except Failure β} (h : s.Tells x)
    (hnext : ∀ a, x = .ok a → s'.Tells (f a)) : (s.andThen s').Tells (x >>= f) := by
  cases s with
  | sound =>
    obtain ⟨a, rfl⟩ := h
    exact hnext a rfl
  | faulty =>
    obtain ⟨e, rfl, he⟩ := h
    exact ⟨e, rfl, he⟩
  | excessive =>
    obtain ⟨e, rfl, he⟩ := h
    exact ⟨e, rfl, he⟩

theorem tells_toFloat (what : String) (v : Json) : (Role.standing .time v).Tells (toFloat what v) := by
  cases v with
  | null => exact ⟨_, rfl, rfl⟩
  | bool b => exact ⟨_, rfl⟩
  | int n =>
    rw [Role.standing, toFloat]
    cases Decimal.floatOfInt? n with
    | none => exact ⟨_, rfl, rfl⟩
    | some x => exact ⟨x, rfl⟩
  | float x => exact ⟨x, rfl⟩
  | string s =>
    rw [Role.standing, toFloat]
    cases Text.readFloat? s.toList with
    | none => exact ⟨_, rfl, rfl⟩
    | some x => exact ⟨x, rfl⟩
  | array items => exact ⟨_, rfl, rfl⟩
  | object fields => exact ⟨_, rfl, rfl⟩

theorem tells_toInt (what : String) (v : Json) : (Role.standing .number v).Tells (toInt what v) := by
  cases v with
  | null => exact ⟨_, rfl, rfl⟩
  | bool b => exact ⟨_, rfl⟩
  | int n => exact ⟨n, rfl⟩
  | float x =>
    rw [Role.standing, toInt]
    cases Decimal.truncate? x with
    | none =>
      cases x.isNaN with
      | true => exact ⟨_, rfl, rfl⟩
      | false => exact ⟨_, rfl, rfl⟩
    | some n => exact ⟨n, rfl⟩
  | string s =>
    rw [Role.standing, toInt]
    cases Text.readInt? s.toList with
    | none => exact ⟨_, rfl, rfl⟩
    | some n => exact ⟨n, rfl⟩
  | array items => exact ⟨_, rfl, rfl⟩
  | object fields => exact ⟨_, rfl, rfl⟩

/-- The written form of the method that a field names. -/
def toMethodKey (v : Json) : Except Failure String :=
  match methodKey? (methodText v) with
  | none => .error (.badValue "method")
  | some key => .ok key

theorem tells_toMethodKey (v : Json) : (Role.standing .method v).Tells (toMethodKey v) := by
  rw [Role.standing, toMethodKey]
  cases methodKey? (methodText v) with
  | none => exact ⟨_, rfl, rfl⟩
  | some key => exact ⟨key, rfl⟩

theorem tells_required {name : String} {role : Role} {read : Json → Except Failure α}
    (h : ∀ v, (role.standing v).Tells (read v)) :
    (Field.standing ⟨name, role, true⟩ record).Tells (required record name >>= read) := by
  rw [Field.standing, required]
  cases record.field? name with
  | none => exact ⟨_, rfl, rfl⟩
  | some v => exact h v

theorem tells_optional (name : String) (value : Int) :
    (Field.standing ⟨name, .number, false⟩ record).Tells (toInt name (optional record name value)) := by
  rw [Field.standing, optional]
  cases record.field? name with
  | none => exact ⟨value, rfl⟩
  | some v => exact tells_toInt name v

theorem tells_pure (a : α) : Standing.sound.Tells (pure a : Except Failure α) := ⟨a, rfl⟩

theorem Standing.Tells.map (f : α → β) (h : s.Tells x) : s.Tells (x.map f) := by
  cases s with
  | sound =>
    obtain ⟨a, rfl⟩ := h
    exact ⟨f a, rfl⟩
  | faulty =>
    obtain ⟨e, rfl, he⟩ := h
    exact ⟨e, rfl, he⟩
  | excessive =>
    obtain ⟨e, rfl, he⟩ := h
    exact ⟨e, rfl, he⟩

end Fields

section Kinds

variable {record : Json}

theorem tells_readRollover :
    (standingOfFields [⟨"ts", .time, true⟩, ⟨"pid", .number, false⟩, ⟨"count", .number, false⟩] record).Tells
      (readRollover record) := by
  have hread : readRollover record = ((required record "ts" >>= toFloat "ts") >>= fun time =>
      toInt "pid" (optional record "pid" 0) >>= fun process =>
      toInt "count" (optional record "count" 1) >>= fun count => pure ⟨time, process, count⟩) := by
    rw [bind_assoc]
    rfl
  rw [hread]
  refine (tells_required (tells_toFloat "ts")).bind fun time _ => ?_
  refine (tells_optional "pid" 0).bind fun process _ => ?_
  exact (tells_optional "count" 1).bind fun count _ => tells_pure _

theorem tells_readIteration :
    (standingOfFields [⟨"start", .time, true⟩, ⟨"end", .time, true⟩, ⟨"pid", .number, false⟩] record).Tells
      (readIteration record) := by
  have hread : readIteration record = ((required record "start" >>= toFloat "start") >>= fun start =>
      (required record "end" >>= toFloat "end") >>= fun finish =>
      toInt "pid" (optional record "pid" 0) >>= fun process => pure ⟨start, finish, process⟩) := by
    simp only [bind_assoc]
    rfl
  rw [hread]
  refine (tells_required (tells_toFloat "start")).bind fun start _ => ?_
  refine (tells_required (tells_toFloat "end")).bind fun finish _ => ?_
  exact (tells_optional "pid" 0).bind fun process _ => tells_pure _

theorem tells_readCalls :
    (standingOfFields [⟨"method", .method, true⟩, ⟨"count", .number, true⟩] record).Tells (readCalls record) := by
  have hread : readCalls record = ((required record "method" >>= toMethodKey) >>= fun key =>
      (required record "count" >>= toInt "count") >>= fun count => pure (.calls key count)) := by
    rw [readCalls]
    cases required record "method" with
    | error e => rfl
    | ok v =>
      show (match methodKey? (methodText v) with
        | none => _
        | some key => _) = toMethodKey v >>= _
      rw [toMethodKey]
      cases methodKey? (methodText v) with
      | none => rfl
      | some key =>
        simp only [bind_assoc]
        rfl
  rw [hread]
  refine (tells_required tells_toMethodKey).bind fun key _ => ?_
  exact (tells_required (tells_toInt "count")).bind fun count _ => tells_pure _

/-- A record of a known kind is read as its fields tell; anything else is none. -/
theorem readRecord_eq (record : Json) : match fieldsOf? record with
    | none => readRecord record = .ok none
    | some fields => ∃ x : Except Failure Record, readRecord record = x.map some ∧
        (standingOfFields fields record).Tells x := by
  by_cases hpmc : record.field? "kind" = some (.string "pmc")
  · simp only [fieldsOf?, readRecord, hpmc]
    refine ⟨(readRollover record).map .rollover, ?_, tells_readRollover.map _⟩
    cases readRollover record <;> rfl
  by_cases hiteration : record.field? "kind" = some (.string "iteration")
  · simp only [fieldsOf?, readRecord, hiteration]
    refine ⟨(readIteration record).map .iteration, ?_, tells_readIteration.map _⟩
    cases readIteration record <;> rfl
  by_cases hcalls : record.field? "kind" = some (.string "calls")
  · simp only [fieldsOf?, readRecord, hcalls]
    exact ⟨readCalls record, rfl, tells_readCalls⟩
  have hfields : fieldsOf? record = none := by
    rw [fieldsOf?]
    split
    · exact absurd ‹_› hpmc
    · exact absurd ‹_› hiteration
    · exact absurd ‹_› hcalls
    · rfl
  rw [hfields]
  dsimp only
  rw [readRecord]
  split
  · exact absurd ‹_› hpmc
  · exact absurd ‹_› hiteration
  · exact absurd ‹_› hcalls
  · rfl

/-- A line with a complete record gives this record, and one that is dropped gives none. -/
theorem readLine_of_standing (line : List Char) :
    match lineStanding line with
    | .sound => ∃ r, readLine line = .ok (some r)
    | .faulty => readLine line = .ok none
    | .excessive => ∃ e, readLine line = .error e := by
  rw [lineStanding, readLine]
  cases Json.read (Text.trim line) with
  | error fault =>
    cases fault with
    | malformed => rfl
    | tooManyDigits => exact ⟨_, rfl⟩
  | ok record =>
    have hrecord := readRecord_eq record
    dsimp only
    rw [recordStanding]
    cases hfields : fieldsOf? record with
    | none =>
      rw [hfields] at hrecord
      dsimp only at hrecord ⊢
      rw [hrecord]
    | some fields =>
      rw [hfields] at hrecord
      obtain ⟨x, hx, htells⟩ := hrecord
      dsimp only
      rw [hx]
      cases hstanding : standingOfFields fields record with
      | sound =>
        rw [hstanding] at htells
        obtain ⟨r, rfl⟩ := htells
        exact ⟨r, rfl⟩
      | faulty =>
        rw [hstanding] at htells
        obtain ⟨e, rfl, he⟩ := htells
        exact if_pos he
      | excessive =>
        rw [hstanding] at htells
        obtain ⟨e, rfl, he⟩ := htells
        exact ⟨e, if_neg (by simp [he])⟩

end Kinds

section Files

/-- The record of a line, if it has a complete one. -/
def recordOf? (line : List Char) : Option Record := (readLine line).toOption.join

section Line

variable {line : List Char}

theorem readLine_of_faulty (h : lineStanding line = .faulty) : readLine line = .ok none := by
  have hread := readLine_of_standing line
  rwa [h] at hread

theorem readLine_of_excessive (h : lineStanding line = .excessive) : ∃ e, readLine line = .error e := by
  have hread := readLine_of_standing line
  rwa [h] at hread

theorem readLine_eq (h : lineStanding line ≠ .excessive) : readLine line = .ok (recordOf? line) := by
  rw [recordOf?]
  cases hs : lineStanding line with
  | sound =>
    have hread := readLine_of_standing line
    rw [hs] at hread
    obtain ⟨r, hr⟩ := hread
    rw [hr]
    rfl
  | faulty =>
    rw [readLine_of_faulty hs]
    rfl
  | excessive => exact absurd hs h

theorem ne_excessive_of_readLine {r : Option Record} (h : readLine line = .ok r) :
    lineStanding line ≠ .excessive := by
  intro hs
  obtain ⟨e, he⟩ := readLine_of_excessive hs
  rw [h] at he
  cases he

theorem recordOf?_of_ne_sound (h : lineStanding line ≠ .sound) : recordOf? line = none := by
  rw [recordOf?]
  cases hs : lineStanding line with
  | sound => exact absurd hs h
  | faulty =>
    rw [readLine_of_faulty hs]
    rfl
  | excessive =>
    obtain ⟨e, he⟩ := readLine_of_excessive hs
    rw [he]
    rfl

end Line

/-- The lines of a text with complete records. -/
def completeLines (text : List Char) : List (List Char) :=
  (Text.splitAtEach '\n' text).filter fun line => lineStanding line = .sound

/-- The text without any other line. -/
def kept (text : List Char) : List Char := (completeLines text).flatMap fun line => line ++ ['\n']

/-- No line has an influence on what the others are read as. -/
theorem readRecords_eq_ok_iff {text : List Char} {rs : List Record} : readRecords text = .ok rs ↔
    (∀ line ∈ Text.splitAtEach '\n' text, lineStanding line ≠ .excessive) ∧
      (completeLines text).filterMap recordOf? = rs := by
  have hcomplete : (completeLines text).filterMap recordOf? =
      (Text.splitAtEach '\n' text).filterMap recordOf? := by
    rw [completeLines, List.filterMap_filter]
    refine List.filterMap_congr fun line _ => ?_
    by_cases hs : lineStanding line = .sound
    · rw [if_pos (decide_eq_true hs)]
    · rw [if_neg (by simpa using hs), recordOf?_of_ne_sound hs]
  have hread (h : ∀ line ∈ Text.splitAtEach '\n' text, lineStanding line ≠ .excessive) :
      readRecords text = .ok ((Text.splitAtEach '\n' text).filterMap recordOf?) := by
    rw [readRecords, mapM_eq_ok fun line hline => readLine_eq (h line hline)]
    show Except.ok (((Text.splitAtEach '\n' text).map recordOf?).filterMap id) = _
    rw [List.filterMap_map]
    rfl
  rw [hcomplete]
  constructor
  · intro h
    obtain ⟨ls, hls, -⟩ := exists_of_bind_eq_ok h
    have hall : ∀ line ∈ Text.splitAtEach '\n' text, lineStanding line ≠ .excessive := fun line hline => by
      obtain ⟨r, -, hr⟩ := exists_of_mapM_eq_ok hls line hline
      exact ne_excessive_of_readLine hr
    exact ⟨hall, Except.ok.inj ((hread hall).symm.trans h)⟩
  · rintro ⟨hall, rfl⟩
    exact hread hall

theorem lineStanding_nil : lineStanding [] = .faulty := by decide +kernel

theorem splitAtEach_kept (text : List Char) :
    Text.splitAtEach '\n' (kept text) = completeLines text ++ [[]] := by
  refine Text.splitAtEach_flatMap fun line hline hmem => ?_
  exact (Text.mem_of_mem_splitAtEach (List.mem_filter.1 hline).1 _ hmem).2 rfl

theorem completeLines_kept (text : List Char) : completeLines (kept text) = completeLines text := by
  rw [completeLines, splitAtEach_kept, List.filter_append, List.filter_cons_of_neg (by simp [lineStanding_nil])]
  simp [completeLines]

theorem readRecords_kept {text : List Char} {rs : List Record} (h : readRecords text = .ok rs) :
    readRecords (kept text) = .ok rs := by
  refine readRecords_eq_ok_iff.2 ⟨fun line hline => ?_, ?_⟩
  · rw [splitAtEach_kept] at hline
    rcases List.mem_append.1 hline with hline | hline
    · exact (readRecords_eq_ok_iff.1 h).1 line (List.mem_filter.1 hline).1
    · rw [List.mem_singleton.1 hline, lineStanding_nil]
      decide
  · rw [completeLines_kept]
    exact (readRecords_eq_ok_iff.1 h).2

theorem readEvents_eq_ok_iff {ws : Workspace} {path : String} {bytes : ByteArray} {text : List Char}
    {events : Events} (hfile : ws.read path = .ok bytes) (htext : Workspace.decode? bytes = some text) :
    readEvents ws path = .ok events ↔ ∃ rs, readRecords text = .ok rs ∧ .ofRecords rs = events := by
  have hread : readEvents ws path = (readRecords text >>= fun rs => pure (.ofRecords rs)) := by
    have hbytes : (ws.read path).mapError Failure.storage = pure bytes := by
      rw [hfile]
      rfl
    rw [readEvents, hbytes, pure_bind, htext]
  rw [hread]
  constructor
  · intro h
    obtain ⟨rs, hrs, h⟩ := exists_of_bind_eq_ok h
    exact ⟨rs, hrs, Except.ok.inj h⟩
  · rintro ⟨rs, hrs, rfl⟩
    rw [hrs]
    rfl

/-- What is kept of a text stays as it is on the way through a file. -/
theorem decode?_kept {bytes : ByteArray} {text : List Char} (htext : Workspace.decode? bytes = some text) :
    Workspace.decode? (String.ofList (kept text)).toUTF8 = some (kept text) := by
  obtain ⟨s, -, rfl⟩ := Option.map_eq_some_iff.1 htext
  rw [Workspace.decode?, Text.fromUTF8?_toUTF8, Option.map_some, String.toList_ofList,
    Text.unifyLineEnds_of_not_mem]
  intro hmem
  obtain ⟨line, hline, hmem⟩ := List.mem_flatMap.1 hmem
  rcases List.mem_append.1 hmem with hmem | hmem
  · exact Text.not_mem_unifyLineEnds _
      (Text.mem_of_mem_splitAtEach (List.mem_filter.1 hline).1 _ hmem).1
  · simp at hmem

end Files

section Excess

/-- An integer beyond the doubles, or an infinity. -/
def IsTooLarge (v : Json) : Prop :=
  (∃ n : Int, v = .int n ∧ 2 ^ 1023 ≤ n.natAbs) ∨
    ∃ x, v = .float x ∧ x.isNaN = false ∧ Decimal.truncate? x = none

theorem isTooLarge_of_role {role : Role} {v : Json} (h : role.standing v = .excessive) : IsTooLarge v := by
  unfold Role.standing at h
  split at h
  case h_1 n =>
    refine .inl ⟨n, rfl, not_lt.1 fun hlt => ?_⟩
    have hsome : Decimal.floatOfInt? n = some (Float.ofInt n) := if_pos (Decimal.isFinite_ofInt hlt)
    rw [hsome] at h
    cases h
  case h_6 x =>
    refine .inr ⟨x, rfl, ?_⟩
    split at h
    · cases h
    · rename_i hnone
      split at h
      · cases h
      · rename_i hnan
        exact ⟨by simpa using hnan, by simpa using hnone⟩
  all_goals first | cases h | (split at h <;> cases h)

theorem exists_field_of_excessive {fields : List Field} {record : Json}
    (h : standingOfFields fields record = .excessive) : ∃ f ∈ fields, f.standing record = .excessive := by
  induction fields with
  | nil => cases h
  | cons f fields ih =>
    cases hf : f.standing record with
    | sound =>
      rw [standingOfFields, List.map_cons, List.foldr_cons, hf] at h
      obtain ⟨g, hg, hexcessive⟩ := ih h
      exact ⟨g, .tail _ hg, hexcessive⟩
    | faulty =>
      rw [standingOfFields, List.map_cons, List.foldr_cons, hf] at h
      cases h
    | excessive => exact ⟨f, .head _, hf⟩

theorem exists_tooLarge {line : List Char} (h : lineStanding line = .excessive) :
    Json.read (Text.trim line) = .error .tooManyDigits ∨
      ∃ record name v, Json.read (Text.trim line) = .ok record ∧ record.field? name = some v ∧ IsTooLarge v := by
  rw [lineStanding] at h
  split at h
  · cases h
  · exact .inl ‹_›
  · rename_i record hrecord
    rw [recordStanding] at h
    split at h
    · cases h
    · obtain ⟨f, -, hf⟩ := exists_field_of_excessive h
      rw [Field.standing] at hf
      split at hf
      · rename_i v hv
        exact .inr ⟨record, f.name, v, hrecord, hv, isTooLarge_of_role hf⟩
      · split at hf <;> cases hf

end Excess

/-- A capture that is text is read unless a line of it has a number that is too large, and then it is read as if
it had only its complete records: a record that is dropped leaves no trace. -/
theorem readEvents_of_text {ws : Workspace} {path : String} {bytes : ByteArray} {text : List Char}
    (hfile : ws.read path = .ok bytes) (htext : Workspace.decode? bytes = some text) :
    ((∃ events, readEvents ws path = .ok events) ↔
      ∀ line ∈ Text.splitAtEach '\n' text, lineStanding line ≠ .excessive) ∧
    (∀ line, lineStanding line = .excessive → Json.read (Text.trim line) = .error .tooManyDigits ∨
      ∃ record name v, Json.read (Text.trim line) = .ok record ∧ record.field? name = some v ∧ IsTooLarge v) ∧
    ∀ events, readEvents ws path = .ok events → ∀ (ws' : Workspace) (path' : String),
      ws'.read path' = .ok (String.ofList (kept text)).toUTF8 → readEvents ws' path' = .ok events := by
  refine ⟨⟨?_, ?_⟩, fun line => exists_tooLarge, ?_⟩
  · rintro ⟨events, hevents⟩
    obtain ⟨rs, hrs, -⟩ := (readEvents_eq_ok_iff hfile htext).1 hevents
    exact (readRecords_eq_ok_iff.1 hrs).1
  · intro hall
    exact ⟨_, (readEvents_eq_ok_iff hfile htext).2 ⟨_, readRecords_eq_ok_iff.2 ⟨hall, rfl⟩, rfl⟩⟩
  · intro events hevents ws' path' hfile'
    obtain ⟨rs, hrs, rfl⟩ := (readEvents_eq_ok_iff hfile htext).1 hevents
    exact (readEvents_eq_ok_iff hfile' (decode?_kept htext)).2 ⟨rs, readRecords_kept hrs, rfl⟩

/-- A capture with this text. -/
def captureOf (text : List Char) : Workspace :=
  .ofFile "events" (String.ofList text).toUTF8

theorem read_captureOf (text : List Char) :
    (captureOf text).read "/events" = .ok (String.ofList text).toUTF8 :=
  Workspace.read_rooted rfl "events" (by decide) (by decide) (by decide) rfl

theorem decode?_captureOf {text : List Char} (h : '\r' ∉ text) :
    Workspace.decode? (String.ofList text).toUTF8 = some text := by
  rw [Workspace.decode?, Text.fromUTF8?_toUTF8, Option.map_some, String.toList_ofList,
    Text.unifyLineEnds_of_not_mem h]

/-- After a complete record, one without a time, one with a count of the wrong kind, and a line that is cut off. -/
def mixed : List Char :=
  ["\x7b\"kind\": \"calls\", ", "\"method\": \"1\", \"count\": 5\x7d\n",
    "\x7b\"kind\": \"pmc\", \"pid\": 3\x7d\n",
    "\x7b\"kind\": \"calls\", ", "\"method\": \"1\", \"count\": null\x7d\n",
    "\x7b\"kind\": \"cal"].flatMap String.toList

theorem readEvents_mixed : ∃ events, readEvents (captureOf mixed) "/events" = .ok events ∧
    readEvents (captureOf (kept mixed)) "/events" = .ok events := by
  obtain ⟨hread, -, hkept⟩ :=
    readEvents_of_text (read_captureOf mixed) (decode?_captureOf (by decide +kernel))
  obtain ⟨events, hevents⟩ := hread.2 (by decide +kernel)
  exact ⟨events, hevents, hkept events hevents _ _ (read_captureOf (kept mixed))⟩

/-- A complete record, and one with a count that is no number of calls. -/
def endless : List Char :=
  ["\x7b\"kind\": \"calls\", ", "\"method\": \"1\", \"count\": 5\x7d\n",
    "\x7b\"kind\": \"calls\", ", "\"method\": \"1\", \"count\": Infinity\x7d\n"].flatMap String.toList

/-- Not every capture that is text is read: one infinite count, and nothing is left of it. -/
theorem exists_text_not_read : ¬∀ (ws : Workspace) (path : String) (bytes : ByteArray) (text : List Char),
    ws.read path = .ok bytes → Workspace.decode? bytes = some text →
      ∃ events, readEvents ws path = .ok events := by
  intro hall
  have htext : Workspace.decode? (String.ofList endless).toUTF8 = some endless :=
    decode?_captureOf (by decide +kernel)
  obtain ⟨events, hevents⟩ := hall _ _ _ endless (read_captureOf endless) htext
  obtain ⟨rs, hrs, -⟩ := (readEvents_eq_ok_iff (read_captureOf endless) htext).1 hevents
  have hexcessive : ∃ line ∈ Text.splitAtEach '\n' endless, lineStanding line = .excessive := by
    decide +kernel
  obtain ⟨line, hline, hs⟩ := hexcessive
  exact (readRecords_eq_ok_iff.1 hrs).1 line hline hs

end InlineImpact.Capture
