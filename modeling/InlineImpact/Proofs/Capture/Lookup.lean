import InlineImpact.Proofs.Capture.Aggregate
import InlineImpact.Proofs.Capture.Lines
import InlineImpact.Proofs.MethodId
import InlineImpact.Proofs.Text.Spelling
import Mathlib

/-!
Whose calls a measurement counts. A record is kept under the written form of the method that it names, and each
method is looked up under its own written form: the two agree for every spelling of the record, and no two
methods share one. Records that name a hash come first; those with a token alone stand in for them.
-/
namespace InlineImpact.Capture

/-- What the text of a method field names. -/
structure Naming where
  token : Int
  hash : Option Int
  deriving DecidableEq

/-- The written form that stands for a naming. -/
def Naming.key (n : Naming) : String :=
  match n.hash with
  | none => Text.hex8 n.token
  | some hash => MethodId.text ⟨n.token, hash⟩

/-- A token and, after a colon, a hash, each spelled in any way. Nothing after the colon is no hash. -/
inductive Names (s : List Char) : Naming → Prop
  | token {token : List Char} {t : Int} (htext : Text.trim s = token ∨ Text.trim s = token ++ [':'])
    (htoken : Text.SpellsHex token t) : Names s ⟨t, none⟩
  | hashed {token hash : List Char} {t h : Int} (htext : Text.trim s = token ++ ':' :: hash)
    (htoken : Text.SpellsHex token t) (hhash : Text.SpellsHex hash h) : Names s ⟨t, some h⟩

def namingOf? (s : List Char) : Option Naming := do
  let (token, hash) := Text.cutAt ':' (Text.trim s)
  if hash.isEmpty then return ⟨← Text.readHex? token, none⟩
  else return ⟨← Text.readHex? token, some (← Text.readHex? hash)⟩

/-- A complete record of calls. -/
structure Call where
  name : Naming
  count : Int

def callOfRecord? (record : Json) : Option Call :=
  match record.field? "kind" with
  | some (.string "calls") => do
    let name ← namingOf? (methodText (← record.field? "method"))
    let count ← (toInt "count" (← record.field? "count")).toOption
    return ⟨name, count⟩
  | _ => none

/-- The calls that a line counts, if it holds a complete record of them. -/
def callOf? (line : List Char) : Option Call := (Json.read (Text.trim line)).toOption.bind callOfRecord?

/-- The calls of a method: those counted for its token and hash if there are any, and otherwise those counted for
its token alone. -/
def callsOf (calls : List Call) (method : MethodId) : Int :=
  let exact := calls.filter (·.name = ⟨method.token, some method.hash⟩)
  let unhashed := calls.filter (·.name = ⟨method.token, none⟩)
  ((if exact.isEmpty then unhashed else exact).map (·.count)).sum

section Names

variable {s : List Char} {n : Naming}

theorem colon_not_mem {t : Int} (h : Text.SpellsHex s t) : ':' ∉ s :=
  Text.not_mem_of_spellsHex h (by decide) (by decide) (by decide) (by decide)

theorem cutAt_of_not_mem {t : List Char} (h : ':' ∉ t) : Text.cutAt ':' t = (t, []) := by
  have hall : ∀ c ∈ t, (c != ':') = true := fun c hc => bne_iff_ne.2 fun heq => h (heq ▸ hc)
  rw [Text.cutAt, List.takeWhile_eq_self_iff.2 hall, List.dropWhile_eq_nil_iff.2 hall]
  rfl

theorem cutAt_append {t : List Char} (h : ':' ∉ t) (rest : List Char) :
    Text.cutAt ':' (t ++ ':' :: rest) = (t, rest) := by
  have hall : ∀ c ∈ t, (c != ':') = true := fun c hc => bne_iff_ne.2 fun heq => h (heq ▸ hc)
  rw [Text.cutAt, List.takeWhile_append_of_pos hall, List.dropWhile_append_of_pos hall,
    List.takeWhile_cons_of_neg (by simp), List.dropWhile_cons_of_neg (by simp), List.append_nil]
  rfl

/-- What is cut at a colon had one there, or none at all. -/
theorem eq_of_cutAt {t token hash : List Char} (h : Text.cutAt ':' t = (token, hash)) :
    (t = token ∧ hash = []) ∨ t = token ++ ':' :: hash := by
  obtain ⟨rfl, rfl⟩ := Prod.mk.inj h
  have hsplit := List.takeWhile_append_dropWhile (p := fun c => c != ':') (l := t)
  cases hrest : t.dropWhile (· != ':') with
  | nil =>
    rw [hrest, List.append_nil] at hsplit
    exact .inl ⟨hsplit.symm, rfl⟩
  | cons c rest =>
    have hhead := List.head_dropWhile_not (fun c => c != ':') (by rw [hrest]; exact List.cons_ne_nil _ _)
    simp only [hrest, List.head_cons, bne_eq_false_iff_eq] at hhead
    subst hhead
    rw [hrest] at hsplit
    exact .inr hsplit.symm

/-- A text names what is read from it. -/
theorem namingOf?_eq_some_iff : namingOf? s = some n ↔ Names s n := by
  constructor
  · intro h
    rw [namingOf?] at h
    cases hcut : Text.cutAt ':' (Text.trim s) with
    | mk token hash =>
    rw [hcut] at h
    dsimp only at h
    split at h
    · rename_i hempty
      obtain ⟨t, ht, h⟩ := Option.bind_eq_some_iff.1 h
      cases h
      rw [List.isEmpty_iff.1 hempty] at hcut
      exact .token ((eq_of_cutAt hcut).imp_left And.left) (Text.readHex?_eq_some_iff.1 ht)
    · rename_i hempty
      obtain ⟨t, ht, h⟩ := Option.bind_eq_some_iff.1 h
      obtain ⟨k, hk, h⟩ := Option.bind_eq_some_iff.1 h
      cases h
      have htext := (eq_of_cutAt hcut).resolve_left fun h => hempty (List.isEmpty_iff.2 h.2)
      exact .hashed htext (Text.readHex?_eq_some_iff.1 ht) (Text.readHex?_eq_some_iff.1 hk)
  · rintro (⟨htext | htext, htoken⟩ | ⟨htext, htoken, hhash⟩)
    · rw [namingOf?, htext, cutAt_of_not_mem (colon_not_mem htoken)]
      simp [Text.readHex?_eq_some_iff.2 htoken]
    · rw [namingOf?, htext, cutAt_append (colon_not_mem htoken)]
      simp [Text.readHex?_eq_some_iff.2 htoken]
    · rw [namingOf?, htext, cutAt_append (colon_not_mem htoken)]
      simp [Text.readHex?_eq_some_iff.2 htoken, Text.readHex?_eq_some_iff.2 hhash,
        Text.ne_nil_of_spellsHex hhash]

theorem methodKey?_eq (s : List Char) : methodKey? s = (namingOf? s).map Naming.key := by
  rw [methodKey?, namingOf?]
  obtain ⟨token, hash⟩ := Text.cutAt ':' (Text.trim s)
  dsimp only
  by_cases hempty : hash.isEmpty = true
  · rw [if_pos hempty, if_pos hempty]
    cases Text.readHex? token <;> rfl
  · rw [if_neg hempty, if_neg hempty]
    cases Text.readHex? token with
    | none => rfl
    | some t => cases Text.readHex? hash <;> rfl

/-- No two namings are written in the same way. -/
theorem key_injective : Function.Injective Naming.key := by
  have hcolon (k : Int) : ':' ∉ (Text.hex8 k).toList := Text.not_mem_hex8 (by decide) (by decide)
  have htext (m : MethodId) (k : Int) : m.text ≠ Text.hex8 k := fun h => by
    refine hcolon k (h ▸ ?_)
    simp [MethodId.text]
  rintro ⟨t, _ | h⟩ ⟨t', _ | h'⟩ heq
  · obtain rfl : t = t' := Text.hex8_injective heq
    rfl
  · exact absurd heq.symm (htext _ _)
  · exact absurd heq (htext _ _)
  · cases MethodId.text_injective heq
    rfl

end Names

section Lines

variable {record : Json}

theorem recordOf?_eq (line : List Char) : recordOf? line =
    (Json.read (Text.trim line)).toOption.bind fun record => (readRecord record).toOption.join := by
  rw [recordOf?, readLine]
  cases Json.read (Text.trim line) with
  | error fault => cases fault <;> rfl
  | ok record =>
    dsimp only
    rw [Except.toOption, Option.bind_some]
    cases readRecord record with
    | ok r => rfl
    | error e =>
      dsimp only
      split <;> rfl

/-- What a record of calls is read as. -/
theorem toOption_readCalls (h : record.field? "kind" = some (.string "calls")) :
    (readCalls record).toOption = (callOfRecord? record).map fun c => .calls c.name.key c.count := by
  rw [readCalls, callOfRecord?, h, required, required]
  cases record.field? "method" with
  | none => rfl
  | some v =>
    dsimp only [bind, Except.bind, Option.bind]
    rw [methodKey?_eq]
    cases namingOf? (methodText v) with
    | none => rfl
    | some n =>
      cases record.field? "count" with
      | none => rfl
      | some count =>
        dsimp only [Option.map_some, Except.bind]
        cases toInt "count" count <;> rfl

/-- Only records of calls count calls. -/
theorem callsOf?_readRecord (key : String) (h : record.field? "kind" ≠ some (.string "calls")) :
    (readRecord record).toOption.join.bind (Record.callsOf? key) = none := by
  rw [readRecord]
  split
  · cases readRollover record <;> rfl
  · cases readIteration record <;> rfl
  · exact absurd ‹_› h
  · rfl

/-- What a line adds to the calls of a key. -/
theorem callsOf?_recordOf? (key : String) (line : List Char) :
    (recordOf? line).bind (Record.callsOf? key) =
      (callOf? line).bind fun c => if key = c.name.key then some c.count else none := by
  rw [recordOf?_eq, callOf?]
  cases (Json.read (Text.trim line)).toOption with
  | none => rfl
  | some record =>
    rw [Option.bind_some, Option.bind_some]
    by_cases h : record.field? "kind" = some (.string "calls")
    · have hread : (readRecord record).toOption.join = (readCalls record).toOption := by
        have hrecord : readRecord record = (readCalls record).map some := by simp [readRecord, h]
        rw [hrecord]
        cases readCalls record <;> rfl
      rw [hread, toOption_readCalls h]
      cases callOfRecord? record <;> rfl
    · rw [callsOf?_readRecord key h, callOfRecord?]
      split
      · exact absurd ‹_› h
      · rfl

variable {lines : List (List Char)}

/-- The calls of a key are those of the naming that it is written for. -/
theorem get?_calls (n : Naming) : (Events.ofRecords (lines.filterMap recordOf?)).calls.get? n.key =
    sum? (((lines.filterMap callOf?).filter (·.name = n)).map (·.count)) := by
  have hcalls (calls : List Call) :
      calls.filterMap (fun c => if n.key = c.name.key then some c.count else none) =
        (calls.filter (·.name = n)).map (·.count) := by
    induction calls with
    | nil => rfl
    | cons c calls ih =>
      by_cases hc : c.name = n
      · rw [List.filterMap_cons_some (by rw [if_pos (by rw [hc])]), List.filter_cons_of_pos (by simpa using hc), ih,
          List.map_cons]
      · have hkey : n.key ≠ c.name.key := fun h => hc (key_injective h).symm
        rw [List.filterMap_cons_none (by rw [if_neg hkey]), List.filter_cons_of_neg (by simpa using hc), ih]
  rw [get?_calls_ofRecords, List.filterMap_filterMap]
  simp only [callsOf?_recordOf?]
  rw [← List.filterMap_filterMap, hcalls]

/-- A method's calls are told by the namings of the records alone. -/
theorem calls_eq_callsOf {m : Measurement} (h : m.callCounts = (Events.ofRecords (lines.filterMap recordOf?)).calls)
    (method : MethodId) : m.calls (some method) = callsOf (lines.filterMap callOf?) method := by
  have hexact : m.callCounts.get? method.text = _ := h ▸ get?_calls ⟨method.token, some method.hash⟩
  have hunhashed : m.callCounts.get? method.tokenText = _ := h ▸ get?_calls ⟨method.token, none⟩
  show (m.callCounts.get? method.text <|> m.callCounts.get? method.tokenText).getD 0 = _
  rw [hexact, hunhashed, callsOf]
  cases (lines.filterMap callOf?).filter (·.name = ⟨method.token, some method.hash⟩) with
  | cons c exact => rfl
  | nil =>
    cases (lines.filterMap callOf?).filter (·.name = ⟨method.token, none⟩) with
    | nil => rfl
    | cons c unhashed => rfl

end Lines

/-- A capture that is read is also measured, unless a count of a process with iterations does not fit into
sixty-four bits or the interval is absurd. The calls of a method are then the sum over the records that name its
token and hash, or if there are none, over those that name its token alone, however they are spelled. -/
theorem calls_of_load {ws : Workspace} {path : String} {lines : List (List Char)} {events : Events} {interval : Int}
    (hlines : HasLines ws path lines) (hread : readEvents ws path = .ok events) :
    (interval.natAbs < 2 ^ 960 → ((∃ m, load ws path interval = .ok m) ↔ ∀ i ∈ events.iterations,
      ∀ r ∈ events.rollovers, r.process = i.process → (fitsSigned r.count || fitsUnsigned r.count) = true)) ∧
    (∀ m, load ws path interval = .ok m → ∀ method : MethodId,
      m.calls (some method) = callsOf (lines.filterMap callOf?) method) ∧
    ∀ s n, namingOf? s = some n ↔ Names s n := by
  rw [load_of_readEvents hread]
  refine ⟨exists_aggregate_iff, fun m hm method => calls_eq_callsOf ?_ method, fun _ _ => namingOf?_eq_some_iff⟩
  rw [callCounts_of_aggregate hm, ((readEvents_eq_ok_iff_of_lines hlines).1 hread).2]

/-- Two spellings of a token and a hash, the token alone, and another hash. -/
def spelled : List (List Char) :=
  ["\x7b\"kind\": \"calls\", \"method\": \"0X_1a:+2\", \"count\": 5\x7d",
    "\x7b\"kind\": \"calls\", \"method\": \" 1A : 0_2\", \"count\": 3\x7d",
    "\x7b\"kind\": \"calls\", \"method\": \"1a:\", \"count\": 7\x7d",
    "\x7b\"kind\": \"calls\", \"method\": \"1a:-2\", \"count\": 4\x7d"].map String.toList

/-- An iteration, a rollover with more than sixty-four bits, and the calls of a method. -/
def crowded : List (List Char) :=
  ["\x7b\"kind\": \"iteration\", \"start\": 0, \"end\": 2\x7d",
    "\x7b\"kind\": \"pmc\", \"ts\": 1, \"count\": 18446744073709551616\x7d",
    "\x7b\"kind\": \"calls\", \"method\": \"1\", \"count\": 5\x7d"].map String.toList

theorem calls_spelled : ∃ m, load (captureOf (joined spelled)) "/events" 1000 = .ok m ∧
    m.calls (some ⟨26, 2⟩) = 8 ∧ m.calls (some ⟨26, 3⟩) = 7 := by
  have hlines : HasLines (captureOf (joined spelled)) "/events" spelled := hasLines_joined (by decide +kernel)
  have hread := (readEvents_eq_ok_iff_of_lines hlines).2 ⟨by decide +kernel, rfl⟩
  have hfits : (1000 : Int).natAbs < 2 ^ 960 := by decide +kernel
  obtain ⟨hload, hcalls, -⟩ := calls_of_load hlines hread
  obtain ⟨m, hm⟩ := (hload hfits).2 (by decide +kernel)
  refine ⟨m, hm, (hcalls m hm _).trans ?_, (hcalls m hm _).trans ?_⟩
  all_goals decide +kernel

/-- Not every capture that is read is measured: the calls in it are lost with a count that is too large. -/
theorem exists_calls_not_loaded : ¬∀ (ws : Workspace) (path : String) (lines : List (List Char)) (events : Events)
    (interval : Int) (method : MethodId), HasLines ws path lines → readEvents ws path = .ok events →
      ∃ m, load ws path interval = .ok m ∧
        m.calls (some method) = callsOf (lines.filterMap callOf?) method := by
  intro hall
  have hlines : HasLines (captureOf (joined crowded)) "/events" crowded := hasLines_joined (by decide +kernel)
  have hread := (readEvents_eq_ok_iff_of_lines hlines).2 ⟨by decide +kernel, rfl⟩
  obtain ⟨m, hm, -⟩ := hall _ _ _ _ 1 ⟨1, 0⟩ hlines hread
  have hfits := (exists_aggregate_iff (by decide +kernel)).1 ⟨m, (load_of_readEvents hread).symm.trans hm⟩
  revert hfits
  decide +kernel

end InlineImpact.Capture
