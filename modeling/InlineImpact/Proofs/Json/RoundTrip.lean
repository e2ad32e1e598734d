import InlineImpact.Json.Reader
import InlineImpact.Proofs.Text.Hex

/-!
Texts in the written form of a value. Every character is read back from its escape, whether it has one sixteen-bit
unit or two, so an object whose values are texts is read back from what was written, blanks and all.
-/
namespace InlineImpact.Json

section Units

/-- Four digits in base sixteen are read back. -/
theorem unit?_hexWide {n : Nat} (h : n < 0x10000) (rest : List Char) :
    unit? (Text.hexWide 4 n ++ rest) = some (n, rest) := by
  have hwide : Text.hexWide 4 n = List.replicate (4 - (Text.hexDigits n).length) '0' ++ Text.hexDigits n := by
    rw [Text.hexWide]
    exact if_neg (by omega)
  have hlength : (Text.hexWide 4 n).length = 4 := by
    have hshort : (Text.hexDigits n).length ≤ 4 := (Nat.length_toDigits_le_iff (by decide) (by decide)).2 h
    rw [hwide, List.length_append, List.length_replicate]
    omega
  have hdigit : ∀ c ∈ Text.hexWide 4 n, Text.digitIn? 16 c = some ((Text.asciiDigit? c).getD 0) := by
    intro c hc
    obtain ⟨d, hd, rfl⟩ := Text.exists_digitChar_of_mem_filled (hwide ▸ hc)
    exact Text.digitIn?_digitChar hd
  have hvalue : Text.hexValue (Text.hexWide 4 n) = n := by rw [hwide, Text.hexValue_filled]
  generalize Text.hexWide 4 n = ds at hlength hdigit hvalue
  obtain ⟨a, b, c, d, rfl⟩ : ∃ a b c d, ds = [a, b, c, d] := List.length_eq_four.1 hlength
  simp only [List.forall_mem_cons] at hdigit
  obtain ⟨ha, hb, hc, hd, -⟩ := hdigit
  simp [unit?, ha, hb, hc, hd]
  exact hvalue

theorem pairUnits_toNat {c : Char} (h : c.toNat < 0x10000) (rest : List Char) : pairUnits c.toNat rest = (c, rest) := by
  have hvalid : c.toNat < 0xD800 ∨ 0xDFFF < c.toNat ∧ c.toNat < 0x110000 := c.valid
  unfold pairUnits
  rw [if_neg (by omega), if_neg (by omega), Char.ofNat_toNat]

theorem pairUnits_pair {high low : Nat} (hhigh : high < 0x400) (hlow : low < 0x400) (rest : List Char) :
    pairUnits (0xD800 + high) (unitEscape (0xDC00 + low) ++ rest) =
      (Char.ofNat (0x10000 + high * 0x400 + low), rest) := by
  have hunit := unit?_hexWide (show 0xDC00 + low < 0x10000 by omega) rest
  unfold pairUnits
  rw [if_pos (by omega)]
  simp only [unitEscape, List.cons_append, hunit]
  rw [if_pos (by omega), Nat.add_sub_cancel_left, Nat.add_sub_cancel_left]

/-- A character beyond sixteen bits is read back from the two halves of its number. -/
theorem pairUnits_halves {c : Char} (h : 0x10000 ≤ c.toNat) (rest : List Char) :
    pairUnits (0xD800 + (c.toNat - 0x10000) / 0x400)
      (unitEscape (0xDC00 + (c.toNat - 0x10000) % 0x400) ++ rest) = (c, rest) := by
  have hvalid : c.toNat < 0xD800 ∨ 0xDFFF < c.toNat ∧ c.toNat < 0x110000 := c.valid
  have hsum : 0x10000 + (c.toNat - 0x10000) / 0x400 * 0x400 + (c.toNat - 0x10000) % 0x400 = c.toNat := by omega
  rw [pairUnits_pair (by omega) (Nat.mod_lt _ (by decide)), hsum, Char.ofNat_toNat]

end Units

section Strings

variable (read rest : List Char) (fuel : Nat)

theorem readString_unitEscape {n : Nat} (h : n < 0x10000) : readString read (fuel + 1) (unitEscape n ++ rest) =
    readString ((pairUnits n rest).1 :: read) fuel (pairUnits n rest).2 := by
  simp [unitEscape, readString, unit?_hexWide h]

theorem readString_plain {c : Char} (hquote : c ≠ '"') (hmark : c ≠ '\\') (h : 32 ≤ c.toNat) :
    readString read (fuel + 1) (c :: rest) = readString (c :: read) fuel rest := by
  rw [readString.eq_def]
  dsimp only
  rw [if_neg (by simpa using hquote), if_neg (by simpa using hmark), if_neg (by omega)]

/-- A character without a printed form is read back from its units. -/
theorem readString_units (c : Char) : readString read (fuel + 1) ((if c.toNat < 0x10000 then unitEscape c.toNat
      else unitEscape (0xD800 + (c.toNat - 0x10000) / 0x400) ++ unitEscape (0xDC00 + (c.toNat - 0x10000) % 0x400)) ++
        rest) = readString (c :: read) fuel rest := by
  split
  · rename_i h
    rw [readString_unitEscape _ _ _ h, pairUnits_toNat h]
  · rename_i h
    have hvalid : c.toNat < 0xD800 ∨ 0xDFFF < c.toNat ∧ c.toNat < 0x110000 := c.valid
    have hhigh : 0xD800 + (c.toNat - 0x10000) / 0x400 < 0x10000 := by omega
    rw [List.append_assoc, readString_unitEscape _ _ _ hhigh, pairUnits_halves (Nat.not_lt.1 h)]

/-- A character is read back from its escape. -/
theorem readString_escapeChar (c : Char) :
    readString read (fuel + 1) (escapeChar c ++ rest) = readString (c :: read) fuel rest := by
  by_cases hnamed : c ∈ ['"', '\\', '\n', '\r', '\t', Char.ofNat 8, Char.ofNat 12]
  · simp only [List.mem_cons, List.not_mem_nil, or_false] at hnamed
    rcases hnamed with rfl | rfl | rfl | rfl | rfl | rfl | rfl <;> rfl
  · simp only [List.mem_cons, List.not_mem_nil, or_false, not_or] at hnamed
    obtain ⟨hquote, hmark, hline, hreturn, htab, hback, hfeed⟩ := hnamed
    have hcode {n : Nat} (h : c ≠ Char.ofNat n) : (c.toNat == n) = false :=
      beq_eq_false_iff_ne.2 fun heq => h (by rw [← heq, Char.ofNat_toNat])
    simp only [escapeChar, beq_eq_false_iff_ne.2 hquote, beq_eq_false_iff_ne.2 hmark, beq_eq_false_iff_ne.2 hline,
      beq_eq_false_iff_ne.2 hreturn, beq_eq_false_iff_ne.2 htab, hcode hback, hcode hfeed, Bool.false_eq_true, if_false]
    split
    · rename_i h
      exact readString_plain _ _ _ hquote hmark h.1
    · exact readString_units _ _ _ c

/-- A text is read back up to its closing quote. -/
theorem readString_escaped {cs : List Char} (h : cs.length < fuel) :
    readString read fuel (cs.flatMap escapeChar ++ '"' :: rest) = .ok (String.ofList (read.reverse ++ cs), rest) := by
  induction cs generalizing read fuel with
  | nil =>
    obtain ⟨fuel, rfl⟩ := Nat.exists_eq_add_one_of_ne_zero (Nat.ne_of_gt h)
    rw [List.append_nil]
    rfl
  | cons c rest' ih =>
    obtain ⟨fuel, rfl⟩ := Nat.exists_eq_add_one_of_ne_zero (Nat.ne_of_gt (Nat.zero_lt_of_lt h))
    rw [List.flatMap_cons, List.append_assoc, readString_escapeChar, ih _ _ (Nat.lt_of_succ_lt_succ h)]
    simp

theorem escapeChar_ne_nil (c : Char) : escapeChar c ≠ [] := by
  unfold escapeChar
  dsimp only
  repeat' split
  all_goals exact List.cons_ne_nil _ _

theorem length_le_escaped (cs : List Char) : cs.length ≤ (cs.flatMap escapeChar).length := by
  induction cs with
  | nil => exact Nat.le_refl _
  | cons c rest ih =>
    have hc := List.length_pos_iff.2 (escapeChar_ne_nil c)
    rw [List.flatMap_cons, List.length_append, List.length_cons]
    omega

theorem toList_writeString (s : String) :
    (writeString s).toList = '"' :: (s.toList.flatMap escapeChar ++ ['"']) := by
  rw [writeString, String.toList_ofList]

/-- A text is read back behind its opening quote, with as much fuel as there are characters. -/
theorem readString_writeString (s : String) :
    readString [] ((s.toList.flatMap escapeChar ++ '"' :: rest).length + 1)
      (s.toList.flatMap escapeChar ++ '"' :: rest) = .ok (s, rest) := by
  have hshort := length_le_escaped s.toList
  rw [readString_escaped]
  · simp
  · simp only [List.length_append]
    omega

end Strings

section Objects

/-- A style puts nothing but blanks between the parts of a value. -/
structure Style.Blank (style : Style) : Prop where
  newline : ∀ depth, ∀ c ∈ (style.newline depth).toList, isJsonBlank c = true
  afterColon : ∀ c ∈ style.afterColon.toList, isJsonBlank c = true

theorem compact_blank : compact.Blank := ⟨nofun, nofun⟩

theorem indented_blank : indented.Blank := by
  constructor
  case newline =>
    intro depth c hc
    simp only [indented, String.toList_append, String.toList_ofList, List.mem_append, List.mem_replicate] at hc
    rcases hc with hc | ⟨-, rfl⟩
    · rw [List.mem_singleton.1 hc]
      rfl
    · rfl
  case afterColon =>
    intro c hc
    rw [List.mem_singleton.1 hc]
    rfl

theorem skipBlanks_append {gap : List Char} {c : Char} {rest : List Char}
    (hgap : ∀ c ∈ gap, isJsonBlank c = true) (hc : isJsonBlank c = false) :
    skipBlanks (gap ++ c :: rest) = c :: rest := by
  rw [skipBlanks, List.dropWhile_append_of_pos hgap, List.dropWhile_cons_of_neg (by simp [hc])]

/-- Fields with texts for values. -/
def ofTexts (fields : List (String × String)) : List (String × Json) := fields.map fun (n, s) => (n, .string s)

/-- The end of an object, and what stands behind it. -/
def closing (style : Style) (depth : Nat) (rest : List Char) : List Char :=
  (style.newline depth).toList ++ '\x7d' :: rest

theorem writeString_append (s : String) (rest : List Char) : (writeString s).toList ++ rest =
    '"' :: (s.toList.flatMap escapeChar ++ '"' :: rest) := by
  simp [toList_writeString]

theorem readValue_writeString (fuel : Nat) (s : String) (rest : List Char) :
    readValue (fuel + 1) ((writeString s).toList ++ rest) = .ok (.string s, rest) := by
  rw [writeString_append, readValue]
  simp only [readString_writeString]
  rfl

variable {style : Style}

theorem skipBlanks_afterColon (hstyle : style.Blank) (s : String) (rest : List Char) :
    skipBlanks (style.afterColon.toList ++ ((writeString s).toList ++ rest)) = (writeString s).toList ++ rest := by
  rw [writeString_append]
  exact skipBlanks_append hstyle.afterColon rfl

theorem skipBlanks_newline (hstyle : style.Blank) (depth : Nat) (s : String) (rest : List Char) :
    skipBlanks ((style.newline depth).toList ++ ((writeString s).toList ++ rest)) = (writeString s).toList ++ rest := by
  rw [writeString_append]
  exact skipBlanks_append (hstyle.newline depth) rfl

section Field

variable (hstyle : style.Blank) (fuel : Nat) (name text : String) {rest more : List Char}
include hstyle

/-- A field that the end of the object follows. -/
theorem readFields_last (hrest : skipBlanks rest = '\x7d' :: more) :
    readFields (fuel + 2) ((writeString name).toList ++ ':' :: (style.afterColon.toList ++
      ((writeString text).toList ++ rest))) = .ok ([(name, .string text)], more) := by
  have hcolon (after : List Char) : skipBlanks (':' :: after) = ':' :: after := rfl
  rw [writeString_append, readFields]
  simp only [readString_writeString, hcolon, skipBlanks_afterColon hstyle, readValue_writeString, hrest, bind,
    Except.bind, pure, Except.pure]

/-- A field that a comma follows, and then more fields. -/
theorem readFields_more (hrest : skipBlanks rest = ',' :: more) {fields : List (String × Json)} {after : List Char}
    (hmore : readFields (fuel + 1) (skipBlanks more) = .ok (fields, after)) :
    readFields (fuel + 2) ((writeString name).toList ++ ':' :: (style.afterColon.toList ++
      ((writeString text).toList ++ rest))) = .ok ((name, .string text) :: fields, after) := by
  have hcolon (after : List Char) : skipBlanks (':' :: after) = ':' :: after := rfl
  rw [writeString_append, readFields]
  simp only [readString_writeString, hcolon, skipBlanks_afterColon hstyle, readValue_writeString, hrest, hmore, bind,
    Except.bind, pure, Except.pure]

end Field

theorem toList_writeFields_cons (depth : Nat) (name text : String) (fields : List (String × String)) :
    (writeFields style depth (ofTexts ((name, text) :: fields))).toList =
      ',' :: ((style.newline depth).toList ++ ((writeString name).toList ++ ':' :: (style.afterColon.toList ++
        ((writeString text).toList ++ (writeFields style depth (ofTexts fields)).toList)))) := by
  simp [ofTexts, writeFields, writeAt]

/-- Fields are read back up to the end of the object. -/
theorem readFields_write (hstyle : style.Blank) (inner outer : Nat) (rest : List Char) (name text : String)
    {fields : List (String × String)} {fuel : Nat} (h : fields.length + 1 < fuel) :
    readFields fuel ((writeString name).toList ++ ':' :: (style.afterColon.toList ++ ((writeString text).toList ++
      ((writeFields style inner (ofTexts fields)).toList ++ closing style outer rest)))) =
        .ok (ofTexts ((name, text) :: fields), rest) := by
  induction fields generalizing name text fuel with
  | nil =>
    obtain ⟨fuel, rfl⟩ := Nat.exists_eq_add_of_le' (show 2 ≤ fuel by omega)
    exact readFields_last hstyle fuel name text (skipBlanks_append (hstyle.newline outer) rfl)
  | cons field fields ih =>
    obtain ⟨name', text'⟩ := field
    obtain ⟨fuel, rfl⟩ := Nat.exists_eq_add_of_le' (show 2 ≤ fuel by omega)
    have hmore := ih name' text' (Nat.lt_of_succ_lt_succ h)
    rw [← skipBlanks_newline hstyle inner] at hmore
    rw [toList_writeFields_cons]
    simp only [List.append_assoc, List.cons_append]
    exact readFields_more hstyle fuel name text rfl hmore

theorem toList_write_cons (name text : String) (fields : List (String × String)) :
    (write style (.object (ofTexts ((name, text) :: fields)))).toList =
      '\x7b' :: ((style.newline 1).toList ++ ((writeString name).toList ++ ':' :: (style.afterColon.toList ++
        ((writeString text).toList ++ ((writeFields style 1 (ofTexts fields)).toList ++ closing style 0 []))))) := by
  simp [write, ofTexts, writeAt, closing]

theorem length_le_writeFields (depth : Nat) (fields : List (String × String)) :
    fields.length ≤ (writeFields style depth (ofTexts fields)).toList.length := by
  induction fields with
  | nil => exact Nat.zero_le _
  | cons field rest ih =>
    rw [toList_writeFields_cons]
    simp only [List.length_cons, List.length_append]
    omega

theorem readValue_write (hstyle : style.Blank) (name text : String) {fields : List (String × String)} {fuel : Nat}
    (h : fields.length + 1 < fuel) :
    readValue (fuel + 1) (write style (.object (ofTexts ((name, text) :: fields)))).toList =
      .ok (.object (ofTexts ((name, text) :: fields)), []) := by
  have hfields := readFields_write hstyle 1 0 [] name text h
  rw [writeString_append] at hfields
  rw [toList_write_cons, readValue, skipBlanks_newline hstyle, writeString_append]
  change (readFields fuel _ >>= fun found => Except.ok (object found.1, found.2)) = _
  rw [hfields]
  rfl

/-- An object with texts for values is read back. -/
theorem read_write (hstyle : style.Blank) (fields : List (String × String)) :
    read (write style (.object (ofTexts fields))).toList = .ok (.object (ofTexts fields)) := by
  cases fields with
  | nil =>
    have hempty : (write style (.object (ofTexts []))).toList = ['\x7b', '\x7d'] := by
      simp [write, ofTexts, writeAt]
    rw [hempty]
    rfl
  | cons field fields =>
    obtain ⟨name, text⟩ := field
    have hroom : fields.length + 1 <
        2 * (write style (.object (ofTexts ((name, text) :: fields)))).toList.length + 1 := by
      have hbound := @length_le_writeFields style 1 fields
      rw [toList_write_cons]
      simp only [List.length_cons, List.length_append]
      omega
    have hopen : skipBlanks (write style (.object (ofTexts ((name, text) :: fields)))).toList =
        (write style (.object (ofTexts ((name, text) :: fields)))).toList := by
      rw [toList_write_cons]
      rfl
    rw [read, hopen, readValue_write hstyle name text hroom]
    rfl

end Objects

end InlineImpact.Json
