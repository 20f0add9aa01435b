import SpectrumBasic.Proofs.NumberMarkers

/-!
# The numbers found in a line

A record finds its hidden numbers by their markers, and for the literal of a number it takes all the
digits and points in front of the marker. The tokenizer may have taken fewer: the end of a run that is
no number as a whole can be one, and what is left over from the run then stands in front of it. So each
number of a statement is a `StoredNumber` with its `leftover`, and a record finds just these
(`LineRecord.hiddenNumbers_of_payloadOf`), as long as no marker is forged.
-/

namespace SpectrumBasic

/-! ## Runs of digits and points -/

namespace Literal

/-- The digits and points that end a text, last one first, after one character more. -/
def extend (run : Text) (c : Char) : Text := if isLiteralChar c then c :: run else []

/-- Digits and points make a run longer. -/
theorem foldl_extend {literal : Text} (h : ∀ c ∈ literal, isLiteralChar c = true) (run : Text) :
    literal.foldl extend run = literal.reverse ++ run := by
  induction literal generalizing run with
  | nil => rfl
  | cons c literal ih =>
    rw [List.forall_mem_cons] at h
    rw [List.foldl_cons, ih h.2, extend, if_pos h.1, List.reverse_cons, List.append_assoc]
    rfl

theorem foldl_extend_concat {c : Char} (hc : isLiteralChar c = false) (text run : Text) :
    (text ++ [c]).foldl extend run = [] := by
  rw [List.foldl_append, List.foldl_cons, List.foldl_nil, extend, hc]
  rfl

end Literal

/-! ## Looking for markers -/

namespace LineRecord

/-- A line ends within a hidden number exactly if bytes of one are still to come. -/
theorem cutIn_eq_due (bytes : Bytes) : cutIn bytes = decide (Hidden.due 0 bytes ≠ 0) := by
  fun_induction cutIn bytes with
  | case1 => rfl
  | case2 rest ih =>
    rw [Hidden.due_marker_cons]
    by_cases hcut : (rest.take Hidden.size).length < Hidden.size
    · have hshort : rest.length < Hidden.size := by
        rw [List.length_take] at hcut
        omega
      have hdue : Hidden.due Hidden.size rest ≠ 0 := by
        rw [Hidden.due_of_length_le (Nat.le_of_lt hshort)]
        omega
      rw [decide_eq_true hcut, decide_eq_true hdue, Bool.true_or]
    · have hfull : (rest.take Hidden.size).length = Hidden.size := by
        rw [List.length_take] at hcut ⊢
        omega
      have hdue : Hidden.due Hidden.size rest = Hidden.due 0 (rest.drop Hidden.size) := by
        conv => lhs; rw [← List.take_append_drop Hidden.size rest]
        rw [Hidden.due_append, Hidden.due_of_length_le (Nat.le_of_eq hfull), hfull, Nat.sub_self]
      rw [hdue, ih, decide_eq_false hcut, Bool.false_or]
  | case3 b rest hb ih =>
    rw [ih]
    show _ = decide (Hidden.due (if b = Hidden.marker then _ else 0) rest ≠ 0)
    rw [if_neg hb]

@[simp] theorem hiddenIn_nil (run : Text) : hiddenIn run [] = [] := by
  rw [hiddenIn]

/-- A character is passed, and it makes the run longer or ends it. -/
theorem hiddenIn_charByte {c : Char} (hc : Hidden.markerChar ≠ c) (run : Text) (rest : Bytes) :
    hiddenIn run (charByte c :: rest) = hiddenIn (Literal.extend run c) rest := by
  have hmarker : charByte c ≠ Hidden.marker := fun h =>
    hc (Hidden.charByte_eq_marker_iff.mp h).symm
  rw [hiddenIn, if_neg hmarker, isLiteralByte_charByte, Literal.extend]
  split
  · rename_i hliteral
    have hbounds := bounds_of_isLiteralChar hliteral
    rw [toNat_charByte, if_pos (by omega), Char.ofNat_toNat]
  · rfl

/-- So is text. -/
theorem hiddenIn_textBytes {text : Text} (htext : Hidden.markerChar ∉ text) (run : Text)
    (rest : Bytes) :
    hiddenIn run (textBytes text ++ rest) = hiddenIn (text.foldl Literal.extend run) rest := by
  induction text generalizing run with
  | nil => rfl
  | cons c text ih =>
    rw [List.mem_cons, not_or] at htext
    show hiddenIn run (charByte c :: (textBytes text ++ rest)) = _
    rw [hiddenIn_charByte htext.1, ih htext.2, List.foldl_cons]

theorem hiddenIn_code {code : UInt8} (hcode : Keyword.firstCode ≤ code) (run : Text)
    (rest : Bytes) : hiddenIn run (code :: rest) = hiddenIn [] rest := by
  have hmarker : code ≠ Hidden.marker := by
    rintro rfl
    exact absurd hcode (by decide)
  rw [hiddenIn, if_neg hmarker, isLiteralByte_of_firstCode_le hcode]
  rfl

/-- A hidden number is found with the run in front of it. -/
theorem hiddenIn_pack (run : Text) (value : Number) (rest : Bytes) :
    hiddenIn run (Hidden.marker :: (Hidden.pack value ++ rest)) =
      (run.reverse, Hidden.ofBytes? (Hidden.pack value)) :: hiddenIn [] rest := by
  have hsize := Hidden.length_pack value
  rw [hiddenIn, if_pos rfl, List.take_left' hsize, List.drop_left' hsize]
  simp only [hsize, Nat.lt_irrefl, if_false]

end LineRecord

/-! ## Stored numbers -/

/-- A number in a line. -/
structure StoredNumber where
  /-- The digits and points that are left over from a broken run, right in front of the literal. -/
  leftover : Text
  literal : Text
  value : Number
  deriving DecidableEq, Repr

/-- What a record finds of a number: everything in front of the marker, and the value behind it. -/
def StoredNumber.found (stored : StoredNumber) : Text × Option Int :=
  (stored.leftover ++ stored.literal, Hidden.ofBytes? (Hidden.pack stored.value))

namespace Lexeme

/-- The literal and the value of a number. -/
def number? : Lexeme → Option (Text × Number)
  | number literal value => some (literal, value)
  | _ => none

/-- The number in a lexeme; `run` holds the digits and points in front of it, last one first. -/
def stored? (run : Text) : Lexeme → Option StoredNumber
  | number literal value => some ⟨run.reverse, literal, value⟩
  | _ => none

/-- The digits and points that end the bytes of a lexeme and those before it, which end in `run`. -/
def endRun (run : Text) : Lexeme → Text
  | quoted text | comment text => text.foldl Literal.extend run
  | number .. | keyword .. => []
  | remark _ text => text.foldl Literal.extend []
  | character c => Literal.extend run c
  | brokenRun _ | blankSpelling => run

end Lexeme

/-- The numbers among lexemes, in order. -/
def storedNumbers (run : Text) : List Lexeme → List StoredNumber
  | [] => []
  | lexeme :: later => (lexeme.stored? run).toList ++ storedNumbers (lexeme.endRun run) later

/-- The literals and values are those that were read. -/
theorem map_storedNumbers (run : Text) (lexemes : List Lexeme) :
    (storedNumbers run lexemes).map (fun stored => (stored.literal, stored.value)) =
      lexemes.filterMap Lexeme.number? := by
  induction lexemes generalizing run with
  | nil => rfl
  | cons lexeme later ih =>
    rw [storedNumbers, List.map_append, ih]
    cases lexeme <;> rfl

/-- The value of a stored number is that of its literal. -/
theorem value?_of_mem_storedNumbers {lexemes : List Lexeme}
    (hsound : ∀ lexeme ∈ lexemes, lexeme.Sound) {run : Text} {stored : StoredNumber}
    (h : stored ∈ storedNumbers run lexemes) :
    Literal.value? stored.literal = some stored.value := by
  have hmem : (stored.literal, stored.value) ∈ lexemes.filterMap Lexeme.number? := by
    rw [← map_storedNumbers run lexemes]
    exact List.mem_map_of_mem h
  obtain ⟨lexeme, hlexeme, hnumber⟩ := List.mem_filterMap.mp hmem
  cases lexeme with
  | number literal value =>
    obtain ⟨hliteral, hvalue⟩ := Prod.mk.inj (Option.some.inj hnumber)
    rw [← hliteral, ← hvalue]
    exact hsound _ hlexeme
  | _ => cases hnumber

/-- What is found in the bytes of a lexeme, and then in what follows. -/
theorem Lexeme.hiddenIn_bytes_append {lexeme : Lexeme} (hsound : lexeme.Sound)
    (hforges : lexeme.forges = false) (run : Text) (rest : Bytes) :
    LineRecord.hiddenIn run (lexeme.bytes ++ rest) =
      (lexeme.stored? run).toList.map StoredNumber.found
        ++ LineRecord.hiddenIn (lexeme.endRun run) rest := by
  rw [Bool.eq_false_iff, ne_eq] at hforges
  cases lexeme with
  | quoted text =>
    rw [forges_quoted] at hforges
    exact LineRecord.hiddenIn_textBytes hforges run rest
  | number literal value =>
    -- the literal makes the run longer, and the marker ends it
    have hrun := (Literal.of_value? hsound).1
    rw [bytes, List.append_assoc,
      LineRecord.hiddenIn_textBytes (Literal.markerChar_not_mem hrun), Literal.foldl_extend hrun,
      List.cons_append, LineRecord.hiddenIn_pack, List.reverse_append, List.reverse_reverse]
    rfl
  | brokenRun run' => rfl
  | comment text =>
    rw [forges_comment] at hforges
    exact LineRecord.hiddenIn_textBytes hforges run rest
  | keyword spelling code spaces => exact LineRecord.hiddenIn_code hsound run rest
  | remark spelling text =>
    rw [forges_remark] at hforges
    rw [bytes, List.cons_append, LineRecord.hiddenIn_code (by decide),
      LineRecord.hiddenIn_textBytes hforges]
    rfl
  | character c =>
    rw [forges_character] at hforges
    exact LineRecord.hiddenIn_charByte hforges run rest
  | blankSpelling => rfl

section Lexemes

variable {lexemes : List Lexeme} (hsound : ∀ lexeme ∈ lexemes, lexeme.Sound)
  (hforges : lexemes.any Lexeme.forges = false)

include hsound hforges

/-- The numbers found in the bytes of lexemes are those that were stored. -/
theorem hiddenIn_bytesOf (run : Text) :
    LineRecord.hiddenIn run (bytesOf lexemes) =
      (storedNumbers run lexemes).map StoredNumber.found := by
  induction lexemes generalizing run with
  | nil => exact LineRecord.hiddenIn_nil run
  | cons lexeme later ih =>
    rw [List.forall_mem_cons] at hsound
    rw [List.any_cons, Bool.or_eq_false_iff] at hforges
    rw [bytesOf_cons, Lexeme.hiddenIn_bytes_append hsound.1 hforges.1, ih hsound.2 hforges.2,
      storedNumbers, List.map_append]

theorem due_bytesOf : Hidden.due 0 (bytesOf lexemes) = 0 := by
  induction lexemes with
  | nil => rfl
  | cons lexeme later ih =>
    rw [List.forall_mem_cons] at hsound
    rw [List.any_cons, Bool.or_eq_false_iff] at hforges
    rw [bytesOf_cons, Hidden.due_append, Lexeme.due_bytes hsound.1 hforges.1, ih hsound.2 hforges.2]

end Lexemes

/-! ## Records -/

/-- The lexemes of a statement are sound. -/
theorem sound_scan (text : Text) : ∀ lexeme ∈ scan .standard .start text, lexeme.Sound :=
  (reading_scan Table.consistent_standard .start text).sound

/-- Nothing is forged in a statement without the character that is stored as a marker. -/
theorem any_forges_scan {text : Text} (h : Hidden.markerChar ∉ text) :
    (scan .standard .start text).any Lexeme.forges = false := by
  rw [Bool.eq_false_iff, ne_eq,
    (reading_scan Table.consistent_standard .start text).any_forges_iff]
  exact h

namespace LineRecord

variable {record : LineRecord} {text : Text} (hpayload : record.payload = payloadOf text)

include hpayload

theorem body_of_payloadOf : record.body = bytesOf (scan .standard .start text) := by
  rw [body, hpayload, payloadOf, List.getLast?_concat, if_pos rfl, List.dropLast_concat]

variable (hmarker : Hidden.markerChar ∉ text)

include hmarker

/-- A record finds the numbers of its statement. -/
theorem hiddenNumbers_of_payloadOf :
    record.hiddenNumbers =
      (storedNumbers [] (scan .standard .start text)).map StoredNumber.found := by
  rw [hiddenNumbers, body_of_payloadOf hpayload]
  exact hiddenIn_bytesOf (sound_scan text) (any_forges_scan hmarker) []

theorem hasCutNumber_of_payloadOf : record.hasCutNumber = false := by
  rw [hasCutNumber, body_of_payloadOf hpayload, cutIn_eq_due,
    due_bytesOf (sound_scan text) (any_forges_scan hmarker)]
  rfl

end LineRecord

/-- **Only the marker character forges markers.** Every statement has a payload. A marker in it that
lies in no hidden number is that of a number, with the digits of the literal in front and the packed
value behind, exactly if the statement does not hold the character that is stored as a marker. Without
that character, no number in the record of the statement is cut short, and each number found there has
a literal and a value. -/
theorem markers_genuine_iff (text : Text) :
    ∃ payload, (tokenize .standard false text).payload = .ok payload ∧
      ((∀ front back, payload = front ++ Hidden.marker :: back → Hidden.due 0 front = 0 →
          MarksNumber (scan .standard .start text) [lineEnd] front back) ↔
        Hidden.markerChar ∉ text) ∧
      (Hidden.markerChar ∉ text → ∀ record : LineRecord, record.payload = payload →
        record.hasCutNumber = false ∧
          ∀ entry ∈ record.hiddenNumbers, entry.1 ≠ [] ∧ entry.2 ≠ none) := by
  have hreading := reading_scan Table.consistent_standard .start text
  refine ⟨payloadOf text, tokenize_lenient text, ⟨fun hgenuine hmem => ?_, ?_⟩, ?_⟩
  · obtain ⟨front, back, hpayload, hdue, hforged⟩ :=
      exists_forged_marker hreading.sound (hreading.any_forges_iff.mpr hmem) [lineEnd]
    exact hforged (hgenuine front back hpayload hdue)
  · intro hmarker front back hpayload hdue
    exact marksNumber_of_due_eq_zero hreading.sound (any_forges_scan hmarker) (by decide) hpayload
      hdue
  · intro hmarker record hpayload
    refine ⟨LineRecord.hasCutNumber_of_payloadOf hpayload hmarker, ?_⟩
    intro entry hentry
    rw [LineRecord.hiddenNumbers_of_payloadOf hpayload hmarker] at hentry
    obtain ⟨stored, hstored, rfl⟩ := List.mem_map.mp hentry
    have hvalue := value?_of_mem_storedNumbers hreading.sound hstored
    refine ⟨?_, ?_⟩
    · exact List.append_ne_nil_of_right_ne_nil _ (Literal.of_value? hvalue).2
    · rw [StoredNumber.found, Hidden.ofBytes?_pack]
      exact Option.some_ne_none _

/-- A quoted marker character is taken for a marker, and the line seems to end within a number. -/
theorem quoted_marker_is_forged :
    ∃ record : LineRecord,
      (tokenize .standard false "PRINT \"\x0e\"".toList).payload = .ok record.payload ∧
      record.payload = [0xF5, 0x22] ++ Hidden.marker :: [0x22, lineEnd] ∧
      Hidden.due 0 [0xF5, 0x22] = 0 ∧
      record.hasCutNumber = true := by
  have hpayload : payloadOf "PRINT \"\x0e\"".toList = [0xF5, 0x22, 0x0E, 0x22, 0x0D] := by
    decide +kernel
  refine ⟨⟨10, [0xF5, 0x22, 0x0E, 0x22, 0x0D], by decide, by decide⟩, ?_, rfl, by decide, ?_⟩
  · rw [tokenize_lenient, hpayload]
  · rw [LineRecord.hasCutNumber, LineRecord.cutIn_eq_due]
    decide

end SpectrumBasic
