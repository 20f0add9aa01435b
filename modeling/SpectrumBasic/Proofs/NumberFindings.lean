import SpectrumBasic.Proofs.EncodedFiles
import SpectrumBasic.Proofs.HiddenNumbers
import SpectrumBasic.Validation

/-!
# Numbers that validation reports

A value without a short form is filled in as zero (`Hidden.fillsZero`), and validation is to report
its literal. It reads what it finds in front of the marker, though, which is the literal with whatever
is left over from a broken run. With something left over, that is no number (`Reading.leftover_broken`)
and nothing is reported. So the findings about the record of a statement are the numbers that were
filled in as zero and have nothing left over in front of them (`Validation.ofRecord_of_payloadOf`).
-/

namespace SpectrumBasic

/-! ## Leftovers -/

namespace Literal

theorem value?_two_points (run : Text) : value? ('.' :: '.' :: run) = none := by
  have hcount : ¬ ('.' :: '.' :: run).count '.' ≤ 1 := by
    rw [List.count_cons_self, List.count_cons_self]
    omega
  rw [value?, isNumber, decide_eq_false hcount, Bool.and_false]
  rfl

/-- `run` holds digits and points in front of `text`, last one first. They are no number together with
those that `text` starts with. -/
def Broken (run text : Text) : Prop :=
  run = [] ∨ value? (run.reverse ++ text.takeWhile isLiteralChar) = none

end Literal

/-- No number starts with a point that no digit follows. -/
theorem Lexeme.Plain.value?_eq_none {place : Place} {c : Char} {rest : Text}
    (h : Lexeme.Plain place c rest) (hc : Literal.isLiteralChar c = true) :
    Literal.value? ((c :: rest).takeWhile Literal.isLiteralChar) = none := by
  by_cases hstart : startsNumber c rest = true
  · exact h.unnumbered hstart
  · simp only [startsNumber, Bool.or_eq_true, Bool.and_eq_true, not_or, not_and] at hstart
    have hpoint : c = '.' := by simpa [Literal.isLiteralChar, hstart.1] using hc
    subst hpoint
    rw [List.takeWhile_cons_of_pos hc]
    cases rest with
    | nil => rfl
    | cons d rest =>
      have hd : ¬ d.isDigit = true := by simpa using hstart.2
      by_cases hpoint : d = '.'
      · subst hpoint
        rw [List.takeWhile_cons_of_pos hc]
        exact Literal.value?_two_points _
      · have hother : ¬ Literal.isLiteralChar d = true := by
          simp [Literal.isLiteralChar, hd, hpoint]
        rw [List.takeWhile_cons_of_neg hother]
        rfl

/-- A character that is read by itself leaves no number behind. -/
theorem Literal.Broken.extend {place : Place} {run : Text} {c : Char} {rest : Text}
    (h : Literal.Broken run (c :: rest)) (hplain : Lexeme.Plain place c rest) :
    Literal.Broken (Literal.extend run c) rest := by
  unfold Literal.extend
  split
  · rename_i hc
    -- the character goes from the front of the text to the end of the run
    have hmove : (c :: run).reverse ++ rest.takeWhile Literal.isLiteralChar
        = run.reverse ++ (c :: rest).takeWhile Literal.isLiteralChar := by
      rw [List.takeWhile_cons_of_pos hc, List.reverse_cons, List.append_assoc]
      rfl
    refine .inr ?_
    rw [hmove]
    rcases h with rfl | hnone
    · exact hplain.value?_eq_none hc
    · exact hnone
  · exact .inl rfl

theorem storedNumbers_brokenAt_append (run : Text) (c : Char) (rest : Text) (later : List Lexeme) :
    storedNumbers run (Lexeme.brokenAt c rest ++ later) = storedNumbers run later := by
  unfold Lexeme.brokenAt
  split <;> rfl

/-- What is left over in front of a literal makes no number with it. -/
theorem Reading.leftover_broken {table : Table} {place : Place} {text : Text}
    {lexemes : List Lexeme} (h : Reading table place text lexemes) {run : Text}
    (hrun : Literal.Broken run text) :
    ∀ stored ∈ storedNumbers run lexemes,
      stored.leftover = [] ∨ Literal.value? (stored.leftover ++ stored.literal) = none := by
  induction h generalizing run with
  | done => simp [storedNumbers]
  | @closed place inner rest later hinner hrest ih =>
    have hend : ('"' :: inner ++ ['"']).foldl Literal.extend run = [] :=
      Literal.foldl_extend_concat (by decide) _ run
    show ∀ stored ∈ storedNumbers (('"' :: inner ++ ['"']).foldl Literal.extend run) later, _
    rw [hend]
    exact ih (.inl rfl)
  | unclosed hinner => simp [storedNumbers, Lexeme.stored?]
  | @number place c tail rest value later hstart hliteral hend hvalue hrest ih =>
    intro stored hstored
    rcases List.mem_cons.mp hstored with rfl | hlater
    · -- the literal takes all the digits and points that are there
      have htake : (c :: (tail ++ rest)).takeWhile Literal.isLiteralChar = c :: tail := by
        rw [← List.cons_append]
        exact (span_append hliteral hend).1
      rw [Literal.Broken, htake] at hrun
      exact hrun.imp List.reverse_eq_nil_iff.mpr id
    · exact ih (.inl rfl) stored hlater
  | comment hopens => simp [storedNumbers, Lexeme.stored?]
  | keyword hplain hread hcode hspaces hrest ih =>
    rw [storedNumbers_brokenAt_append]
    exact ih (.inl rfl)
  | remark hplain hread =>
    rw [storedNumbers_brokenAt_append]
    simp [storedNumbers, Lexeme.stored?]
  | character hplain hread hrest ih =>
    rw [storedNumbers_brokenAt_append]
    exact ih (hrun.extend hplain)

/-! ## Values that are filled in as zero -/

/-- A literal with a short form has a whole number for its value. -/
theorem Literal.eq_whole_of_small? {literal : Text} {value : Number} {n : Int}
    (hvalue : Literal.value? literal = some value) (hsmall : Hidden.small? value = some n) :
    value = .whole n := by
  unfold Literal.value? at hvalue
  split at hvalue
  · rw [← Option.some.inj hvalue] at hsmall ⊢
    unfold Number.ofReal at hsmall ⊢
    split at hsmall
    · rename_i m hm
      obtain ⟨hn, -⟩ := Option.filter_eq_some_iff.mp (show (some m).filter _ = _ from hsmall)
      rw [Option.some.inj hn]
    · rename_i hnone
      rw [Hidden.small?, hnone] at hsmall
      cases hsmall
  · cases hvalue

namespace Hidden

/-- Whether zero is filled in for another value. -/
def fillsZero (value : Number) : Bool := pack value = zeroFill && value != .whole 0

/-- Zero is filled in for the values without a short form. -/
theorem fillsZero_iff {literal : Text} {value : Number}
    (hvalue : Literal.value? literal = some value) :
    fillsZero value = true ↔ small? value = none := by
  rw [fillsZero, Bool.and_eq_true, decide_eq_true_iff, bne_iff_ne]
  constructor
  · rintro ⟨hpack, hne⟩
    cases hsmall : small? value with
    | none => rfl
    | some n =>
      -- what was packed is read back, so it was zero
      have hread := ofBytes?_pack value
      rw [hpack, hsmall] at hread
      obtain rfl : (0 : Int) = n := Option.some.inj hread
      exact absurd (Literal.eq_whole_of_small? hvalue hsmall) hne
  · intro hsmall
    refine ⟨by rw [pack, hsmall], ?_⟩
    rintro rfl
    cases hsmall

end Hidden

/-- The literal of a number that zero is filled in for, though its value is another. -/
def Lexeme.zeroFilled? : Lexeme → Option Text
  | number literal value => if Hidden.fillsZero value then some literal else none
  | _ => none

/-- The literals of the stored numbers that zero is filled in for are those of the lexemes. -/
theorem map_filter_storedNumbers (run : Text) (lexemes : List Lexeme) :
    ((storedNumbers run lexemes).filter fun stored => Hidden.fillsZero stored.value).map
      StoredNumber.literal = lexemes.filterMap Lexeme.zeroFilled? := by
  induction lexemes generalizing run with
  | nil => rfl
  | cons lexeme later ih =>
    rw [storedNumbers, List.filter_append, List.map_append, ih]
    cases lexeme with
    | number literal value =>
      rw [List.filterMap_cons]
      cases hfills : Hidden.fillsZero value <;> simp [Lexeme.stored?, Lexeme.zeroFilled?, hfills]
    | _ => rfl

/-! ## Findings -/

namespace StoredNumber

/-- Whether validation reports a number. -/
def isReported (stored : StoredNumber) : Bool :=
  Hidden.fillsZero stored.value && stored.leftover.isEmpty

variable {stored : StoredNumber} (hvalue : Literal.value? stored.literal = some stored.value)

include hvalue

theorem found_of_isReported (h : stored.isReported = true) :
    stored.found = (stored.literal, some 0) := by
  rw [isReported, Bool.and_eq_true, List.isEmpty_iff, Hidden.fillsZero_iff hvalue] at h
  rw [found, h.2, List.nil_append, Hidden.ofBytes?_pack, h.1]
  rfl

/-- Of the numbers that are found, those that are reported seem to be stored wrongly. -/
theorem isStoredWrongly_found
    (hleftover : stored.leftover = [] ∨
      Literal.value? (stored.leftover ++ stored.literal) = none) :
    stored.found.2.filter (Validation.isStoredWrongly stored.found.1) =
      if stored.isReported then some 0 else none := by
  by_cases hreported : stored.isReported = true
  · have hne : stored.value ≠ .whole 0 := by
      rw [isReported, Hidden.fillsZero, Bool.and_eq_true, Bool.and_eq_true, bne_iff_ne] at hreported
      exact hreported.1.2
    rw [found_of_isReported hvalue hreported, if_pos hreported]
    simp [Validation.isStoredWrongly, hvalue, hne]
  · rw [if_neg hreported, found, Hidden.ofBytes?_pack]
    rcases hleftover with hnil | hnone
    · -- the literal was read as it is found, and its value was stored
      have hsmall : Hidden.small? stored.value ≠ none := by
        intro hnone
        rw [isReported, hnil, (Hidden.fillsZero_iff hvalue).mpr hnone] at hreported
        exact hreported rfl
      obtain ⟨n, hn⟩ := Option.ne_none_iff_exists'.mp hsmall
      rw [hnil, List.nil_append, hn]
      simp [Validation.isStoredWrongly, hvalue, Literal.eq_whole_of_small? hvalue hn]
    · simp [Validation.isStoredWrongly, hnone]

end StoredNumber

namespace Validation

/-- Number by number, validation makes a finding of those that are reported. -/
theorem filterMap_found {numbers : List StoredNumber}
    (hvalue : ∀ stored ∈ numbers, Literal.value? stored.literal = some stored.value)
    (hleftover : ∀ stored ∈ numbers,
      stored.leftover = [] ∨ Literal.value? (stored.leftover ++ stored.literal) = none)
    (line : Nat) :
    (numbers.map StoredNumber.found).filterMap (fun entry =>
        (entry.2.filter (isStoredWrongly entry.1)).map (Finding.storedWrongly line entry.1)) =
      (numbers.filter StoredNumber.isReported).map fun stored =>
        Finding.storedWrongly line stored.literal 0 := by
  induction numbers with
  | nil => rfl
  | cons stored numbers ih =>
    rw [List.forall_mem_cons] at hvalue hleftover
    rw [List.map_cons, List.filterMap_cons, ih hvalue.2 hleftover.2,
      StoredNumber.isStoredWrongly_found hvalue.1 hleftover.1]
    by_cases hreported : stored.isReported = true
    · rw [if_pos hreported, List.filter_cons_of_pos hreported, List.map_cons,
        StoredNumber.found_of_isReported hvalue.1 hreported]
      rfl
    · rw [if_neg hreported, List.filter_cons_of_neg hreported]
      rfl

/-- What is wrong with the record of a statement: numbers that zero was filled in for, where nothing is
left over in front of their literals. -/
theorem ofRecord_of_payloadOf {record : LineRecord} {text : Text}
    (hpayload : record.payload = payloadOf text) (hmarker : Hidden.markerChar ∉ text) :
    ofRecord record =
      ((storedNumbers [] (scan .standard .start text)).filter StoredNumber.isReported).map
        fun stored => .storedWrongly record.number stored.literal 0 := by
  have hreading := reading_scan Table.consistent_standard .start text
  have hempty : record.payload.isEmpty = false := by
    rw [hpayload, payloadOf]
    simp
  have hlast : record.payload.getLast? = some lineEnd := by
    rw [hpayload, payloadOf, List.getLast?_concat]
  rw [ofRecord, hempty, if_neg Bool.false_ne_true, if_pos hlast,
    LineRecord.hasCutNumber_of_payloadOf hpayload hmarker, if_neg Bool.false_ne_true,
    LineRecord.hiddenNumbers_of_payloadOf hpayload hmarker]
  exact filterMap_found (fun stored => value?_of_mem_storedNumbers hreading.sound)
    (hreading.leftover_broken (.inl rfl)) record.number

end Validation

/-- All the numbers that zero is filled in for are reported exactly if nothing is left over in front of
any of them. -/
theorem map_filter_isReported_eq_iff (line : Nat) (lexemes : List Lexeme) :
    ((storedNumbers [] lexemes).filter StoredNumber.isReported).map
        (fun stored => Finding.storedWrongly line stored.literal 0) =
      (lexemes.filterMap Lexeme.zeroFilled?).map (fun literal => .storedWrongly line literal 0) ↔
    ∀ stored ∈ storedNumbers [] lexemes,
      Hidden.fillsZero stored.value = true → stored.leftover = [] := by
  have hfilter : (storedNumbers [] lexemes).filter StoredNumber.isReported =
      ((storedNumbers [] lexemes).filter fun stored => Hidden.fillsZero stored.value).filter
        fun stored => stored.leftover.isEmpty := by
    rw [List.filter_filter]
    refine List.filter_congr fun stored _ => ?_
    rw [StoredNumber.isReported, Bool.and_comm]
  rw [← map_filter_storedNumbers [] lexemes, List.map_map, hfilter]
  constructor
  · intro h stored hstored hfills
    have hlength := congrArg List.length h
    rw [List.length_map, List.length_map, List.length_filter_eq_length_iff] at hlength
    exact List.isEmpty_iff.mp (hlength stored (List.mem_filter.mpr ⟨hstored, hfills⟩))
  · intro h
    refine congrArg _ (List.filter_eq_self.mpr fun stored hstored => ?_)
    obtain ⟨hmem, hfills⟩ := List.mem_filter.mp hstored
    exact List.isEmpty_iff.mpr (h stored hmem hfills)

theorem markerChar_not_mem_statement {lines : List Text}
    (h : ∀ line ∈ lines, Hidden.markerChar ∉ line.trim) :
    ∀ text ∈ lines.filterMap statement?, Hidden.markerChar ∉ text := by
  intro text htext hmem
  obtain ⟨line, hline, hstatement⟩ := List.mem_filterMap.mp htext
  exact h line hline (mem_trim_of_statement? hstatement hmem)

/-- **Which literals are reported.** A listing without the marker character is encoded behind a header.
Statement by statement, validation finds only numbers that zero was filled in for, and of these it
finds the ones that have nothing left over in front of their literals. So it finds all of them, in
order, exactly if nothing is left over in front of any. -/
theorem zero_fills_reported_iff {settings : Settings} (hheader : settings.includeHeader = true)
    {lines : List Text} (hmarker : ∀ line ∈ lines, Hidden.markerChar ∉ line.trim) {data : Bytes}
    (h : (encodeProgram settings lines).outcome = .ok data) :
    List.Forall₂ (fun text record =>
        Validation.ofRecord record =
          ((storedNumbers [] (scan .standard .start text)).filter fun stored =>
            Hidden.fillsZero stored.value && stored.leftover.isEmpty).map
              (fun stored => .storedWrongly record.number stored.literal 0) ∧
        (Validation.ofRecord record =
            ((scan .standard .start text).filterMap Lexeme.zeroFilled?).map
              (fun literal => .storedWrongly record.number literal 0) ↔
          ∀ stored ∈ storedNumbers [] (scan .standard .start text),
            Hidden.fillsZero stored.value = true → stored.leftover = []))
      (lines.filterMap statement?) (Program.parse data).1.lines := by
  have hrecords := (List.forall₂_and_left _ _).mpr
    ⟨markerChar_not_mem_statement hmarker, forall₂_payloadOf hheader h⟩
  refine hrecords.imp fun text record hrecord => ?_
  have hfindings := Validation.ofRecord_of_payloadOf hrecord.2 hrecord.1
  refine ⟨hfindings, ?_⟩
  rw [hfindings]
  exact map_filter_isReported_eq_iff record.number (scan .standard .start text)

/-- A literal behind a word is reported, a small one is not. -/
theorem zero_fill_of_fraction_reported :
    ∃ data, (encodeProgram {} ["10 PRINT 3.14+1".toList]).outcome = .ok data ∧
      ∃ record, (Program.parse data).1.lines = [record] ∧
        Validation.ofRecord record = [.storedWrongly record.number "3.14".toList 0] := by
  have h := outcome_encodeProgram_of_isSome {} ["10 PRINT 3.14+1".toList] (by decide +kernel)
  have hstatements : ["10 PRINT 3.14+1".toList].filterMap statement? = ["PRINT 3.14+1".toList] := by
    decide +kernel
  have hreported := zero_fills_reported_iff rfl (by decide +kernel) h
  rw [hstatements, List.forall₂_cons_left_iff] at hreported
  obtain ⟨record, rest, ⟨hrecord, -⟩, hrest, hlines⟩ := hreported
  rw [List.forall₂_nil_left_iff.mp hrest] at hlines
  refine ⟨_, h, record, hlines, hrecord.trans ?_⟩
  have hstored : (storedNumbers [] (scan .standard .start "PRINT 3.14+1".toList)).filter
      (fun stored => Hidden.fillsZero stored.value && stored.leftover.isEmpty) =
        [⟨[], "3.14".toList, .real (Binary64.ofRatio 314 100)⟩] := by
    decide +kernel
  rw [hstored]
  rfl

/-- Zero is filled in for the end of a broken run, and nothing is reported. -/
theorem zero_fill_of_broken_run_unreported :
    ∃ data, (encodeProgram {} ["10 PRINT 1.2.3".toList]).outcome = .ok data ∧
      ∃ record, (Program.parse data).1.lines = [record] ∧
        (scan .standard .start "PRINT 1.2.3".toList).filterMap Lexeme.zeroFilled?
          = ["2.3".toList] ∧
        Validation.ofRecord record = [] := by
  have h := outcome_encodeProgram_of_isSome {} ["10 PRINT 1.2.3".toList] (by decide +kernel)
  have hstatements : ["10 PRINT 1.2.3".toList].filterMap statement? = ["PRINT 1.2.3".toList] := by
    decide +kernel
  have hpayload := forall₂_payloadOf rfl h
  rw [hstatements, List.forall₂_cons_left_iff] at hpayload
  obtain ⟨record, rest, hrecord, hrest, hlines⟩ := hpayload
  rw [List.forall₂_nil_left_iff.mp hrest] at hlines
  refine ⟨_, h, record, hlines, by decide +kernel, ?_⟩
  have hstored : (storedNumbers [] (scan .standard .start "PRINT 1.2.3".toList)).filter
      StoredNumber.isReported = [] := by
    decide +kernel
  rw [Validation.ofRecord_of_payloadOf hrecord (by decide), hstored]
  rfl

end SpectrumBasic
