import SpectrumBasic.Number.Packing
import SpectrumBasic.Proofs.EncodingRuns

/-!
# Where complaints point

A complaint about a listing names the line at which encoding stops: the lines before it are encoded, and
with it they are not (`exists_ok_take_iff`). A complaint about a number names the column of its first
character on the trimmed line. The scan of a statement does not lose track of the characters
(`scan_number_split`), whatever the table is, so that what stands at this column is the literal, as far
as digits and points go. It may be the end of a longer run that is no number as a whole.
-/

namespace SpectrumBasic

/-! ## The characters of lexemes -/

namespace Lexeme

variable {table : Table} {place : Place} {c : Char} {rest : Text}

theorem quotedAt_isPrefix (rest : Text) : quotedAt rest <+: '"' :: rest := by
  rw [quotedAt, List.cons_prefix_cons]
  refine ⟨rfl, ?_⟩
  conv => rhs; rw [← List.takeWhile_append_dropWhile (p := (· ≠ '"')) (l := rest)]
  refine (List.prefix_append_right_inj _).mpr ?_
  exact List.take_prefix 1 _

/-- A word is read from the text, unless a blank spelling is met. -/
theorem source_wordAt (h : wordAt table place c rest ≠ blankSpelling) :
    (wordAt table place c rest).source ≠ [] ∧
      (wordAt table place c rest).source <+: c :: rest := by
  unfold wordAt at h ⊢
  by_cases hcomment : c = ';' ∧ place.opensStatement = true
  · rw [if_pos hcomment]
    exact ⟨List.cons_ne_nil c rest, List.prefix_rfl⟩
  · rw [if_neg hcomment] at h ⊢
    cases hread : table.read place.afterLetter (c :: rest) with
    | error blank =>
      rw [hread] at h
      exact absurd rfl h
    | ok hit =>
      cases hit with
      | none => exact ⟨List.cons_ne_nil c [], List.prefix_append [c] rest⟩
      | some hit =>
        obtain ⟨word, code⟩ := hit
        obtain ⟨k, -, after, htext, hadmits, hspelling, -⟩ := Table.read_eq_some hread
        have hword : word ≠ [] := by
          rw [← List.length_pos_iff, hadmits.length_eq, List.length_pos_iff]
          exact hspelling
        have hafter : (c :: rest).drop word.length = after := by rw [htext, List.drop_left]
        simp only [hafter]
        by_cases hremark : code = Keyword.remark
        · rw [if_pos hremark, htext]
          exact ⟨List.append_ne_nil_of_left_ne_nil hword after, List.prefix_rfl⟩
        · -- the spaces that are counted are those at the start of what follows the word
          have hspaces : List.replicate (after.takeWhile (· = ' ')).length ' ' <+: after := by
            have hall : ∀ d ∈ after.takeWhile (· = ' '), d = ' ' := fun d hd =>
              of_decide_eq_true (of_mem_takeWhile hd)
            rw [← List.eq_replicate_of_mem hall]
            exact List.takeWhile_prefix _
          rw [if_neg hremark, htext]
          exact ⟨List.append_ne_nil_of_left_ne_nil hword _,
            (List.prefix_append_right_inj word).mpr hspaces⟩

theorem takeWhile_ne_nil_of_startsNumber (h : startsNumber c rest = true) :
    (c :: rest).takeWhile Literal.isLiteralChar ≠ [] := by
  rw [List.takeWhile_cons_of_pos (isLiteralChar_of_startsNumber h)]
  exact List.cons_ne_nil _ _

/-- What is read at a place is read from the text, unless a blank spelling is met. -/
theorem source_readAt (h : blankSpelling ∉ readAt table place c rest) :
    (readAt table place c rest).flatMap source ≠ [] ∧
      (readAt table place c rest).flatMap source <+: c :: rest := by
  rcases readAt_cases table place c rest with ⟨rfl, hread⟩ | ⟨value, hstart, -, hread⟩ | hread
  · rw [hread, List.flatMap_singleton]
    exact ⟨List.cons_ne_nil _ _, quotedAt_isPrefix rest⟩
  · rw [hread, List.flatMap_singleton, source]
    exact ⟨takeWhile_ne_nil_of_startsNumber hstart, List.takeWhile_prefix _⟩
  · rw [hread] at h ⊢
    rw [List.flatMap_append, flatMap_source_brokenAt, List.flatMap_singleton, List.nil_append]
    refine source_wordAt fun heq => h ?_
    rw [heq]
    exact List.mem_append_right _ List.mem_cons_self

/-- No word is a number. -/
theorem wordAt_ne_number (literal : Text) (value : Number) :
    wordAt table place c rest ≠ number literal value := by
  unfold wordAt
  split
  · exact Lexeme.noConfusion
  · split
    · exact Lexeme.noConfusion
    · exact Lexeme.noConfusion
    · dsimp only
      split <;> exact Lexeme.noConfusion

/-- A number is all that is read at its place: the digits and points there. -/
theorem readAt_of_number_mem {literal : Text} {value : Number}
    (h : number literal value ∈ readAt table place c rest) :
    readAt table place c rest = [number literal value] ∧ literal ≠ [] ∧
      Literal.value? literal = some value ∧
      (c :: rest).takeWhile Literal.isLiteralChar = literal := by
  rcases readAt_cases table place c rest with ⟨-, hread⟩ | ⟨value', hstart, hvalue, hread⟩ | hread
  · rw [hread, List.mem_singleton] at h
    cases h
  · rw [hread] at h ⊢
    obtain ⟨rfl, rfl⟩ := number.inj (List.mem_singleton.mp h)
    exact ⟨rfl, takeWhile_ne_nil_of_startsNumber hstart, hvalue, rfl⟩
  · rw [hread, List.mem_append, List.mem_singleton] at h
    rcases h with hbroken | hword
    · unfold brokenAt at hbroken
      split at hbroken
      · cases List.mem_singleton.mp hbroken
      · cases hbroken
    · exact absurd hword.symm (wordAt_ne_number literal value)

end Lexeme

theorem eq_append_drop_pred {c : Char} {rest taken : Text} (hne : taken ≠ [])
    (h : taken <+: c :: rest) : c :: rest = taken ++ rest.drop (taken.length - 1) := by
  obtain ⟨d, taken', rfl⟩ := List.exists_cons_of_ne_nil hne
  obtain ⟨rfl, back, rfl⟩ := List.cons_prefix_cons.mp h
  rw [List.length_cons, Nat.add_sub_cancel, List.drop_left, List.cons_append]

/-- **A number stands where its characters are.** Behind the characters of the lexemes before it, if none
is a blank spelling, the text goes on with the literal, and no more digits and points. -/
theorem scan_number_split {table : Table} {place : Place} {text literal : Text} {value : Number}
    {earlier later : List Lexeme}
    (h : scan table place text = earlier ++ .number literal value :: later)
    (hearlier : Lexeme.blankSpelling ∉ earlier) :
    ∃ back, text = earlier.flatMap Lexeme.source ++ back ∧ literal ≠ [] ∧
      Literal.value? literal = some value ∧ back.takeWhile Literal.isLiteralChar = literal := by
  fun_induction scan table place text generalizing earlier with
  | case1 place => exact absurd h.symm (List.append_ne_nil_of_right_ne_nil _ (List.cons_ne_nil _ _))
  | case2 place c rest found taken =>
    rename_i ih
    rcases append_eq_append_cons h with ⟨earlier', rfl, hlater⟩ | ⟨more, hfound⟩
    · -- the number is read later, and what is read here is passed
      rw [List.mem_append, not_or] at hearlier
      obtain ⟨hne, htaken⟩ := Lexeme.source_readAt hearlier.1
      obtain ⟨back, hback, hliteral⟩ := ih hlater hearlier.2
      refine ⟨back, ?_, hliteral⟩
      rw [List.flatMap_append, List.append_assoc, ← hback]
      exact eq_append_drop_pred hne htaken
    · -- the number is read here, and nothing else is
      have hmem : .number literal value ∈ found := by
        rw [hfound]
        exact List.mem_append_right earlier List.mem_cons_self
      obtain ⟨honly, hliteral⟩ := Lexeme.readAt_of_number_mem hmem
      obtain rfl : earlier = [] := by
        have hlength := congrArg List.length (hfound.symm.trans honly)
        rw [List.length_append, List.length_cons, List.length_singleton] at hlength
        exact List.length_eq_zero_iff.mp (by omega)
      exact ⟨c :: rest, rfl, hliteral⟩

/-! ## Refused numbers -/

/-- A number is packed if it has a short form. -/
theorem Hidden.outcome_packNumber_strict_eq_ok_iff {value : Number} {bytes : Bytes} :
    (packNumber true value).outcome = .ok bytes ↔
      small? value ≠ none ∧ pack value = bytes := by
  unfold packNumber
  cases hsmall : small? value with
  | none =>
    refine ⟨?_, fun h => absurd rfl h.1⟩
    cases hshown : value.isShowable with
    | true => exact nofun
    | false => exact nofun
  | some n => exact ⟨fun h => ⟨nofun, Except.ok.inj h⟩, fun h => congrArg Except.ok h.2⟩

/-- What is refused as a number is one that has no short form, where those are not allowed. -/
theorem Lexeme.of_refusal?_unsupportedNumber {lexeme : Lexeme} {strict : Bool} {literal : Text}
    (h : lexeme.refusal? strict = some (.unsupportedNumber literal)) :
    ∃ value, lexeme = .number literal value ∧ strict = true ∧ Hidden.small? value = none := by
  cases lexeme with
  | number literal' value =>
    simp only [refusal?] at h
    split at h
    · rename_i hrefused
      rw [Bool.and_eq_true, Option.isNone_iff_eq_none] at hrefused
      obtain rfl := Refusal.unsupportedNumber.inj (Option.some.inj h)
      exact ⟨value, rfl, hrefused⟩
    · cases h
  | _ => cases h

/-- A statement that is refused for a number has accepted all that stands before it. -/
theorem exists_of_payload_eq_unsupported {table : Table} {strict : Bool} {text literal : Text}
    {position : Nat}
    (h : (tokenize table strict text).payload = .error (.unsupportedNumber literal, position)) :
    ∃ earlier value later, scan table .start text = earlier ++ .number literal value :: later ∧
      position = (earlier.flatMap Lexeme.source).length ∧ Hidden.small? value = none ∧
      ∀ lexeme ∈ earlier, lexeme.refusal? true = none := by
  rw [tokenize] at h
  dsimp only at h
  cases hrefusal : (scan table .start text).findSome? (Lexeme.refusal? strict) with
  | none =>
    rw [hrefusal] at h
    cases h
  | some refusal =>
    rw [hrefusal] at h
    obtain ⟨rfl, hposition⟩ := Prod.mk.inj (Except.error.inj h)
    obtain ⟨earlier, lexeme, later, hscan, hlexeme, haccepted⟩ :=
      List.findSome?_eq_some_iff.mp hrefusal
    obtain ⟨value, rfl, rfl, hsmall⟩ := Lexeme.of_refusal?_unsupportedNumber hlexeme
    refine ⟨earlier, value, later, hscan, ?_, hsmall, haccepted⟩
    have hall : ∀ lexeme ∈ earlier, (lexeme.refusal? true).isNone = true := fun lexeme hmem =>
      Option.isNone_iff_eq_none.mpr (haccepted lexeme hmem)
    have hstop : (Lexeme.number literal value :: later).head?.any
        (fun lexeme => (lexeme.refusal? true).isNone) = false := by
      rw [List.head?_cons, Option.any_some, hlexeme]
      rfl
    rw [← hposition, hscan, (span_append hall hstop).1]

/-- A number of a line that is refused: the numbers read before it can be packed, and it cannot. -/
structure RefusedNumber (table : Table) (text literal : Text) where
  /-- The line is a statement, with or without a number of its own. -/
  number : Option Text
  body : Text
  statement_eq : SourceLine.ofText text = .statement number body
  /-- The literal is read behind these lexemes, all of which mean something. -/
  earlier : List Lexeme
  value : Number
  later : List Lexeme
  scan_eq : scan table .start body = earlier ++ .number literal value :: later
  spelled : .blankSpelling ∉ earlier
  packed : ∀ literal' value', .number literal' value' ∈ earlier →
    ∃ bytes, (Hidden.packNumber true value').outcome = .ok bytes
  unpacked : ∀ bytes, (Hidden.packNumber true value).outcome ≠ .ok bytes

/-- A statement is the end of its line. -/
theorem SourceLine.isSuffix_of_ofText {text body : Text} {number : Option Text}
    (h : ofText text = statement number body) : body <:+ text := by
  obtain ⟨-, hstatement⟩ := ofStatement_of_ofText h
  simp only [ofStatement] at hstatement
  split at hstatement
  · rw [← (statement.inj hstatement).2]
    exact (List.dropWhile_suffix _).trans (List.dropWhile_suffix _)
  · obtain rfl := (statement.inj hstatement).2
    exact List.suffix_rfl

namespace RefusedNumber

variable {table : Table} {text literal : Text}

/-- The characters of the line in front of a refused number. -/
def offset (refused : RefusedNumber table text literal) : Nat :=
  text.length - refused.body.length + (refused.earlier.flatMap Lexeme.source).length

/-- Behind these characters the literal stands, as far as digits and points go. -/
theorem takeWhile_drop_offset (refused : RefusedNumber table text literal) :
    literal ≠ [] ∧ Literal.value? literal = some refused.value ∧
      (text.drop refused.offset).takeWhile Literal.isLiteralChar = literal := by
  obtain ⟨front, htext⟩ := SourceLine.isSuffix_of_ofText refused.statement_eq
  obtain ⟨back, hbody, hne, hvalue, hliteral⟩ :=
    scan_number_split refused.scan_eq refused.spelled
  have hfront : text.length - refused.body.length = front.length := by
    have hlength := congrArg List.length htext
    rw [List.length_append] at hlength
    omega
  have hstatement : text.drop front.length = refused.body :=
    (congrArg (List.drop front.length) htext).symm.trans List.drop_left
  have hdrop : text.drop refused.offset = back := by
    rw [offset, hfront, ← List.drop_drop, hstatement, hbody, List.drop_left]
  rw [hdrop]
  exact ⟨hne, hvalue, hliteral⟩

/-- A statement that is refused for a number has a refused number. -/
theorem exists_of_payload {number : Option Text} {body : Text} {strict : Bool} {position : Nat}
    (hline : SourceLine.ofText text = .statement number body)
    (h : (tokenize table strict body).payload = .error (.unsupportedNumber literal, position)) :
    ∃ refused : RefusedNumber table text literal,
      refused.offset = text.length - body.length + position := by
  obtain ⟨earlier, value, later, hscan, rfl, hsmall, haccepted⟩ :=
    exists_of_payload_eq_unsupported h
  have hspelled : .blankSpelling ∉ earlier := fun hmem => nomatch haccepted _ hmem
  have hpacked : ∀ literal' value', .number literal' value' ∈ earlier →
      ∃ bytes, (Hidden.packNumber true value').outcome = .ok bytes := by
    intro literal' value' hmem
    refine ⟨_, Hidden.outcome_packNumber_strict_eq_ok_iff.mpr ⟨fun hnone => ?_, rfl⟩⟩
    have hrefusal := haccepted _ hmem
    simp [Lexeme.refusal?, hnone] at hrefusal
  have hunpacked : ∀ bytes, (Hidden.packNumber true value).outcome ≠ .ok bytes := fun bytes hbytes =>
    (Hidden.outcome_packNumber_strict_eq_ok_iff.mp hbytes).1 hsmall
  exact ⟨⟨number, body, hline, earlier, value, later, hscan, hspelled, hpacked, hunpacked⟩, rfl⟩

end RefusedNumber

/-! ## Complaints -/

namespace Encoder

variable {enc : Encoder} {p : Progress}

/-- A statement is complained about at the line of the source, and a number in it at its column. -/
theorem location_of_encodeStatement {n : Int} {body : Text} {diagnostic : Diagnostic}
    (h : (enc.encodeStatement p n body).outcome = .error (.source diagnostic)) :
    ∃ column, diagnostic.location = some ⟨enc.file, p.sourceLine, column⟩ ∧
      ∀ literal, diagnostic.fault = .unsupportedNumber literal →
        ∃ position : Nat, column = p.offset + position + 1 ∧
          (SpectrumBasic.tokenize enc.table enc.settings.strictNumbers body).payload =
            .error (.unsupportedNumber literal, position) := by
  unfold encodeStatement at h
  by_cases hn : 0 ≤ n ∧ n ≤ maxWord
  · rw [dif_pos hn] at h
    rcases Attempt.outcome_andThen_eq_error_iff.mp h with htokens | ⟨payload, -, hlength⟩
    · simp only [tokenize] at htokens
      split at htokens
      · cases htokens
      · rename_i literal position hpayload
        obtain rfl := Failure.source.inj (Except.error.inj htokens)
        refine ⟨_, rfl, fun literal' hfault => ?_⟩
        obtain rfl := Fault.unsupportedNumber.inj hfault
        exact ⟨position, rfl, hpayload⟩
      · cases htokens
    · split at hlength
      · cases hlength
      · obtain rfl := Failure.source.inj (Except.error.inj hlength)
        exact ⟨_, rfl, fun literal hfault => Fault.noConfusion hfault⟩
  · rw [dif_neg hn] at h
    split at h
    · obtain rfl := Failure.source.inj (Except.error.inj h)
      exact ⟨_, rfl, fun literal hfault => Fault.noConfusion hfault⟩
    · cases h

/-- **What a complaint about one line says.** It names that line, and for a number the column behind the
characters in front of it. -/
theorem location_of_encodeLine {line : Text} {diagnostic : Diagnostic}
    (h : (enc.encodeLine p line).1.outcome = .error (.source diagnostic)) :
    ∃ column, diagnostic.location = some ⟨enc.file, p.sourceLine, column⟩ ∧
      ∀ literal, diagnostic.fault = .unsupportedNumber literal →
        ∃ refused : RefusedNumber enc.table line.trim literal, column = refused.offset + 1 := by
  unfold encodeLine at h
  cases hkind : SourceLine.ofText line.trim with
  | blank | comment =>
    simp only [hkind] at h
    cases h
  | autostart operand =>
    simp only [hkind] at h
    split at h <;> cases h
  | malformed =>
    simp only [hkind] at h
    split at h
    · obtain rfl := Failure.source.inj (Except.error.inj h)
      exact ⟨1, rfl, fun literal hfault => Fault.noConfusion hfault⟩
    · cases h
  | statement number body =>
    simp only [hkind] at h
    split at h
    · rename_i failure hnumber
      obtain ⟨digits, rfl⟩ := exists_eq_tooManyDigits hnumber
      cases h
    · rcases Attempt.outcome_andThen_eq_error_iff.mp h with hstatement | ⟨record, -, hnever⟩
      · obtain ⟨column, hlocation, hnumber⟩ := location_of_encodeStatement hstatement
        refine ⟨column, hlocation, fun literal hfault => ?_⟩
        obtain ⟨position, rfl, hpayload⟩ := hnumber literal hfault
        obtain ⟨refused, hoffset⟩ := RefusedNumber.exists_of_payload hkind hpayload
        exact ⟨refused, by rw [hoffset]; push_cast; rfl⟩
      · cases hnever

/-! ## Beginnings of a listing -/

/-- Lines that are encoded with others behind them are encoded without these. -/
theorem exists_ok_of_append {index : Nat} {before after : List Text} {records : List LineRecord}
    (h : (enc.encodeFrom p index (before ++ after)).1.outcome = .ok records) :
    ∃ records', (enc.encodeFrom p index before).1.outcome = .ok records' := by
  cases hbefore : (enc.encodeFrom p index before).1.outcome with
  | ok records' => exact ⟨records', rfl⟩
  | error failure =>
    -- the line that fails is there with the others as well
    obtain ⟨before', line, after', rfl, hencoded, hline⟩ :=
      outcome_encodeFrom_eq_error_iff.mp hbefore
    have hfails : (enc.encodeFrom p index ((before' ++ line :: after') ++ after)).1.outcome =
        .error failure := by
      rw [List.append_assoc, List.cons_append]
      exact outcome_encodeFrom_eq_error_iff.mpr ⟨before', line, _, rfl, hencoded, hline⟩
    rw [hfails] at h
    cases h

/-- **Where a run stops.** The first lines of a listing are encoded exactly if the one that fails is not
among them. -/
theorem exists_ok_take_iff {index : Nat} {before : List Text} {line : Text} {failure : Failure}
    (hbefore : ∃ records, (enc.encodeFrom p index before).1.outcome = .ok records)
    (hline : (enc.encodeLine { (enc.encodeFrom p index before).2 with
      sourceLine := index + before.length } line).1.outcome = .error failure)
    (after : List Text) (count : Nat) :
    (∃ records, (enc.encodeFrom p index ((before ++ line :: after).take count)).1.outcome =
      .ok records) ↔ count ≤ before.length := by
  constructor
  · rintro ⟨records, hrecords⟩
    refine Nat.le_of_not_lt fun hlt => ?_
    obtain ⟨more, rfl⟩ := Nat.exists_eq_add_of_lt hlt
    have hfails : (enc.encodeFrom p index (before ++ line :: after.take more)).1.outcome =
        .error failure := outcome_encodeFrom_eq_error_iff.mpr ⟨before, line, _, rfl, hbefore, hline⟩
    rw [Nat.add_assoc, List.take_length_add_append, List.take_succ_cons, hfails] at hrecords
    cases hrecords
  · intro hle
    obtain ⟨records, hrecords⟩ := hbefore
    rw [List.take_append_of_le_length hle]
    rw [← List.take_append_drop count before] at hrecords
    exact exists_ok_of_append hrecords

end Encoder

/-- A listing has a program if its lines are encoded. -/
theorem exists_program_iff {enc : Encoder} {lines : List Text} :
    (∃ program, (encodeListing enc lines).outcome = .ok program) ↔
      ∃ records, (enc.encodeFrom enc.start 1 lines).1.outcome = .ok records := by
  simp only [outcome_encodeListing_eq_ok_iff]
  constructor
  · rintro ⟨program, records, hrecords, -⟩
    exact ⟨records, hrecords⟩
  · rintro ⟨records, hrecords⟩
    exact ⟨_, records, hrecords, rfl⟩

/-- **Complaints point at the fault.** A complaint names the line with which the listing can no longer be
encoded: just the beginnings of the listing without that line have a program. If it is about a number,
what stands at the column that it names on the trimmed line is the literal, as far as digits and points
go. It is one that cannot be packed, while all numbers read before it on that line can. -/
theorem complaint_points_at_fault (enc : Encoder) {lines : List Text} {diagnostic : Diagnostic}
    (h : (encodeListing enc lines).outcome = .error (.source diagnostic)) :
    ∃ (index : Nat) (line : Text) (column : Int),
      lines[index]? = some line ∧
      diagnostic.location = some ⟨enc.file, index + 1, column⟩ ∧
      (∀ count, (∃ program, (encodeListing enc (lines.take count)).outcome = .ok program) ↔
        count ≤ index) ∧
      ∀ literal, diagnostic.fault = .unsupportedNumber literal →
        ∃ refused : RefusedNumber enc.table line.trim literal, column = refused.offset + 1 ∧
          literal ≠ [] ∧ Literal.value? literal = some refused.value ∧
          (line.trim.drop refused.offset).takeWhile Literal.isLiteralChar = literal := by
  rw [outcome_encodeListing_eq_error_iff, Encoder.outcome_encodeFrom_eq_error_iff] at h
  obtain ⟨before, line, after, rfl, hbefore, hline⟩ := h
  obtain ⟨column, hlocation, hnumber⟩ := Encoder.location_of_encodeLine hline
  refine ⟨before.length, line, column, ?_, ?_, fun count => ?_, fun literal hfault => ?_⟩
  · rw [List.getElem?_append_right (Nat.le_refl _), Nat.sub_self, List.getElem?_cons_zero]
  · rw [hlocation, Nat.add_comm]
    rfl
  · rw [← Encoder.exists_ok_take_iff hbefore hline after count]
    exact exists_program_iff
  · obtain ⟨refused, hcolumn⟩ := hnumber literal hfault
    exact ⟨refused, hcolumn, refused.takeWhile_drop_offset⟩

/-- The end of a run that is no number as a whole is complained about where it stands, on the trimmed
line and behind the number of the line. -/
theorem complaint_points_at_end_of_run :
    ∃ refused : RefusedNumber .standard (Text.trim "  20 LET a=7+1.2.3".toList) "2.3".toList,
      refused.offset = 13 ∧
      ((Text.trim "  20 LET a=7+1.2.3".toList).drop 13).takeWhile Literal.isLiteralChar =
        "2.3".toList := by
  have hcomplaint : (encodeListing { settings := { strictNumbers := true } }
      ["# stars".toList, "  20 LET a=7+1.2.3".toList]).outcome = .error (.source
        { fault := .unsupportedNumber "2.3".toList
          location := some ⟨"<input>", 2, 14⟩
          sourceLine := some "20 LET a=7+1.2.3".toList }) :=
    Attempt.outcome_eq_error_of_failure? (by decide +kernel)
  obtain ⟨index, line, column, hline, hlocation, -, hnumber⟩ := complaint_points_at_fault _ hcomplaint
  simp only [Option.some.injEq, Location.mk.injEq, true_and] at hlocation
  obtain ⟨hindex, rfl⟩ := hlocation
  obtain rfl : index = 1 := by omega
  obtain rfl := Option.some.inj hline
  obtain ⟨refused, hcolumn, -, -, hliteral⟩ := hnumber _ rfl
  have hoffset : refused.offset = 13 := by omega
  rw [hoffset] at hliteral
  exact ⟨refused, hoffset, hliteral⟩

end SpectrumBasic
