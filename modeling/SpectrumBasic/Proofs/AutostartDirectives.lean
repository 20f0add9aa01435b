import Mathlib.Data.List.TakeWhile
import SpectrumBasic.Proofs.SourceComplaints

/-!
# The line to start at

A directive names the line to start at with its second word, and the last one in a listing counts. What
makes a line a directive is its first word, but only the start of that word is looked at. So a longer
word that starts like a directive works like one, and what a program starts at is what the directives of
its listing say as long as no such line comes last.

A line is read without the blanks around it, which does not change its words (`Text.fields_trim`), and
encoding it either sets the line to start at or leaves it as it was (`Encoder.autostart_of_encodeLine`).
-/

namespace SpectrumBasic

/-! ## The words of a line -/

namespace Text

/-- A separator ends a piece, also behind other characters. -/
theorem pieces_append_separator {separates : Char → Bool} {c : Char} (hc : separates c = true)
    (front back : Text) :
    pieces separates (front ++ c :: back) = pieces separates front ++ pieces separates back := by
  induction front with
  | nil => exact pieces_cons_of_separates hc back
  | cons d front ih =>
    rw [List.cons_append]
    cases hd : separates d with
    | true =>
      rw [pieces_cons_of_separates hd, pieces_cons_of_separates hd, ih]
      rfl
    | false =>
      -- the character joins the first piece of what follows it
      have hfront : ∀ e ∈ [d], separates e = false := by simpa using hd
      obtain ⟨piece, others, hfirst⟩ := exists_pieces_eq_cons separates front
      rw [hfirst] at ih
      show pieces separates ([d] ++ (front ++ c :: back)) =
        pieces separates ([d] ++ front) ++ pieces separates back
      rw [pieces_append hfront ih, pieces_append hfront hfirst]
      rfl

theorem fields_append_blank {c : Char} (hc : isBlank c = true) (front back : Text) :
    fields (front ++ c :: back) = fields front ++ fields back := by
  unfold fields
  rw [pieces_append_separator hc, List.filter_append]

theorem fields_cons_blank {c : Char} (hc : isBlank c = true) (text : Text) :
    fields (c :: text) = fields text := fields_append_blank hc [] text

theorem fields_dropWhile_isBlank (text : Text) : fields (text.dropWhile isBlank) = fields text := by
  induction text with
  | nil => rfl
  | cons c text ih =>
    cases hc : isBlank c with
    | true => rw [List.dropWhile_cons_of_pos hc, ih, fields_cons_blank hc]
    | false => rw [List.dropWhile_cons_of_neg (by rw [hc]; decide)]

/-- Blanks at the end belong to no word. -/
theorem fields_append_blanks (text : Text) {blanks : Text} (h : ∀ c ∈ blanks, isBlank c = true) :
    fields (text ++ blanks) = fields text := by
  cases blanks with
  | nil => rw [List.append_nil]
  | cons c blanks =>
    rw [List.forall_mem_cons] at h
    have hnothing : blanks.dropWhile isBlank = [] := List.dropWhile_eq_nil_iff.mpr h.2
    rw [fields_append_blank h.1, ← fields_dropWhile_isBlank blanks, hnothing]
    exact List.append_nil _

theorem fields_trim (line : Text) : fields (trim line) = fields line := by
  rw [← fields_dropWhile_isBlank line, trim, strip]
  generalize line.dropWhile isBlank = text
  have hblanks : ∀ c ∈ (text.reverse.takeWhile isBlank).reverse, isBlank c = true := fun c hc =>
    of_mem_takeWhile (List.mem_reverse.mp hc)
  rw [← fields_append_blanks _ hblanks, ← List.reverse_append, List.takeWhile_append_dropWhile,
    List.reverse_reverse]

/-- The first word of a line goes up to a blank or the end. -/
theorem fields_word_append {word rest : Text} (hne : word ≠ [])
    (hword : ∀ c ∈ word, isBlank c = false) (hrest : rest.head?.all isBlank = true) :
    fields (word ++ rest) = word :: fields rest := by
  have halone : fields word = [word] := by
    have hpieces := pieces_append hword (show pieces isBlank [] = [[]] from rfl)
    rw [List.append_nil] at hpieces
    rw [fields, hpieces]
    simp [hne]
  cases rest with
  | nil => rw [List.append_nil, halone]; rfl
  | cons c rest =>
    rw [fields_append_blank hrest, halone, fields_cons_blank hrest]
    rfl

/-- A line starts with a word if it does not start with a blank. -/
theorem exists_word {text : Text} (hne : text ≠ []) (hfirst : text.head?.any isBlank = false) :
    ∃ word rest, text = word ++ rest ∧ word ≠ [] ∧ (∀ c ∈ word, isBlank c = false) ∧
      rest.head?.all isBlank = true := by
  refine ⟨text.takeWhile (!isBlank ·), text.dropWhile (!isBlank ·),
    List.takeWhile_append_dropWhile.symm, ?_, fun c hc => ?_, ?_⟩
  · cases text with
    | nil => exact absurd rfl hne
    | cons c text =>
      have hc : isBlank c = false := hfirst
      rw [List.takeWhile_cons_of_pos (by rw [hc]; rfl)]
      exact List.cons_ne_nil _ _
  · simpa using of_mem_takeWhile hc
  · have hstop := head?_dropWhile_any (!isBlank ·) text
    cases hrest : text.dropWhile (!isBlank ·) with
    | nil => rfl
    | cons c rest =>
      rw [hrest] at hstop
      simpa using hstop

theorem isBlank_toLower (c : Char) : isBlank c.toLower = isBlank c := by
  have hnat := toNat_toLower c
  by_cases hupper : 65 ≤ c.toNat ∧ c.toNat ≤ 90
  · rw [if_pos hupper] at hnat
    rw [isBlank_of_bounds (by omega) (by omega), isBlank_of_bounds (by omega) (by omega)]
  · rw [if_neg hupper, Char.toNat_inj] at hnat
    rw [hnat]

/-- What starts a line, if there is no blank in it, starts the first word of the line. -/
theorem isPrefixOf_lower_append {key word rest : Text} (hkey : ∀ c ∈ key, isBlank c = false)
    (hrest : rest.head?.all isBlank = true) :
    key.isPrefixOf (lower (word ++ rest)) = key.isPrefixOf (lower word) := by
  rw [Bool.eq_iff_iff, List.isPrefixOf_iff_prefix, List.isPrefixOf_iff_prefix, lower,
    List.map_append]
  refine ⟨fun hprefix => ?_, fun hprefix => hprefix.trans (List.prefix_append _ _)⟩
  rcases List.prefix_or_prefix_of_prefix hprefix (List.prefix_append _ _) with hshort | hlong
  · exact hshort
  · -- otherwise the key goes on behind the word, where a blank is
    obtain ⟨tail, rfl⟩ := hlong
    rw [List.prefix_append_right_inj] at hprefix
    cases tail with
    | nil => rw [List.append_nil]; exact List.prefix_refl _
    | cons d tail =>
      cases rest with
      | nil => exact absurd (List.prefix_nil.mp hprefix) (List.cons_ne_nil d tail)
      | cons c rest =>
        obtain rfl : d = c.toLower := (List.cons_prefix_cons.mp hprefix).1
        have hblank := hkey c.toLower (by simp)
        rw [isBlank_toLower] at hblank
        exact absurd (hblank.symm.trans hrest) Bool.false_ne_true

end Text

/-! ## Directives -/

namespace SourceLine

/-- The number that an operand says. -/
def operandValue : Text → Int
  | '-' :: digits => -(Nat.ofDigitChars 10 digits 0 : Nat)
  | '+' :: digits | digits => (Nat.ofDigitChars 10 digits 0 : Nat)

/-- The line that a directive names with its second word, an operand. What its first word has to be in
lower case is up to `isDirective`. -/
def start? (isDirective : Text → Bool) (line : Text) : Option Int :=
  match line.fields with
  | word :: operand :: _ =>
    if isDirective word.lower && isOperand operand then some (operandValue operand) else none
  | _ => none

/-- The line that a directive names. -/
def directedStart? : Text → Option Int := start? (· = autostartWord)

/-- The line that anything which starts like a directive names. -/
def acceptedStart? : Text → Option Int := start? autostartWord.isPrefixOf

/-- A directive starts like one. -/
theorem acceptedStart?_of_directedStart? {line : Text} {start : Int}
    (h : directedStart? line = some start) : acceptedStart? line = some start := by
  unfold directedStart? start? at h
  unfold acceptedStart? start?
  split at h
  · split at h
    · rename_i hboth
      rw [Bool.and_eq_true, decide_eq_true_eq] at hboth
      rw [hboth.1, hboth.2, if_pos (by decide)]
      exact h
    · cases h
  · cases h

theorem isPrefixOf_lower_of_head {c : Char} (hc : c ≠ '#') (tail : Text) :
    autostartWord.isPrefixOf (Text.lower (c :: tail)) = false := by
  rw [Bool.eq_false_iff, ne_eq, List.isPrefixOf_iff_prefix]
  intro hprefix
  have hlower : '#' = c.toLower := (List.cons_prefix_cons.mp hprefix).1
  exact hc (eq_of_toLower_eq (by decide) hlower.symm)

/-- A line starts like a directive exactly if it is read as one. -/
theorem acceptedStart?_eq (line : Text) :
    acceptedStart? line =
      match ofText line.trim with
      | .autostart operand => some (operandValue operand)
      | _ => none := by
  unfold acceptedStart? start?
  rw [← Text.fields_trim line]
  by_cases hnil : line.trim = []
  · rw [hnil]
    rfl
  · obtain ⟨word, rest, htrim, hne, hword, hrest⟩ :=
      Text.exists_word hnil (Text.solid_trim hnil).first
    obtain ⟨c, tail, rfl⟩ := List.exists_cons_of_ne_nil hne
    have hfields := Text.fields_word_append hne hword hrest
    rw [htrim, hfields]
    by_cases hc : c = '#'
    · subst hc
      have hkey : ∀ d ∈ autostartWord, Text.isBlank d = false := by
        have hall : autostartWord.all (!Text.isBlank ·) = true := by decide
        simpa only [List.all_eq_true, Bool.not_eq_true'] using hall
      show _ = match ofMarked ('#' :: tail ++ rest) with
        | .autostart operand => some (operandValue operand)
        | _ => none
      rw [ofMarked, Text.isPrefixOf_lower_append hkey hrest, hfields, List.getElem?_cons_succ]
      cases rest.fields with
      | nil => cases autostartWord.isPrefixOf (Text.lower ('#' :: tail)) <;> rfl
      | cons operand others =>
        dsimp only
        cases autostartWord.isPrefixOf (Text.lower ('#' :: tail)) with
        | false => rfl
        | true => cases hoperand : isOperand operand <;> simp [hoperand]
    · obtain ⟨number, body, hkind⟩ := exists_ofStatement_eq (c :: (tail ++ rest))
      rw [List.cons_append, ofText_of_head hc, hkind]
      cases rest.fields with
      | nil => rfl
      | cons operand others =>
        dsimp only
        rw [isPrefixOf_lower_of_head hc]
        rfl

/-- What is read of an operand is the number it says. -/
theorem operandValue_of_readInt {operand : Text} {start : Int}
    (h : Text.readInt operand = .ok start) : operandValue operand = start := by
  have hread : ∀ {digits : Text} {sign : Int → Int},
      Except.map sign (do let n ← Text.readNat digits; pure (n : Int)) = .ok start →
        sign (Nat.ofDigitChars 10 digits 0 : Nat) = start := by
    intro digits sign hmap
    cases hdigits : Text.readNat digits with
    | error fault =>
      rw [hdigits] at hmap
      cases hmap
    | ok n =>
      rw [hdigits] at hmap
      rw [(Text.readNat_eq_ok_iff.mp hdigits).2]
      exact Except.ok.inj hmap
  revert h
  fun_cases Text.readInt operand with
  | case1 digits => exact hread
  | case2 digits => exact hread
  | case3 _ hminus hplus =>
    have hvalue : operandValue operand = (Nat.ofDigitChars 10 operand 0 : Nat) := by
      unfold operandValue
      split
      · exact absurd rfl (hminus _)
      · exact absurd rfl (hplus _)
      · rfl
    rw [hvalue]
    exact hread

end SourceLine

/-! ## Runs -/

namespace Encoder

variable {enc : Encoder} {p : Progress}

/-- A line that starts like a directive sets the line to start at, and every other line leaves it as it
is. -/
theorem autostart_of_encodeLine {line : Text} {record : Option LineRecord}
    (h : (enc.encodeLine p line).1.outcome = .ok record) :
    (enc.encodeLine p line).2.autostart = (SourceLine.acceptedStart? line).or p.autostart := by
  rw [SourceLine.acceptedStart?_eq]
  unfold encodeLine at h ⊢
  cases hkind : SourceLine.ofText line.trim with
  | blank | comment => simp only [hkind, Option.none_or]
  | autostart operand =>
    simp only [hkind] at h ⊢
    cases hread : Text.readInt operand with
    | ok start => rw [SourceLine.operandValue_of_readInt hread]; rfl
    | error fault =>
      rw [hread] at h
      cases h
  | malformed =>
    simp only [hkind, Option.none_or]
    split <;> rfl
  | statement number body =>
    simp only [hkind, Option.none_or]
    split <;> rfl

/-- So the last line of a run that starts like a directive has set it. -/
theorem autostart_of_encodeFrom {index : Nat} {lines : List Text} {records : List LineRecord}
    (h : (enc.encodeFrom p index lines).1.outcome = .ok records) :
    (enc.encodeFrom p index lines).2.autostart =
      (lines.filterMap SourceLine.acceptedStart?).getLast?.or p.autostart := by
  induction lines generalizing p index records with
  | nil => rfl
  | cons line rest ih =>
    obtain ⟨record, later, hrecord, hlater, -⟩ := outcome_encodeFrom_cons_eq_ok_iff.mp h
    rw [progress_encodeFrom_cons hrecord, ih hlater, autostart_of_encodeLine hrecord]
    cases hline : SourceLine.acceptedStart? line with
    | none => rw [List.filterMap_cons_none hline, Option.none_or]
    | some start =>
      rw [List.filterMap_cons_some hline, List.getLast?_cons]
      cases (rest.filterMap SourceLine.acceptedStart?).getLast? <;> rfl

end Encoder

/-! ## Listings -/

/-- The last of the values that some items have is that of an item with none behind it. -/
theorem getLast?_filterMap_append {α β : Type} (f : α → Option β) (before : List α) (x : α)
    {after : List α} (hafter : ∀ y ∈ after, f y = none) :
    ((before ++ x :: after).filterMap f).getLast? =
      (f x).or (before.filterMap f).getLast? := by
  have hnil : after.filterMap f = [] := List.filterMap_eq_nil_iff.mpr hafter
  cases hx : f x with
  | none => rw [List.filterMap_append, List.filterMap_cons_none hx, hnil, List.append_nil]; rfl
  | some b =>
    rw [List.filterMap_append, List.filterMap_cons_some hx, hnil, List.getLast?_append]
    rfl

/-- Items have no values, or there is a last one that has. -/
theorem exists_last_of_filterMap {α β : Type} (f : α → Option β) (items : List α) :
    (∀ x ∈ items, f x = none) ∨
      ∃ before x after b, items = before ++ x :: after ∧ f x = some b ∧ ∀ y ∈ after, f y = none := by
  induction items with
  | nil => exact .inl fun x hx => by cases hx
  | cons x items ih =>
    rcases ih with hnone | ⟨before, y, after, b, rfl, hy, hafter⟩
    · cases hx : f x with
      | none => exact .inl (List.forall_mem_cons.mpr ⟨hx, hnone⟩)
      | some b => exact .inr ⟨[], x, items, b, rfl, hx, hnone⟩
    · exact .inr ⟨x :: before, y, after, b, rfl, hy, hafter⟩

open SourceLine in
/-- **Which line a program starts at.** It is the one that the last line which starts like a directive
names, if there is one. That is the one which the last directive names exactly if the last of those
lines is a directive, or the last directive in front of it names the same line. -/
theorem autostart_by_directives_iff {enc : Encoder} {lines : List Text} {program : Program}
    (h : (encodeListing enc lines).outcome = .ok program) :
    program.autostart = (lines.filterMap acceptedStart?).getLast? ∧
      (program.autostart = (lines.filterMap directedStart?).getLast? ↔
        ∀ before line after start, lines = before ++ line :: after →
          acceptedStart? line = some start → (∀ later ∈ after, acceptedStart? later = none) →
          directedStart? line = none →
          (before.filterMap directedStart?).getLast? = some start) := by
  obtain ⟨records, hrecords, rfl⟩ := outcome_encodeListing_eq_ok_iff.mp h
  have hlast := Encoder.autostart_of_encodeFrom hrecords
  rw [show enc.start.autostart = none from rfl, Option.or_none] at hlast
  have hnone : ∀ {line}, acceptedStart? line = none → directedStart? line = none := by
    intro line haccepted
    cases hdirected : directedStart? line with
    | none => rfl
    | some start =>
      rw [acceptedStart?_of_directedStart? hdirected] at haccepted
      cases haccepted
  refine ⟨hlast, ?_⟩
  show (enc.encodeFrom enc.start 1 lines).2.autostart = _ ↔ _
  rw [hlast]
  constructor
  · intro hsame before line after start hlines haccepted hafter hdirected
    rw [hlines, getLast?_filterMap_append _ _ _ hafter, haccepted,
      getLast?_filterMap_append _ _ _ (fun later hlater => hnone (hafter later hlater)),
      hdirected] at hsame
    exact hsame.symm
  · intro hcondition
    rcases exists_last_of_filterMap acceptedStart? lines with
      hall | ⟨before, line, after, start, hlines, haccepted, hafter⟩
    · rw [List.filterMap_eq_nil_iff.mpr hall,
        List.filterMap_eq_nil_iff.mpr fun line hline => hnone (hall line hline)]
    · have hbefore := hcondition before line after start hlines haccepted hafter
      rw [hlines, getLast?_filterMap_append _ _ _ hafter, haccepted,
        getLast?_filterMap_append _ _ _ (fun later hlater => hnone (hafter later hlater))]
      cases hdirected : directedStart? line with
      | none => rw [hbefore hdirected]; rfl
      | some start' =>
        have hstart := (acceptedStart?_of_directedStart? hdirected).symm.trans haccepted
        rw [hstart]
        rfl

/-- Case, a sign and further words do not matter, and a directive without a number is passed over. -/
theorem last_directive_with_number :
    ∃ program,
      (encodeListing {} ["#AutoStart +20 here".toList, "CLS".toList,
        "#autostart ten".toList]).outcome = .ok program ∧ program.autostart = some 20 := by
  have hlisting : (encodeListing {} ["#AutoStart +20 here".toList, "CLS".toList,
      "#autostart ten".toList]).outcome.toOption.map (fun _ => ()) = some () := by
    decide +kernel
  obtain ⟨program, hprogram, -⟩ := Attempt.exists_of_toOption_map hlisting
  have hlast : (["#AutoStart +20 here".toList, "CLS".toList, "#autostart ten".toList].filterMap
      SourceLine.acceptedStart?).getLast? = some 20 := by
    decide +kernel
  exact ⟨program, hprogram, (autostart_by_directives_iff hprogram).1.trans hlast⟩

/-- A comment whose first word is longer than that of a directive sets the line to start at. -/
theorem longer_word_sets_start :
    ["#autostarter 30".toList, "CLS".toList].filterMap SourceLine.directedStart? = [] ∧
      ∃ program, (encodeListing {} ["#autostarter 30".toList, "CLS".toList]).outcome = .ok program ∧
        program.autostart = some 30 :=
  ⟨by decide +kernel, Attempt.exists_of_toOption_map (by decide +kernel)⟩

end SpectrumBasic
