import SpectrumBasic.Proofs.KeywordReading
import SpectrumBasic.Statement.Lexeme

/-!
# How a statement is read

`scan` works from left to right. `Reading` lists what it can meet, one case a kind of lexeme, each
with what has to hold of the text for that lexeme to be the one read. `reading_scan` says that every
statement has a reading, and `Reading.scan_eq` that it has no other, so that a proof about `scan` can
go by cases on the reading.

A table has to be consistent for that; with an empty spelling a scan can come to nothing.
-/

namespace SpectrumBasic

/-! ## Places -/

namespace Place

theorem advance_append (place : Place) (front back : Text) :
    place.advance (front ++ back) = (place.advance front).advance back := by
  rw [advance, advance, advance, List.foldl_append]

/-- Only the last character decides about the place, and about statements the place before it. -/
theorem advance_concat (place : Place) (text : Text) (c : Char) :
    place.advance (text ++ [c]) = (place.advance text).next c := by
  rw [advance_append]
  rfl

/-- Spaces do not open a statement where none can start, and no letter stands after them. -/
theorem advance_spaces {place : Place} (count : Nat) (h : place.opensStatement = false) :
    (place.advance (List.replicate count ' ')).opensStatement = false ∧
      (0 < count → (place.advance (List.replicate count ' ')).afterLetter = false) := by
  induction count with
  | zero => exact ⟨h, fun hlt => absurd hlt (Nat.lt_irrefl 0)⟩
  | succ count ih =>
    rw [List.replicate_succ', advance_concat]
    refine ⟨?_, fun _ => rfl⟩
    rw [next, ih.1]
    decide

end Place

/-! ## One step of a scan -/

namespace Lexeme

/-- The run of digits and points at the start of `c :: rest`, where a number would start and none
can. -/
def brokenAt (c : Char) (rest : Text) : List Lexeme :=
  if startsNumber c rest then [brokenRun ((c :: rest).takeWhile Literal.isLiteralChar)] else []

/-- At the start of `c :: rest` there is no string, no number and no comment. -/
structure Plain (place : Place) (c : Char) (rest : Text) : Prop where
  unquoted : c ≠ '"'
  unnumbered : startsNumber c rest = true →
    Literal.value? ((c :: rest).takeWhile Literal.isLiteralChar) = none
  uncommented : ¬ (c = ';' ∧ place.opensStatement = true)

@[simp] theorem flatMap_source_brokenAt (c : Char) (rest : Text) :
    (brokenAt c rest).flatMap source = [] := by
  unfold brokenAt
  split <;> rfl

/-- Where nothing else stands, the word there is read, behind a broken run if there is one. -/
theorem readAt_of_plain {table : Table} {place : Place} {c : Char} {rest : Text}
    (h : Plain place c rest) :
    readAt table place c rest = brokenAt c rest ++ [wordAt table place c rest] := by
  rw [readAt, if_neg h.unquoted, brokenAt]
  cases hstart : startsNumber c rest with
  | false => rfl
  | true =>
    simp only [h.unnumbered hstart, if_true]
    rfl

/-- At a place there is a string, a number, or a word behind a broken run if there is one. -/
theorem readAt_cases (table : Table) (place : Place) (c : Char) (rest : Text) :
    (c = '"' ∧ readAt table place c rest = [quoted (quotedAt rest)]) ∨
    (∃ value, startsNumber c rest = true ∧
      Literal.value? ((c :: rest).takeWhile Literal.isLiteralChar) = some value ∧
      readAt table place c rest = [number ((c :: rest).takeWhile Literal.isLiteralChar) value]) ∨
    readAt table place c rest = brokenAt c rest ++ [wordAt table place c rest] := by
  unfold readAt brokenAt
  by_cases hquote : c = '"'
  · exact .inl ⟨hquote, if_pos hquote⟩
  · rw [if_neg hquote]
    by_cases hstart : startsNumber c rest = true
    · rw [if_pos hstart, if_pos hstart]
      dsimp only
      cases hvalue : Literal.value? ((c :: rest).takeWhile Literal.isLiteralChar) with
      | some value => exact .inr (.inl ⟨value, hstart, rfl, rfl⟩)
      | none => exact .inr (.inr rfl)
    · rw [if_neg hstart, if_neg hstart]
      exact .inr (.inr rfl)

end Lexeme

/-- What is read in front is taken off, and the scan goes on behind it. -/
theorem scan_of_readAt {table : Table} {place : Place} {c : Char} {rest taken back : Text}
    {found : List Lexeme} (hfound : Lexeme.readAt table place c rest = found)
    (htaken : found.flatMap Lexeme.source = taken) (hne : taken ≠ [])
    (htext : c :: rest = taken ++ back) :
    scan table place (c :: rest) = found ++ scan table (place.advance taken) back := by
  -- the scan drops one character less from `rest`, the first one being `c`
  have hback : rest.drop (taken.length - 1) = back := by
    obtain ⟨d, taken', rfl⟩ := List.exists_cons_of_ne_nil hne
    rw [List.cons_append, List.cons.injEq] at htext
    rw [htext.2, List.length_cons, Nat.add_sub_cancel, List.drop_left]
  rw [scan]
  simp only [hfound, htaken, hback]

theorem scan_nil (table : Table) (place : Place) : scan table place [] = [] := by
  rw [scan]

theorem scan_of_readAt_eq_all {table : Table} {place : Place} {c : Char} {rest : Text}
    {found : List Lexeme} (hfound : Lexeme.readAt table place c rest = found)
    (htaken : found.flatMap Lexeme.source = c :: rest) :
    scan table place (c :: rest) = found := by
  rw [scan_of_readAt hfound htaken (List.cons_ne_nil c rest) (List.append_nil _).symm, scan_nil,
    List.append_nil]

/-! ## Readings -/

/-- How a text that starts at a place is read. -/
inductive Reading (table : Table) : Place → Text → List Lexeme → Prop
  | done {place : Place} : Reading table place [] []
  /-- A string with both of its quotes. -/
  | closed {place : Place} {inner rest : Text} {later : List Lexeme} (hinner : '"' ∉ inner)
      (hrest : Reading table (place.advance ('"' :: (inner ++ ['"']))) rest later) :
      Reading table place ('"' :: (inner ++ '"' :: rest))
        (.quoted ('"' :: (inner ++ ['"'])) :: later)
  /-- A string that the end of the line cuts off. -/
  | unclosed {place : Place} {inner : Text} (hinner : '"' ∉ inner) :
      Reading table place ('"' :: inner) [.quoted ('"' :: inner)]
  /-- A number, as far as digits and points go. -/
  | number {place : Place} {c : Char} {tail rest : Text} {value : Number} {later : List Lexeme}
      (hstart : Lexeme.startsNumber c (tail ++ rest) = true)
      (hrun : ∀ d ∈ c :: tail, Literal.isLiteralChar d = true)
      (hend : rest.head?.any Literal.isLiteralChar = false)
      (hvalue : Literal.value? (c :: tail) = some value)
      (hrest : Reading table (place.advance (c :: tail)) rest later) :
      Reading table place (c :: (tail ++ rest)) (.number (c :: tail) value :: later)
  | comment {place : Place} {rest : Text} (hopens : place.opensStatement = true) :
      Reading table place (';' :: rest) [.comment (';' :: rest)]
  /-- A keyword with the spaces after it. -/
  | keyword {place : Place} {c : Char} {tail rest : Text} {code : UInt8} {spaces : Nat}
      {later : List Lexeme}
      (hplain : Lexeme.Plain place c (tail ++ (List.replicate spaces ' ' ++ rest)))
      (hread : table.read place.afterLetter (c :: (tail ++ (List.replicate spaces ' ' ++ rest)))
        = .ok (some (c :: tail, code)))
      (hcode : code ≠ Keyword.remark) (hspaces : rest.head? ≠ some ' ')
      (hrest : Reading table (place.advance (c :: tail ++ List.replicate spaces ' ')) rest later) :
      Reading table place (c :: (tail ++ (List.replicate spaces ' ' ++ rest)))
        (Lexeme.brokenAt c (tail ++ (List.replicate spaces ' ' ++ rest))
          ++ .keyword (c :: tail) code spaces :: later)
  | remark {place : Place} {c : Char} {tail rest : Text}
      (hplain : Lexeme.Plain place c (tail ++ rest))
      (hread : table.read place.afterLetter (c :: (tail ++ rest))
        = .ok (some (c :: tail, Keyword.remark))) :
      Reading table place (c :: (tail ++ rest))
        (Lexeme.brokenAt c (tail ++ rest) ++ [.remark (c :: tail) rest])
  | character {place : Place} {c : Char} {rest : Text} {later : List Lexeme}
      (hplain : Lexeme.Plain place c rest)
      (hread : table.read place.afterLetter (c :: rest) = .ok none)
      (hrest : Reading table (place.next c) rest later) :
      Reading table place (c :: rest) (Lexeme.brokenAt c rest ++ .character c :: later)

section Steps

variable {table : Table} {place : Place} {c : Char} {inner tail rest : Text} {code : UInt8}

/-- What `p` picks out is taken up to the first that it does not pick out. -/
theorem span_append {α : Type} {p : α → Bool} {front back : List α} (hall : ∀ d ∈ front, p d = true)
    (hstop : back.head?.any p = false) :
    (front ++ back).takeWhile p = front ∧ (front ++ back).dropWhile p = back := by
  rw [List.takeWhile_append_of_pos hall, List.dropWhile_append_of_pos hall]
  cases back with
  | nil => exact ⟨List.append_nil front, rfl⟩
  | cons d back =>
    have hd : ¬ p d = true := by simpa using hstop
    rw [List.takeWhile_cons_of_neg hd, List.dropWhile_cons_of_neg hd, List.append_nil]
    exact ⟨rfl, rfl⟩

/-- An element of two lists in a row is one of the second, behind all of the first, or one of the first. -/
theorem append_eq_append_cons {α : Type} {first second front back : List α} {a : α}
    (h : first ++ second = front ++ a :: back) :
    (∃ front', front = first ++ front' ∧ second = front' ++ a :: back) ∨
      ∃ more, first = front ++ a :: more := by
  rcases List.append_eq_append_iff.mp h with hsecond | ⟨more, hfirst, hmore⟩
  · exact .inl hsecond
  · cases more with
    | nil => exact .inl ⟨[], by rw [hfirst, List.append_nil, List.append_nil], hmore.symm⟩
    | cons b more =>
      obtain ⟨rfl, -⟩ := List.cons.inj hmore
      exact .inr ⟨more, hfirst⟩

/-- Everything in a string is taken up to its closing quote. -/
theorem quotedAt_append (hinner : '"' ∉ inner) (hrest : rest.head?.all (· = '"') = true) :
    Lexeme.quotedAt (inner ++ rest) = '"' :: (inner ++ rest.take 1) := by
  have hall : ∀ d ∈ inner, decide (d ≠ '"') = true := by
    intro d hd
    exact decide_eq_true fun h => hinner (h ▸ hd)
  have hstop : rest.head?.any (fun d => decide (d ≠ '"')) = false := by
    cases rest with
    | nil => rfl
    | cons d rest => simpa using hrest
  rw [Lexeme.quotedAt, (span_append hall hstop).1, (span_append hall hstop).2]

/-- A closed string is read up to its closing quote. -/
theorem scan_closed (hinner : '"' ∉ inner) :
    scan table place ('"' :: (inner ++ '"' :: rest)) =
      .quoted ('"' :: (inner ++ ['"']))
        :: scan table (place.advance ('"' :: (inner ++ ['"']))) rest := by
  have hread : Lexeme.readAt table place '"' (inner ++ '"' :: rest)
      = [.quoted ('"' :: (inner ++ ['"']))] := by
    rw [Lexeme.readAt, if_pos rfl, quotedAt_append hinner rfl]
    rfl
  refine scan_of_readAt hread ?_ (List.cons_ne_nil _ _) ?_
  · simp [Lexeme.source]
  · simp

theorem scan_unclosed (hinner : '"' ∉ inner) :
    scan table place ('"' :: inner) = [.quoted ('"' :: inner)] := by
  have hquoted := quotedAt_append hinner (show ([] : Text).head?.all (· = '"') = true from rfl)
  rw [List.append_nil, List.take_nil, List.append_nil] at hquoted
  have hread : Lexeme.readAt table place '"' inner = [.quoted ('"' :: inner)] := by
    rw [Lexeme.readAt, if_pos rfl, hquoted]
  exact scan_of_readAt_eq_all hread (by simp [Lexeme.source])

theorem ne_quote_of_startsNumber (h : Lexeme.startsNumber c rest = true) : c ≠ '"' := by
  rintro rfl
  simp [Lexeme.startsNumber] at h

theorem isLiteralChar_of_startsNumber (h : Lexeme.startsNumber c rest = true) :
    Literal.isLiteralChar c = true := by
  simp only [Lexeme.startsNumber, Bool.or_eq_true, Bool.and_eq_true] at h
  simp only [Literal.isLiteralChar, Bool.or_eq_true]
  exact h.imp id And.left

/-- A number is read as far as digits and points go. -/
theorem scan_number {value : Number} (hstart : Lexeme.startsNumber c (tail ++ rest) = true)
    (hrun : ∀ d ∈ c :: tail, Literal.isLiteralChar d = true)
    (hend : rest.head?.any Literal.isLiteralChar = false)
    (hvalue : Literal.value? (c :: tail) = some value) :
    scan table place (c :: (tail ++ rest)) =
      .number (c :: tail) value :: scan table (place.advance (c :: tail)) rest := by
  have htaken : (c :: (tail ++ rest)).takeWhile Literal.isLiteralChar = c :: tail := by
    rw [← List.cons_append]
    exact (span_append hrun hend).1
  have hread : Lexeme.readAt table place c (tail ++ rest) = [.number (c :: tail) value] := by
    rw [Lexeme.readAt, if_neg (ne_quote_of_startsNumber hstart), if_pos hstart, htaken]
    simp only [hvalue]
  exact scan_of_readAt hread (by simp [Lexeme.source]) (List.cons_ne_nil _ _) (by simp)

theorem scan_comment (hopens : place.opensStatement = true) :
    scan table place (';' :: rest) = [.comment (';' :: rest)] := by
  have hstart : ¬ Lexeme.startsNumber ';' rest = true := Bool.false_ne_true
  have hread : Lexeme.readAt table place ';' rest = [.comment (';' :: rest)] := by
    rw [Lexeme.readAt, if_neg (by decide), if_neg hstart, Lexeme.wordAt, if_pos ⟨rfl, hopens⟩]
  exact scan_of_readAt_eq_all hread (by simp [Lexeme.source])

/-- The word at a plain place is read, behind a broken run if there is one. -/
theorem scan_of_plain {word : Lexeme} {taken back : Text} (hplain : Lexeme.Plain place c rest)
    (hword : Lexeme.wordAt table place c rest = word) (htaken : word.source = taken)
    (hne : taken ≠ []) (htext : c :: rest = taken ++ back) :
    scan table place (c :: rest) =
      Lexeme.brokenAt c rest ++ word :: scan table (place.advance taken) back := by
  have hread : Lexeme.readAt table place c rest = Lexeme.brokenAt c rest ++ [word] := by
    rw [Lexeme.readAt_of_plain hplain, hword]
  rw [scan_of_readAt hread (by simp [htaken]) hne htext, List.append_assoc]
  rfl

/-- A keyword is read with the spaces after it. -/
theorem scan_keyword {spaces : Nat}
    (hplain : Lexeme.Plain place c (tail ++ (List.replicate spaces ' ' ++ rest)))
    (hread : table.read place.afterLetter (c :: (tail ++ (List.replicate spaces ' ' ++ rest)))
      = .ok (some (c :: tail, code)))
    (hcode : code ≠ Keyword.remark) (hspaces : rest.head? ≠ some ' ') :
    scan table place (c :: (tail ++ (List.replicate spaces ' ' ++ rest))) =
      Lexeme.brokenAt c (tail ++ (List.replicate spaces ' ' ++ rest))
        ++ .keyword (c :: tail) code spaces
          :: scan table (place.advance (c :: tail ++ List.replicate spaces ' ')) rest := by
  have hall : ∀ d ∈ List.replicate spaces ' ', decide (d = ' ') = true := by
    intro d hd
    exact decide_eq_true (List.eq_of_mem_replicate hd)
  have hstop : rest.head?.any (fun d => decide (d = ' ')) = false := by
    cases rest with
    | nil => rfl
    | cons d rest => simpa using hspaces
  have hafter : (c :: (tail ++ (List.replicate spaces ' ' ++ rest))).drop (c :: tail).length
      = List.replicate spaces ' ' ++ rest := by
    rw [← List.cons_append, List.drop_left]
  have hword : Lexeme.wordAt table place c (tail ++ (List.replicate spaces ' ' ++ rest))
      = .keyword (c :: tail) code spaces := by
    rw [Lexeme.wordAt, if_neg hplain.uncommented, hread]
    simp only [if_neg hcode, hafter, (span_append hall hstop).1, List.length_replicate]
  refine scan_of_plain hplain hword rfl ?_ ?_
  · simp
  · simp

/-- A remark is read to the end. -/
theorem scan_remark (hplain : Lexeme.Plain place c (tail ++ rest))
    (hread : table.read place.afterLetter (c :: (tail ++ rest))
      = .ok (some (c :: tail, Keyword.remark))) :
    scan table place (c :: (tail ++ rest)) =
      Lexeme.brokenAt c (tail ++ rest) ++ [.remark (c :: tail) rest] := by
  have hafter : (c :: (tail ++ rest)).drop (c :: tail).length = rest := by
    rw [← List.cons_append, List.drop_left]
  have hword : Lexeme.wordAt table place c (tail ++ rest) = .remark (c :: tail) rest := by
    rw [Lexeme.wordAt, if_neg hplain.uncommented, hread]
    simp only [if_true, hafter]
  have hsource : (Lexeme.remark (c :: tail) rest).source = c :: (tail ++ rest) := rfl
  rw [scan_of_plain hplain hword hsource (List.cons_ne_nil _ _) (List.append_nil _).symm, scan_nil]

theorem scan_character (hplain : Lexeme.Plain place c rest)
    (hread : table.read place.afterLetter (c :: rest) = .ok none) :
    scan table place (c :: rest) =
      Lexeme.brokenAt c rest ++ .character c :: scan table (place.next c) rest := by
  have hword : Lexeme.wordAt table place c rest = .character c := by
    rw [Lexeme.wordAt, if_neg hplain.uncommented, hread]
  exact scan_of_plain hplain hword rfl (List.cons_ne_nil _ _) rfl

end Steps

/-- A scan finds the reading of a text. -/
theorem Reading.scan_eq {table : Table} {place : Place} {text : Text} {lexemes : List Lexeme}
    (h : Reading table place text lexemes) : scan table place text = lexemes := by
  induction h with
  | done => exact scan_nil _ _
  | closed hinner _ ih => rw [scan_closed hinner, ih]
  | unclosed hinner => exact scan_unclosed hinner
  | number hstart hrun hend hvalue _ ih => rw [scan_number hstart hrun hend hvalue, ih]
  | comment hopens => exact scan_comment hopens
  | keyword hplain hread hcode hspaces _ ih => rw [scan_keyword hplain hread hcode hspaces, ih]
  | remark hplain hread => exact scan_remark hplain hread
  | character hplain hread _ ih => rw [scan_character hplain hread, ih]

/-! ## Every text has a reading -/

/-- What is left after the characters that `p` picks out starts with none of them. -/
theorem head?_dropWhile_any (p : Char → Bool) (text : Text) :
    (text.dropWhile p).head?.any p = false := by
  have h := List.head?_dropWhile_not p text
  cases hhead : (text.dropWhile p).head? with
  | none => rfl
  | some d =>
    rw [hhead] at h
    simpa using h

theorem of_mem_takeWhile {p : Char → Bool} {text : Text} {d : Char} (h : d ∈ text.takeWhile p) :
    p d = true :=
  List.all_eq_true.mp List.all_takeWhile d h

/-- Spaces in front of a text, and what follows them. -/
theorem spaces_append_cases (text : Text) :
    ∃ spaces rest, text = List.replicate spaces ' ' ++ rest ∧ rest.head? ≠ some ' ' := by
  refine ⟨(text.takeWhile (· = ' ')).length, text.dropWhile (· = ' '), ?_, ?_⟩
  · have hall : text.takeWhile (· = ' ')
        = List.replicate (text.takeWhile (· = ' ')).length ' ' := by
      rw [List.eq_replicate_iff]
      exact ⟨rfl, fun d hd => of_decide_eq_true (of_mem_takeWhile hd)⟩
    rw [← hall, List.takeWhile_append_dropWhile]
  · intro hspace
    have hstop := head?_dropWhile_any (· = ' ') text
    rw [hspace] at hstop
    simp at hstop

section Existence

variable {table : Table} {place : Place} {c : Char} {rest : Text}

/-- A text that starts with a quote has a reading, if what can follow the string has one. -/
theorem exists_reading_quote
    (hlater : ∀ place' back, back.length ≤ rest.length →
      ∃ lexemes, Reading table place' back lexemes) :
    ∃ lexemes, Reading table place ('"' :: rest) lexemes := by
  by_cases hclosed : '"' ∈ rest
  · obtain ⟨inner, back, rfl, hinner⟩ := List.eq_append_cons_of_mem hclosed
    obtain ⟨later, hback⟩ := hlater (place.advance ('"' :: (inner ++ ['"']))) back (by simp; omega)
    exact ⟨_, .closed hinner hback⟩
  · exact ⟨_, .unclosed hclosed⟩

/-- A text that starts with a number has a reading, if what can follow the number has one. -/
theorem exists_reading_number {value : Number} (hstart : Lexeme.startsNumber c rest = true)
    (hvalue : Literal.value? ((c :: rest).takeWhile Literal.isLiteralChar) = some value)
    (hlater : ∀ place' back, back.length ≤ rest.length →
      ∃ lexemes, Reading table place' back lexemes) :
    ∃ lexemes, Reading table place (c :: rest) lexemes := by
  have hliteral := isLiteralChar_of_startsNumber hstart
  rw [List.takeWhile_cons_of_pos hliteral] at hvalue
  -- the number and what follows it, as the constructor wants them
  generalize htail : rest.takeWhile Literal.isLiteralChar = tail at hvalue
  generalize hback : rest.dropWhile Literal.isLiteralChar = back
  have hrest : rest = tail ++ back := by
    rw [← htail, ← hback, List.takeWhile_append_dropWhile]
  have hrun : ∀ d ∈ c :: tail, Literal.isLiteralChar d = true := by
    intro d hd
    rcases List.mem_cons.mp hd with rfl | hd
    · exact hliteral
    · exact of_mem_takeWhile (htail ▸ hd)
  have hend : back.head?.any Literal.isLiteralChar = false := by
    rw [← hback]
    exact head?_dropWhile_any _ rest
  subst hrest
  obtain ⟨later, hlater⟩ := hlater (place.advance (c :: tail)) back (by simp)
  exact ⟨_, .number hstart hrun hend hvalue hlater⟩

/-- A plain text has a reading, if what can follow its first word has one. -/
theorem exists_reading_word (hc : table.Consistent) (hplain : Lexeme.Plain place c rest)
    (hlater : ∀ place' back, back.length ≤ rest.length →
      ∃ lexemes, Reading table place' back lexemes) :
    ∃ lexemes, Reading table place (c :: rest) lexemes := by
  rcases hc.read_eq place.afterLetter (c :: rest) with hread | ⟨word, code, hread⟩
  · obtain ⟨later, hlater⟩ := hlater (place.next c) rest (Nat.le_refl _)
    exact ⟨_, .character hplain hread hlater⟩
  · obtain ⟨k, -, after, htext, hadmits, hspelled, -, -⟩ := Table.read_eq_some hread
    cases word with
    | nil =>
      -- no keyword is spelled with no characters
      have hlength := hadmits.length_eq
      exact absurd (List.length_eq_zero_iff.mp hlength.symm) hspelled
    | cons d tail =>
      rw [List.cons_append, List.cons.injEq] at htext
      obtain ⟨rfl, rfl⟩ := htext
      by_cases hcode : code = Keyword.remark
      · subst hcode
        exact ⟨_, .remark hplain hread⟩
      · obtain ⟨spaces, back, rfl, hspaces⟩ := spaces_append_cases after
        obtain ⟨later, hlater⟩ :=
          hlater (place.advance (c :: tail ++ List.replicate spaces ' ')) back (by simp; omega)
        exact ⟨_, .keyword hplain hread hcode hspaces hlater⟩

/-- Every text has a reading. -/
theorem exists_reading (hc : table.Consistent) (place : Place) (text : Text) :
    ∃ lexemes, Reading table place text lexemes := by
  induction hn : text.length using Nat.strongRecOn generalizing place text with
  | ind n ih =>
  match text, hn with
  | [], _ => exact ⟨[], .done⟩
  | c :: rest, hn =>
    -- whatever is read in front, what follows is shorter
    have hlater : ∀ place' back, back.length ≤ rest.length →
        ∃ lexemes, Reading table place' back lexemes := fun place' back hle =>
      ih back.length (by rw [← hn, List.length_cons]; omega) place' back rfl
    by_cases hquote : c = '"'
    · subst hquote
      exact exists_reading_quote hlater
    · by_cases hcomment : c = ';' ∧ place.opensStatement = true
      · obtain ⟨rfl, hopens⟩ := hcomment
        exact ⟨_, .comment hopens⟩
      · cases hvalue : Literal.value? ((c :: rest).takeWhile Literal.isLiteralChar) with
        | none => exact exists_reading_word hc ⟨hquote, fun _ => hvalue, hcomment⟩ hlater
        | some value =>
          by_cases hstart : Lexeme.startsNumber c rest = true
          · exact exists_reading_number hstart hvalue hlater
          · exact exists_reading_word hc ⟨hquote, fun h => absurd h hstart, hcomment⟩ hlater

/-- The lexemes that a scan finds are a reading. -/
theorem reading_scan (hc : table.Consistent) (place : Place) (text : Text) :
    Reading table place text (scan table place text) := by
  obtain ⟨lexemes, hreading⟩ := exists_reading hc place text
  rw [hreading.scan_eq]
  exact hreading

end Existence

end SpectrumBasic
