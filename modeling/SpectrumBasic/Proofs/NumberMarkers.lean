import SpectrumBasic.Proofs.EncodedLines
import SpectrumBasic.Proofs.StoredText

/-!
# Markers

A hidden number is known by the marker in front of it, and literal text can hold that byte as well.
So a marker in a payload is that of a number (`MarksNumber`) only as long as no statement has the
character that is stored as one.

Behind some bytes, `Hidden.due` tells how many bytes of a hidden number are still to come. Where none
are, a reader takes a marker for one. Going through a payload lexeme by lexeme, it meets the marker of
each number and no other (`marksNumber_of_due_eq_zero`), until a lexeme forges one
(`exists_forged_marker`).
-/

namespace SpectrumBasic

/-! ## Bytes of hidden numbers -/

namespace Hidden

/-- The character that is stored as the marker. -/
def markerChar : Char := '\x0e'

theorem charByte_eq_marker_iff {c : Char} : charByte c = marker ↔ c = markerChar :=
  charByte_eq_iff (x := markerChar) (by decide) (by decide)

theorem marker_mem_textBytes_iff {text : Text} : marker ∈ textBytes text ↔ markerChar ∈ text := by
  rw [textBytes, List.mem_map]
  constructor
  · rintro ⟨c, hc, hmarker⟩
    rwa [← charByte_eq_marker_iff.mp hmarker]
  · intro h
    exact ⟨markerChar, h, rfl⟩

/-- How many bytes of a hidden number are to come behind some bytes, if `before` of them are to come
in front. -/
def due (before : Nat) (bytes : Bytes) : Nat :=
  bytes.foldl (fun left b => if left = 0 then (if b = marker then size else 0) else left - 1) before

theorem due_append (before : Nat) (front back : Bytes) :
    due before (front ++ back) = due (due before front) back := List.foldl_append

/-- A hidden number takes up the bytes that are to come, whatever they are. -/
theorem due_of_length_le {before : Nat} {bytes : Bytes} (h : bytes.length ≤ before) :
    due before bytes = before - bytes.length := by
  induction bytes generalizing before with
  | nil => rfl
  | cons b bytes ih =>
    rw [List.length_cons] at h
    show due (if before = 0 then _ else before - 1) bytes = _
    rw [if_neg (by omega), ih (by omega), List.length_cons]
    omega

/-- A marker is followed by the bytes of a hidden number. -/
theorem due_marker_cons (bytes : Bytes) : due 0 (marker :: bytes) = due size bytes := rfl

theorem due_of_not_mem {bytes : Bytes} (h : marker ∉ bytes) : due 0 bytes = 0 := by
  induction bytes with
  | nil => rfl
  | cons b bytes ih =>
    rw [List.mem_cons, not_or] at h
    show due (if b = marker then size else 0) bytes = 0
    rw [if_neg (Ne.symm h.1), ih h.2]

theorem due_pack (value : Number) : due size (pack value) = 0 := by
  rw [due_of_length_le (Nat.le_of_eq (length_pack value)), length_pack, Nat.sub_self]

/-- A marker behind bytes without one lies in what follows them. -/
theorem split_of_not_mem {plain rest front back : Bytes} (h : marker ∉ plain)
    (heq : plain ++ rest = front ++ marker :: back) :
    ∃ front', front = plain ++ front' ∧ rest = front' ++ marker :: back := by
  rcases append_eq_append_cons heq with hrest | ⟨more, rfl⟩
  · exact hrest
  · -- otherwise the marker would be among them
    exact absurd (List.mem_append_right front List.mem_cons_self) h

/-- A marker behind a packed number that lies in no hidden number follows the packed number. -/
theorem split_pack {value : Number} {rest front back : Bytes}
    (heq : pack value ++ rest = front ++ marker :: back) (hdue : due size front = 0) :
    ∃ front', front = pack value ++ front' ∧ rest = front' ++ marker :: back := by
  have hlength : size ≤ front.length := by
    refine Nat.le_of_not_lt fun hlt => ?_
    rw [due_of_length_le (Nat.le_of_lt hlt)] at hdue
    omega
  rcases List.append_eq_append_iff.mp heq with ⟨front', hfront, hrest⟩ | ⟨middle, hpack, hback⟩
  · exact ⟨front', hfront, hrest⟩
  · have hnil : middle = [] := by
      have hsize := congrArg List.length hpack
      rw [length_pack, List.length_append] at hsize
      exact List.length_eq_zero_iff.mp (by omega)
    rw [hnil, List.append_nil] at hpack
    rw [hnil, List.nil_append] at hback
    exact ⟨[], by rw [hpack, List.append_nil], hback.symm⟩

end Hidden

/-! ## Lexemes -/

namespace Literal

/-- A literal with a value is made of digits and points, and there is something in it. -/
theorem of_value? {run : Text} {value : Number} (h : value? run = some value) :
    (∀ c ∈ run, isLiteralChar c = true) ∧ run ≠ [] := by
  unfold value? at h
  split at h
  · rename_i hnumber
    simp only [isNumber, Bool.and_eq_true, List.all_eq_true] at hnumber
    refine ⟨hnumber.1.1, ?_⟩
    rintro rfl
    exact absurd hnumber.1.2 Bool.false_ne_true
  · cases h

theorem markerChar_not_mem {run : Text} (h : ∀ c ∈ run, isLiteralChar c = true) :
    Hidden.markerChar ∉ run :=
  fun hmem => absurd (h _ hmem) (by decide)

theorem marker_not_mem_textBytes {run : Text} (h : ∀ c ∈ run, isLiteralChar c = true) :
    Hidden.marker ∉ textBytes run :=
  fun hmem => markerChar_not_mem h (Hidden.marker_mem_textBytes_iff.mp hmem)

end Literal

namespace Lexeme

/-- What holds of a lexeme that was read with the standard table: the value of a number is that of its
literal, and a keyword has the code of one. -/
def Sound : Lexeme → Prop
  | number literal value => Literal.value? literal = some value
  | keyword _ code _ => Keyword.firstCode ≤ code
  | _ => True

/-- Whether a lexeme that is no number has a marker among its bytes. -/
def forges : Lexeme → Bool
  | number .. => false
  | lexeme => lexeme.bytes.contains Hidden.marker

@[simp] theorem forges_quoted (text : Text) :
    (quoted text).forges = true ↔ Hidden.markerChar ∈ text := by
  simp [forges, bytes, Hidden.marker_mem_textBytes_iff]

@[simp] theorem forges_comment (text : Text) :
    (comment text).forges = true ↔ Hidden.markerChar ∈ text := by
  simp [forges, bytes, Hidden.marker_mem_textBytes_iff]

@[simp] theorem forges_remark (spelling text : Text) :
    (remark spelling text).forges = true ↔ Hidden.markerChar ∈ text := by
  have hcode : Hidden.marker ≠ Keyword.remark := by decide
  simp [forges, bytes, Hidden.marker_mem_textBytes_iff, hcode]

@[simp] theorem forges_character (c : Char) :
    (character c).forges = true ↔ Hidden.markerChar = c := by
  simp [forges, bytes, Hidden.marker_mem_textBytes_iff]

theorem forges_keyword {spelling : Text} {code : UInt8} {spaces : Nat}
    (h : Keyword.firstCode ≤ code) : ¬ (keyword spelling code spaces).forges = true := by
  have hcode : Hidden.marker ≠ code := by
    rintro rfl
    exact absurd h (by decide)
  simp [forges, bytes, hcode]

theorem marker_not_mem_bytes {lexeme : Lexeme}
    (hnumber : ∀ literal value, lexeme ≠ number literal value)
    (hforges : lexeme.forges = false) : Hidden.marker ∉ lexeme.bytes := by
  cases lexeme with
  | number literal value => exact absurd rfl (hnumber literal value)
  | _ => simpa [forges] using hforges

theorem marker_mem_bytes {lexeme : Lexeme} (h : lexeme.forges = true) :
    Hidden.marker ∈ lexeme.bytes := by
  cases lexeme with
  | number literal value => cases h
  | _ => simpa [forges] using h

theorem any_forges_brokenAt_append (c : Char) (rest : Text) (later : List Lexeme) :
    (brokenAt c rest ++ later).any forges = later.any forges := by
  unfold brokenAt
  split <;> rfl

/-- Behind a lexeme that forges no marker nothing is to come. -/
theorem due_bytes {lexeme : Lexeme} (hsound : lexeme.Sound) (hforges : lexeme.forges = false) :
    Hidden.due 0 lexeme.bytes = 0 := by
  cases lexeme with
  | number literal value =>
    have hplain := Literal.marker_not_mem_textBytes (Literal.of_value? hsound).1
    rw [bytes, Hidden.due_append, Hidden.due_of_not_mem hplain, Hidden.due_marker_cons,
      Hidden.due_pack]
  | _ => exact Hidden.due_of_not_mem (marker_not_mem_bytes (by simp) hforges)

end Lexeme

theorem Keyword.Listed.markerChar_not_mem {k kc : Keyword} {afterLetter : Bool} {word rest : Text}
    (h : k.Listed kc afterLetter word rest) : Hidden.markerChar ∉ word :=
  fun hmem => absurd (h.bounds_of_mem hmem).1 (by decide)

namespace Reading

variable {place : Place} {text : Text} {lexemes : List Lexeme}

/-- The lexemes of a statement are sound. -/
theorem sound (h : Reading .standard place text lexemes) : ∀ lexeme ∈ lexemes, lexeme.Sound := by
  have hbroken : ∀ {c : Char} {rest : Text} {later : List Lexeme},
      (∀ lexeme ∈ later, lexeme.Sound) →
      ∀ lexeme ∈ Lexeme.brokenAt c rest ++ later, lexeme.Sound := by
    intro c rest later hlater
    rw [Lexeme.brokenAt]
    split
    · exact List.forall_mem_cons.mpr ⟨trivial, hlater⟩
    · exact hlater
  induction h with
  | done => simp
  | closed hinner hrest ih => exact List.forall_mem_cons.mpr ⟨trivial, ih⟩
  | unclosed hinner => exact List.forall_mem_singleton.mpr trivial
  | number hstart hrun hend hvalue hrest ih => exact List.forall_mem_cons.mpr ⟨hvalue, ih⟩
  | comment hopens => exact List.forall_mem_singleton.mpr trivial
  | keyword hplain hread hcode hspaces hrest ih =>
    obtain ⟨k, kc, rfl, hlisted⟩ := Keyword.Listed.of_read hread
    exact hbroken (List.forall_mem_cons.mpr ⟨Table.firstCode_le_of_mem_standard hlisted.mem, ih⟩)
  | remark hplain hread => exact hbroken (List.forall_mem_singleton.mpr trivial)
  | character hplain hread hrest ih => exact hbroken (List.forall_mem_cons.mpr ⟨trivial, ih⟩)

/-- A marker is forged in a statement exactly if it has the character that is stored as one. -/
theorem any_forges_iff (h : Reading .standard place text lexemes) :
    lexemes.any Lexeme.forges = true ↔ Hidden.markerChar ∈ text := by
  induction h with
  | done => simp
  | @closed place inner rest later hinner hrest ih =>
    have hsplit : '"' :: (inner ++ '"' :: rest) = '"' :: (inner ++ ['"']) ++ rest := by simp
    rw [hsplit, List.any_cons, Bool.or_eq_true, ih, List.mem_append, Lexeme.forges_quoted]
  | unclosed hinner => rw [List.any_cons, List.any_nil, Bool.or_false, Lexeme.forges_quoted]
  | @number place c tail rest value later hstart hrun hend hvalue hrest ih =>
    rw [List.any_cons, Lexeme.forges, Bool.false_or, ih, ← List.cons_append, List.mem_append,
      or_iff_right (Literal.markerChar_not_mem hrun)]
  | comment hopens => rw [List.any_cons, List.any_nil, Bool.or_false, Lexeme.forges_comment]
  | @keyword place c tail rest code spaces later hplain hread hcode hspaces hrest ih =>
    obtain ⟨k, kc, rfl, hlisted⟩ := Keyword.Listed.of_read hread
    have hspace : Hidden.markerChar ∉ List.replicate spaces ' ' := fun hmem =>
      absurd (List.eq_of_mem_replicate hmem) (by decide)
    rw [Lexeme.any_forges_brokenAt_append, List.any_cons, Bool.or_eq_true, ih,
      or_iff_right (Lexeme.forges_keyword (Table.firstCode_le_of_mem_standard hlisted.mem)),
      ← List.cons_append, List.mem_append, or_iff_right hlisted.markerChar_not_mem, List.mem_append,
      or_iff_right hspace]
  | @remark place c tail rest hplain hread =>
    obtain ⟨k, kc, -, hlisted⟩ := Keyword.Listed.of_read hread
    rw [Lexeme.any_forges_brokenAt_append, List.any_cons, List.any_nil, Bool.or_false,
      Lexeme.forges_remark, ← List.cons_append, List.mem_append,
      or_iff_right hlisted.markerChar_not_mem]
  | @character place c rest later hplain hread hrest ih =>
    rw [Lexeme.any_forges_brokenAt_append, List.any_cons, Bool.or_eq_true, ih,
      Lexeme.forges_character, List.mem_cons]

end Reading

/-! ## Payloads -/

/-- The marker between `front` and `back` is that of a number among some lexemes: its literal stands
right before it and its value right behind. The bytes `ending` follow those of the lexemes. -/
def MarksNumber (lexemes : List Lexeme) (ending front back : Bytes) : Prop :=
  ∃ earlier literal value later, lexemes = earlier ++ .number literal value :: later ∧
    Literal.value? literal = some value ∧
    front = bytesOf earlier ++ textBytes literal ∧
    back = Hidden.pack value ++ (bytesOf later ++ ending)

namespace MarksNumber

variable {lexeme : Lexeme} {lexemes : List Lexeme} {ending front back : Bytes}

theorem cons (h : MarksNumber lexemes ending front back) (lexeme : Lexeme) :
    MarksNumber (lexeme :: lexemes) ending (lexeme.bytes ++ front) back := by
  obtain ⟨earlier, literal, value, later, rfl, hvalue, rfl, hback⟩ := h
  exact ⟨lexeme :: earlier, literal, value, later, rfl, hvalue, by simp, hback⟩

/-- The number is the first lexeme, or it is among the others. -/
theorem cons_cases (h : MarksNumber (lexeme :: lexemes) ending front back) :
    (∃ literal value, lexeme = .number literal value ∧ front = textBytes literal) ∨
      ∃ front', front = lexeme.bytes ++ front' ∧ MarksNumber lexemes ending front' back := by
  obtain ⟨earlier, literal, value, later, hlexemes, hvalue, hfront, hback⟩ := h
  cases earlier with
  | nil =>
    rw [List.nil_append, List.cons.injEq] at hlexemes
    exact .inl ⟨literal, value, hlexemes.1, hfront⟩
  | cons first earlier =>
    rw [List.cons_append, List.cons.injEq] at hlexemes
    obtain ⟨rfl, rfl⟩ := hlexemes
    rw [bytesOf_cons, List.append_assoc] at hfront
    exact .inr ⟨_, hfront, earlier, literal, value, later, rfl, hvalue, rfl, hback⟩

end MarksNumber

/-- In the bytes of a lexeme and of what follows it, a marker that lies in no hidden number is the
lexeme's own or comes later. -/
theorem Lexeme.marker_cases {lexeme : Lexeme} (hsound : lexeme.Sound)
    (hforges : lexeme.forges = false) {rest front back : Bytes}
    (heq : lexeme.bytes ++ rest = front ++ Hidden.marker :: back)
    (hdue : Hidden.due 0 front = 0) :
    (∃ literal value, lexeme = number literal value ∧ Literal.value? literal = some value ∧
        front = textBytes literal ∧ back = Hidden.pack value ++ rest) ∨
      ∃ front', front = lexeme.bytes ++ front' ∧ rest = front' ++ Hidden.marker :: back ∧
        Hidden.due 0 front' = 0 := by
  by_cases hnumber : ∃ literal value, lexeme = number literal value
  · obtain ⟨literal, value, rfl⟩ := hnumber
    have hplain := Literal.marker_not_mem_textBytes (Literal.of_value? hsound).1
    rw [bytes, List.append_assoc] at heq
    obtain ⟨front, rfl, hrest⟩ := Hidden.split_of_not_mem hplain heq
    rw [Hidden.due_append, Hidden.due_of_not_mem hplain] at hdue
    cases front with
    | nil =>
      rw [List.append_nil]
      exact .inl ⟨literal, value, rfl, hsound, rfl, (List.cons.inj hrest).2.symm⟩
    | cons b front =>
      -- the number's own marker is passed, and with it the five bytes behind it
      obtain ⟨rfl, hvalue⟩ := List.cons.inj hrest
      obtain ⟨front, rfl, hlater⟩ := Hidden.split_pack hvalue hdue
      rw [Hidden.due_marker_cons, Hidden.due_append, Hidden.due_pack] at hdue
      exact .inr ⟨front, by simp [bytes], hlater, hdue⟩
  · have hplain : Hidden.marker ∉ lexeme.bytes :=
      marker_not_mem_bytes (fun literal value h => hnumber ⟨literal, value, h⟩) hforges
    obtain ⟨front, rfl, hrest⟩ := Hidden.split_of_not_mem hplain heq
    rw [Hidden.due_append, Hidden.due_of_not_mem hplain] at hdue
    exact .inr ⟨front, rfl, hrest, hdue⟩

section Payload

variable {lexemes : List Lexeme} (hsound : ∀ lexeme ∈ lexemes, lexeme.Sound) {ending : Bytes}

include hsound

/-- Where nothing is forged, every marker that lies in no hidden number is that of a number. -/
theorem marksNumber_of_due_eq_zero (hforges : lexemes.any Lexeme.forges = false)
    (hending : Hidden.marker ∉ ending) {front back : Bytes}
    (heq : bytesOf lexemes ++ ending = front ++ Hidden.marker :: back)
    (hdue : Hidden.due 0 front = 0) : MarksNumber lexemes ending front back := by
  induction lexemes generalizing front with
  | nil =>
    rw [bytesOf_nil, List.nil_append] at heq
    rw [heq] at hending
    exact absurd (List.mem_append_right front List.mem_cons_self) hending
  | cons lexeme later ih =>
    rw [List.forall_mem_cons] at hsound
    rw [List.any_cons, Bool.or_eq_false_iff] at hforges
    rw [bytesOf_cons, List.append_assoc] at heq
    rcases Lexeme.marker_cases hsound.1 hforges.1 heq hdue with
      ⟨literal, value, rfl, hvalue, hfront, hback⟩ | ⟨front', rfl, hlater, hdue'⟩
    · exact ⟨[], literal, value, later, rfl, hvalue, hfront, hback⟩
    · exact (ih hsound.2 hforges.2 hlater hdue').cons lexeme

/-- Where a marker is forged, some marker that lies in no hidden number is not that of a number. -/
theorem exists_forged_marker (hforges : lexemes.any Lexeme.forges = true) (ending : Bytes) :
    ∃ front back, bytesOf lexemes ++ ending = front ++ Hidden.marker :: back ∧
      Hidden.due 0 front = 0 ∧ ¬ MarksNumber lexemes ending front back := by
  induction lexemes with
  | nil => cases hforges
  | cons lexeme later ih =>
    rw [List.forall_mem_cons] at hsound
    rw [List.any_cons, Bool.or_eq_true] at hforges
    rw [bytesOf_cons, List.append_assoc]
    by_cases hfirst : lexeme.forges = true
    · -- the first marker in the lexeme is forged
      obtain ⟨front, back, hbytes, hplain⟩ :=
        List.eq_append_cons_of_mem (Lexeme.marker_mem_bytes hfirst)
      refine ⟨front, back ++ (bytesOf later ++ ending), by rw [hbytes]; simp,
        Hidden.due_of_not_mem hplain, fun hmarks => ?_⟩
      rcases hmarks.cons_cases with ⟨literal, value, rfl, -⟩ | ⟨front', hfront, -⟩
      · cases hfirst
      · have hlength := congrArg List.length hfront
        rw [hbytes] at hlength
        simp at hlength
    · obtain ⟨front, back, hlater, hdue, hforged⟩ := ih hsound.2 (hforges.resolve_left hfirst)
      rw [Bool.not_eq_true] at hfirst
      refine ⟨lexeme.bytes ++ front, back, by rw [hlater, List.append_assoc], ?_, fun hmarks => ?_⟩
      · rw [Hidden.due_append, Lexeme.due_bytes hsound.1 hfirst, hdue]
      · rcases hmarks.cons_cases with ⟨literal, value, rfl, hfront⟩ | ⟨front', hfront, hmarks'⟩
        · have hlength := congrArg List.length hfront
          simp [Lexeme.bytes] at hlength
        · exact hforged (List.append_cancel_left hfront ▸ hmarks')

end Payload

end SpectrumBasic
