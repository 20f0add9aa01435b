import SpectrumBasic.Proofs.TableEntries

/-!
# The longest spelling at a position

What a table reads at a position of a text, said of the text and the spellings alone. A spelling is
admissible at a position if the text has it there, letter case aside, and as a word of its own if it
starts with a letter (`Text.AdmissibleAt`). Of the admissible spellings the longest one is read
(`Consistent.readAt_eq_some_iff`). Two of the same length are the same text there, and so they have one
code: no order of the entries can be told from what is read.
-/

namespace SpectrumBasic

/-! ## Admissible spellings -/

/-- A spelling in upper case can be read at a position of a text. -/
structure Text.AdmissibleAt (text : Text) (position : Nat) (spelling : Text) : Prop where
  inside : position + spelling.length ≤ text.length
  spelled : Text.upper ((text.drop position).take spelling.length) = spelling
  before : spelling.head?.any Char.isAlpha = true →
    0 < position → text[position - 1]?.any Char.isAlpha = false
  after : spelling.head?.any Char.isAlpha = true →
    text[position + spelling.length]?.any Char.isAlphanum = false

instance (text : Text) (position : Nat) (spelling : Text) :
    Decidable (text.AdmissibleAt position spelling) :=
  decidable_of_iff (position + spelling.length ≤ text.length ∧
      Text.upper ((text.drop position).take spelling.length) = spelling ∧
      (spelling.head?.any Char.isAlpha = true →
        0 < position → text[position - 1]?.any Char.isAlpha = false) ∧
      (spelling.head?.any Char.isAlpha = true →
        text[position + spelling.length]?.any Char.isAlphanum = false))
    ⟨fun h => ⟨h.1, h.2.1, h.2.2.1, h.2.2.2⟩, fun h => ⟨h.inside, h.spelled, h.before, h.after⟩⟩

/-- The last character in front of a position is the one before it, if there is one. -/
theorem Text.any_getLast?_take {text : Text} {position : Nat} (h : position ≤ text.length)
    (p : Char → Bool) :
    (text.take position).getLast?.any p = false ↔
      (0 < position → text[position - 1]?.any p = false) := by
  rw [List.getLast?_take]
  split
  · rename_i hzero
    simp [hzero]
  · have hlt : position - 1 < text.length := by omega
    have hpos : 0 < position := by omega
    rw [List.getElem?_eq_getElem hlt]
    simp [hpos]

namespace Keyword

variable {k : Keyword} {text : Text} {position : Nat}

/-- A keyword starts with a letter if its spelling in upper case does. -/
theorem alphabetic?_eq_true_iff :
    k.alphabetic? = some true ↔ k.spelling.upper.head?.any Char.isAlpha = true := by
  unfold alphabetic?
  cases k.spelling with
  | nil => simp [Text.upper]
  | cons c rest =>
    have halpha : c.toUpper.isAlpha = c.isAlpha := isAlpha_eq_of_toUpper_eq (toUpper_toUpper c)
    simp [Text.upper, halpha]

/-- A spelling is admissible at a position if its keyword fits the rest of the text. -/
theorem admissibleAt_iff_fits :
    text.AdmissibleAt position k.spelling.upper ↔
      position ≤ text.length ∧
        k.fits ((text.take position).getLast?.any Char.isAlpha) (text.drop position) = true := by
  constructor
  · intro h
    have hle : position ≤ text.length := Nat.le_of_add_right_le h.inside
    refine ⟨hle, fits_iff.mpr ⟨(text.drop position).take k.spelling.length,
      (text.drop position).drop k.spelling.length, (List.take_append_drop ..).symm, ?_, ?_, ?_⟩⟩
    · have hspelled := h.spelled
      rwa [Text.length_upper] at hspelled
    · intro halpha
      rw [Text.any_getLast?_take hle]
      exact h.before (alphabetic?_eq_true_iff.mp halpha)
    · intro halpha
      rw [List.drop_drop, List.head?_drop]
      have hafter := h.after (alphabetic?_eq_true_iff.mp halpha)
      rwa [Text.length_upper] at hafter
  · rintro ⟨hle, hfits⟩
    obtain ⟨word, rest, htext, hadmits⟩ := fits_iff.mp hfits
    have hlength := hadmits.length_eq
    have hword : (text.drop position).take k.spelling.length = word := by
      rw [htext, ← hlength, List.take_left]
    have hrest : text[position + k.spelling.length]? = rest.head? := by
      rw [← List.getElem?_drop, htext, ← hlength, List.getElem?_append_right (Nat.le_refl _),
        Nat.sub_self, List.head?_eq_getElem?]
    refine ⟨?_, ?_, ?_, ?_⟩
    · have htotal := congrArg List.length htext
      rw [List.length_drop, List.length_append] at htotal
      rw [Text.length_upper]
      omega
    · rw [Text.length_upper, hword, hadmits.spelled]
    · intro halpha
      rw [← Text.any_getLast?_take hle]
      exact hadmits.before (alphabetic?_eq_true_iff.mpr halpha)
    · intro halpha
      rw [Text.length_upper, hrest]
      exact hadmits.after (alphabetic?_eq_true_iff.mpr halpha)

end Keyword

/-! ## What is read -/

namespace Table

variable {table : Table} {text word : Text} {position : Nat} {code : UInt8}

/-- Nothing is read at a position if no spelling is admissible there. -/
theorem readAt_eq_none_iff :
    table.readAt text position = .ok none ↔
      ∀ k ∈ table.keywords, ¬ text.AdmissibleAt position k.spelling.upper := by
  simp only [Keyword.admissibleAt_iff_fits]
  unfold readAt
  by_cases hle : position ≤ text.length
  · rw [if_pos hle, read_eq_none_iff]
    simp [hle]
  · simp [hle]

namespace Consistent

variable (hc : table.Consistent)

include hc

/-- A consistent table always has an answer. -/
theorem exists_readAt (text : Text) (position : Nat) :
    ∃ found, table.readAt text position = .ok found := by
  unfold readAt
  split
  · rcases hc.read_eq ((text.take position).getLast?.any Char.isAlpha) (text.drop position) with
      hnone | ⟨word, code, hsome⟩
    · exact ⟨none, hnone⟩
    · exact ⟨some (word, code), hsome⟩
  · exact ⟨none, rfl⟩

/-- The longest admissible spelling is read. -/
theorem readAt_eq_some_iff :
    table.readAt text position = .ok (some (word, code)) ↔
      ∃ k ∈ table.keywords, text.AdmissibleAt position k.spelling.upper ∧
        (∀ k' ∈ table.keywords, text.AdmissibleAt position k'.spelling.upper →
          k'.spelling.length ≤ k.spelling.length) ∧
        word = (text.drop position).take k.spelling.length ∧ code = k.code := by
  simp only [Keyword.admissibleAt_iff_fits]
  unfold readAt
  by_cases hle : position ≤ text.length
  · rw [if_pos hle]
    simp only [hle, true_and]
    constructor
    · intro h
      obtain ⟨k, hk, rest, htext, hadmits, -, hcode, hlongest⟩ := read_eq_some h
      refine ⟨k, hk, Keyword.fits_iff.mpr ⟨word, rest, htext, hadmits⟩, hlongest, ?_, hcode.symm⟩
      rw [htext, ← hadmits.length_eq, List.take_left]
    · rintro ⟨k, hk, hfits, hlongest, rfl, rfl⟩
      obtain ⟨word, rest, htext, hadmits⟩ := Keyword.fits_iff.mp hfits
      rw [htext] at hlongest ⊢
      rw [← hadmits.length_eq, List.take_left]
      exact hc.read_of_admits hk hadmits hlongest
  · simp [hle]

/-- What is read has characters, and their code is the one that is read. -/
theorem code?_of_readAt (h : table.readAt text position = .ok (some (word, code))) :
    word ≠ [] ∧ table.code? word = some code := by
  obtain ⟨k, hk, hadmissible, -, rfl, rfl⟩ := hc.readAt_eq_some_iff.mp h
  have hspelled := hadmissible.spelled
  rw [Text.length_upper] at hspelled
  refine ⟨?_, (code?_eq_some_iff hc.sameCode).mpr ⟨k, hk, hspelled.symm, rfl⟩⟩
  intro hnil
  rw [hnil] at hspelled
  exact hc.spelled k hk (List.map_eq_nil_iff.mp hspelled.symm)

/-- Tables of the same keywords read the same. -/
theorem readAt_eq_of_mem_iff {table' : Table} (hc' : table'.Consistent)
    (h : ∀ k, k ∈ table'.keywords ↔ k ∈ table.keywords) (text : Text) (position : Nat) :
    table'.readAt text position = table.readAt text position := by
  obtain ⟨found, hfound⟩ := hc.exists_readAt text position
  rw [hfound]
  cases found with
  | none =>
    rw [readAt_eq_none_iff] at hfound ⊢
    simpa only [h] using hfound
  | some found =>
    rw [hc.readAt_eq_some_iff] at hfound
    rw [hc'.readAt_eq_some_iff]
    simpa only [h] using hfound

end Consistent

end Table

/-- **The longest admissible spelling is read.** A table of entries, none with an empty spelling, reads at
a position of a text nothing if none of their spellings is admissible there, and otherwise the characters
of the longest one, with its code. What is read is never empty and has its code in the table, and entries
in any other order make a table that reads the same. -/
theorem longest_admissible_is_read {entries : List Entry} {table : Table}
    (htable : Table.ofEntries entries = .ok table)
    (hspelled : ∀ entry ∈ entries, entry.spelling ≠ []) (text : Text) (position : Nat) :
    (∃ found, table.readAt text position = .ok found) ∧
    (table.readAt text position = .ok none ↔
      ∀ entry ∈ entries, ¬ text.AdmissibleAt position entry.spelling.upper) ∧
    (∀ word code, table.readAt text position = .ok (some (word, code)) ↔
      ∃ entry ∈ entries, text.AdmissibleAt position entry.spelling.upper ∧
        (∀ other ∈ entries, text.AdmissibleAt position other.spelling.upper →
          other.spelling.length ≤ entry.spelling.length) ∧
        word = (text.drop position).take entry.spelling.length ∧
        (code.toNat : Int) = entry.code) ∧
    (∀ word code, table.readAt text position = .ok (some (word, code)) →
      word ≠ [] ∧ table.code? word = some code) ∧
    ∀ entries', entries'.Perm entries →
      ∃ table', Table.ofEntries entries' = .ok table' ∧
        table'.readAt text position = table.readAt text position := by
  have hc := Table.consistent_of_ofEntries htable hspelled
  refine ⟨hc.exists_readAt text position, ?_, ?_, ?_, ?_⟩
  · rw [Table.readAt_eq_none_iff]
    exact Table.forall_keyword_iff htable fun spelling =>
      ¬ text.AdmissibleAt position spelling.upper
  · intro word code
    have hlongest (length : Nat) := Table.forall_keyword_iff htable fun spelling =>
      text.AdmissibleAt position spelling.upper → spelling.length ≤ length
    have hread := Table.exists_keyword_iff htable (fun spelling =>
      text.AdmissibleAt position spelling.upper ∧
        (∀ other ∈ entries, text.AdmissibleAt position other.spelling.upper →
          other.spelling.length ≤ spelling.length) ∧
        word = (text.drop position).take spelling.length) code
    simp only [and_assoc] at hread
    rw [hc.readAt_eq_some_iff]
    simpa only [hlongest] using hread
  · intro word code hread
    exact hc.code?_of_readAt hread
  · intro entries' hperm
    obtain ⟨table', htable', hkeywords⟩ := Table.ofEntries_perm hperm htable
    have hc' := Table.consistent_of_ofEntries htable' fun entry hentry =>
      hspelled entry (hperm.mem_iff.mp hentry)
    exact ⟨table', htable', hc.readAt_eq_of_mem_iff hc' (fun k => hkeywords.mem_iff) text position⟩

/-- Where a longer spelling would not be a word of its own the shorter one is read; that it is offered
twice, in two letter cases, makes no difference. -/
theorem shorter_spelling_is_read :
    ∃ table : Table,
      Table.ofEntries [⟨"GO".toList, 0x90, true⟩, ⟨"go to".toList, 0x91, true⟩,
        ⟨"Go".toList, 0x90, false⟩] = .ok table ∧
      table.readAt "10gO TO2".toList 2 = .ok (some ("gO".toList, 0x90)) := by
  have htable : Table.ofEntries [⟨"GO".toList, 0x90, true⟩, ⟨"go to".toList, 0x91, true⟩,
      ⟨"Go".toList, 0x90, false⟩] = .ok ⟨[⟨"GO".toList, 0x90, true⟩, ⟨"go to".toList, 0x91, true⟩,
        ⟨"Go".toList, 0x90, false⟩]⟩ :=
    Table.ofEntries_eq_ok_iff.mpr (by decide)
  obtain ⟨-, -, hread, -⟩ :=
    longest_admissible_is_read htable (by decide) "10gO TO2".toList 2
  refine ⟨_, htable, (hread _ _).mpr ⟨⟨"GO".toList, 0x90, true⟩, ?_, ?_, ?_, ?_, rfl⟩⟩
  · exact List.mem_cons_self
  all_goals decide

end SpectrumBasic
