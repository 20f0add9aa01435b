import SpectrumBasic.Keyword.Match
import SpectrumBasic.Proofs.Characters

/-!
# Which keyword is read

`Table.read` takes the longest spelling that fits. Here that is said without the search: a keyword
`Admits` a word if the word is its spelling, letter case aside, and stands by itself if the spelling
starts with a letter. The keyword read is one that admits a word at the place, and no longer word
there is admitted by any (`read_eq_some`); nothing is read if no word is admitted
(`read_eq_none_iff`).
-/

namespace SpectrumBasic

/-! ## Spellings in a text -/

theorem Text.upper_append (front back : Text) :
    Text.upper (front ++ back) = Text.upper front ++ Text.upper back := List.map_append

/-- What follows a spelling in a text is what follows a word with that spelling. -/
theorem Text.afterSpelling?_eq_some_iff {spelling text rest : Text} :
    Text.afterSpelling? spelling text = some rest ↔
      ∃ word, text = word ++ rest ∧ Text.upper word = Text.upper spelling := by
  -- spelling and text are walked through together, a character of each at a time
  induction spelling generalizing text with
  | nil =>
    simp only [Text.afterSpelling?, Option.some.injEq]
    constructor
    · rintro rfl
      exact ⟨[], rfl, rfl⟩
    · rintro ⟨word, rfl, hword⟩
      have hempty : word = [] := List.map_eq_nil_iff.mp hword
      rw [hempty, List.nil_append]
  | cons s spelling ih =>
    cases text with
    | nil =>
      simp only [Text.afterSpelling?, reduceCtorEq, false_iff]
      rintro ⟨word, htext, hword⟩
      rw [List.append_eq_nil_iff.mp htext.symm |>.1] at hword
      exact absurd hword (by simp [Text.upper])
    | cons c text =>
      by_cases hc : c.toUpper = s.toUpper
      · rw [Text.afterSpelling?, if_pos hc, ih]
        constructor
        · rintro ⟨word, rfl, hword⟩
          refine ⟨c :: word, rfl, ?_⟩
          simp only [Text.upper, List.map_cons, hc] at hword ⊢
          rw [hword]
        · rintro ⟨word, htext, hword⟩
          cases word with
          | nil => exact absurd hword (by simp [Text.upper])
          | cons d word =>
            simp only [List.cons_append, List.cons.injEq] at htext
            simp only [Text.upper, List.map_cons, List.cons.injEq] at hword
            exact ⟨word, htext.2, hword.2⟩
      · rw [Text.afterSpelling?, if_neg hc]
        simp only [reduceCtorEq, false_iff]
        rintro ⟨word, htext, hword⟩
        cases word with
        | nil => exact absurd hword (by simp [Text.upper])
        | cons d word =>
          simp only [List.cons_append, List.cons.injEq] at htext
          simp only [Text.upper, List.map_cons, List.cons.injEq] at hword
          exact hc (htext.1 ▸ hword.1)

/-! ## Words a keyword admits -/

/-- A keyword can be read as `word` when `rest` follows: letter case aside it is spelled so, and if
it starts with a letter, no letter stands before the word and no letter or digit after it. -/
structure Keyword.Admits (k : Keyword) (afterLetter : Bool) (word rest : Text) : Prop where
  spelled : word.upper = k.spelling.upper
  before : k.alphabetic? = some true → afterLetter = false
  after : k.alphabetic? = some true → rest.head?.any Char.isAlphanum = false

namespace Keyword

variable {k : Keyword} {afterLetter : Bool} {text word rest : Text}

theorem Admits.length_eq (h : k.Admits afterLetter word rest) :
    word.length = k.spelling.length := by
  rw [← Text.length_upper word, h.spelled, Text.length_upper]

/-- A keyword fits a text if it admits a word in front. -/
theorem fits_iff : k.fits afterLetter text = true ↔
    ∃ word rest, text = word ++ rest ∧ k.Admits afterLetter word rest := by
  unfold fits
  cases hrest : Text.afterSpelling? k.spelling text with
  | none =>
    simp only [Bool.false_eq_true, false_iff]
    rintro ⟨word, rest, htext, hadmits⟩
    rw [Text.afterSpelling?_eq_some_iff.mpr ⟨word, htext, hadmits.spelled⟩] at hrest
    cases hrest
  | some rest =>
    obtain ⟨word, rfl, hword⟩ := Text.afterSpelling?_eq_some_iff.mp hrest
    simp only [Bool.or_eq_true, bne_iff_ne, ne_eq, Bool.not_eq_true', Bool.or_eq_false_iff]
    constructor
    · intro h
      refine ⟨word, rest, rfl, hword, ?_, ?_⟩
      · intro halpha
        exact (h.resolve_left (fun hne => hne halpha)).1
      · intro halpha
        exact (h.resolve_left (fun hne => hne halpha)).2
    · rintro ⟨word', rest', htext, hadmits⟩
      -- both words have the length of the spelling, so they are the same
      have hlength : word.length = word'.length := by
        rw [hadmits.length_eq, ← Text.length_upper word, hword, Text.length_upper]
      obtain ⟨rfl, rfl⟩ := List.append_inj htext hlength
      by_cases halpha : k.alphabetic? = some true
      · exact .inr ⟨hadmits.before halpha, hadmits.after halpha⟩
      · exact .inl halpha

end Keyword

/-! ## The keyword that is read -/

namespace Table

variable {table : Table} {afterLetter : Bool} {text word rest : Text} {code : UInt8}

/-- Nothing is read if nothing fits. -/
theorem read_eq_none_iff : table.read afterLetter text = .ok none ↔
    ∀ k ∈ table.keywords, k.fits afterLetter text = false := by
  have hsome : ((table.keywords.filter (·.fits afterLetter text)).maxOn?
      (·.spelling.length)).isSome = true
        ↔ table.keywords.filter (·.fits afterLetter text) ≠ [] := List.isSome_maxOn?_iff
  rw [read, longest?]
  cases hfound : (table.keywords.filter (·.fits afterLetter text)).maxOn? (·.spelling.length) with
  | none =>
    rw [hfound] at hsome
    have hnil : table.keywords.filter (·.fits afterLetter text) = [] := by
      simpa using hsome
    simpa using hnil
  | some k =>
    have hk := List.mem_filter.mp (List.maxOn?_mem hfound)
    constructor
    · intro h
      simp only at h
      split at h <;> cases h
    · intro h
      rw [h k hk.1] at hk
      exact absurd hk.2 (by decide)

/-- What is read is a word that some keyword admits, and no keyword admits a longer one. -/
theorem read_eq_some (h : table.read afterLetter text = .ok (some (word, code))) :
    ∃ k ∈ table.keywords, ∃ rest, text = word ++ rest ∧ k.Admits afterLetter word rest ∧
      k.spelling ≠ [] ∧ k.code = code ∧
      ∀ k' ∈ table.keywords, k'.fits afterLetter text = true →
        k'.spelling.length ≤ k.spelling.length := by
  rw [read, longest?] at h
  cases hfound : (table.keywords.filter (·.fits afterLetter text)).maxOn? (·.spelling.length) with
  | none =>
    rw [hfound] at h
    cases h
  | some k =>
    obtain ⟨hmem, hfits⟩ := List.mem_filter.mp (List.maxOn?_mem hfound)
    obtain ⟨word', rest, rfl, hadmits⟩ := Keyword.fits_iff.mp hfits
    rw [hfound] at h
    simp only at h
    split at h
    · cases h
    · rename_i hempty
      simp only [Except.ok.injEq, Option.some.injEq, Prod.mk.injEq] at h
      -- the word is cut out of the text by the length of the spelling
      have hword : word' = word := by
        rw [← h.1, ← hadmits.length_eq, List.take_left]
      subst hword
      refine ⟨k, hmem, rest, rfl, hadmits, by simpa using hempty, h.2, ?_⟩
      intro k' hmem' hfits'
      have hcandidate : k' ∈ table.keywords.filter (·.fits afterLetter (word' ++ rest)) :=
        List.mem_filter.mpr ⟨hmem', hfits'⟩
      have hmax := List.le_apply_get_maxOn?_of_mem (f := fun k : Keyword => k.spelling.length)
        hcandidate
      simpa [hfound] using hmax

/-- A table that never gives one spelling two codes, and no empty spelling any. -/
structure Consistent (table : Table) : Prop where
  spelled : ∀ k ∈ table.keywords, k.spelling ≠ []
  sameCode : ∀ k ∈ table.keywords, ∀ k' ∈ table.keywords,
    k.spelling.upper = k'.spelling.upper → k.code = k'.code

/-- In a consistent table reading finds a keyword or nothing. -/
theorem Consistent.read_eq (hc : table.Consistent) (afterLetter : Bool) (text : Text) :
    table.read afterLetter text = .ok none ∨
      ∃ word code, table.read afterLetter text = .ok (some (word, code)) := by
  unfold read
  cases hfound : table.longest? afterLetter text with
  | none => exact .inl rfl
  | some k =>
    have hmem := (List.mem_filter.mp (List.maxOn?_mem hfound)).1
    have hspelled : k.spelling.isEmpty = false := by
      simpa using hc.spelled k hmem
    simp only [hspelled, Bool.false_eq_true, if_false]
    exact .inr ⟨_, _, rfl⟩

/-- In a consistent table a word is read as the keyword that admits it, if no longer spelling
fits. -/
theorem Consistent.read_of_admits (hc : table.Consistent) {k : Keyword} (hk : k ∈ table.keywords)
    (hadmits : k.Admits afterLetter word rest)
    (hlongest : ∀ k' ∈ table.keywords, k'.fits afterLetter (word ++ rest) = true →
      k'.spelling.length ≤ k.spelling.length) :
    table.read afterLetter (word ++ rest) = .ok (some (word, k.code)) := by
  have hfits : k.fits afterLetter (word ++ rest) = true :=
    Keyword.fits_iff.mpr ⟨word, rest, rfl, hadmits⟩
  rcases hc.read_eq afterLetter (word ++ rest) with hnone | ⟨word', code, hsome⟩
  · rw [read_eq_none_iff.mp hnone k hk] at hfits
    exact absurd hfits (by decide)
  · -- another keyword that is read has the same length, so it is read as the same word
    obtain ⟨k', hk', rest', htext, hadmits', -, rfl, hlongest'⟩ := read_eq_some hsome
    have hfits' : k'.fits afterLetter (word ++ rest) = true :=
      Keyword.fits_iff.mpr ⟨word', rest', htext, hadmits'⟩
    have hlength : word.length = word'.length := by
      rw [hadmits.length_eq, hadmits'.length_eq]
      exact Nat.le_antisymm (hlongest' k hk hfits) (hlongest k' hk' hfits')
    obtain ⟨rfl, rfl⟩ := List.append_inj htext hlength
    rw [hsome, hc.sameCode k' hk' k hk (by rw [← hadmits'.spelled, hadmits.spelled])]

end Table

end SpectrumBasic
