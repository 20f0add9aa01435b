import Mathlib.Data.List.Pairwise
import SpectrumBasic.Proofs.KeywordReading

/-!
# Entries that make a table

A table takes its entries one after another and compares each with all before it. Whether an entry is
refused for another is a matter of the two alone (`Keyword.Compatible`) and of neither's place, so entries
make a table if any two of them are compatible and each code has a canonical spelling
(`ofEntries_eq_ok_iff`). In another order they make a table of the same keywords (`ofEntries_perm`).
-/

namespace SpectrumBasic

/-! ## Entries -/

/-- A byte has the code that it was made from. -/
theorem byte?_eq_some_iff {code : Int} {byte : UInt8} :
    byte? code = some byte ↔ (byte.toNat : Int) = code := by
  have hlt := byte.toNat_lt
  unfold byte?
  split
  · rename_i hcode
    have hsmall : code.toNat < 256 := by omega
    rw [Option.some.injEq, ← UInt8.toNat_inj, UInt8.toNat_ofNat_of_lt' hsmall]
    omega
  · simp only [reduceCtorEq, false_iff]
    omega

/-- The keyword an entry stands for, if its code is that of a keyword. -/
def Entry.keyword? (entry : Entry) : Option Keyword :=
  ((byte? entry.code).filter (Keyword.firstCode ≤ ·)).map fun code =>
    ⟨entry.spelling, code, entry.canonical⟩

theorem Entry.keyword?_eq_some_iff {entry : Entry} {k : Keyword} :
    entry.keyword? = some k ↔
      k.spelling = entry.spelling ∧ (k.code.toNat : Int) = entry.code ∧
        k.canonical = entry.canonical ∧ Keyword.firstCode ≤ k.code := by
  simp only [keyword?, Option.map_eq_some_iff, Option.filter_eq_some_iff, byte?_eq_some_iff,
    decide_eq_true_eq]
  constructor
  · rintro ⟨code, ⟨hcode, hfirst⟩, rfl⟩
    exact ⟨rfl, hcode, rfl, hfirst⟩
  · rintro ⟨hspelling, hcode, hcanonical, hfirst⟩
    refine ⟨k.code, ⟨hcode, hfirst⟩, ?_⟩
    rw [← hspelling, ← hcanonical]

/-! ## Pairs of keywords -/

/-- Two keywords have room in one table: they are not one spelling with two codes, nor two canonical
spellings of one code. -/
structure Keyword.Compatible (k k' : Keyword) : Prop where
  sameCode : k.spelling.upper = k'.spelling.upper → k.code = k'.code
  oneCanonical : k.canonical = true → k'.canonical = true → k.code ≠ k'.code

instance (k k' : Keyword) : Decidable (k.Compatible k') :=
  decidable_of_iff ((k.spelling.upper = k'.spelling.upper → k.code = k'.code) ∧
      (k.canonical = true → k'.canonical = true → k.code ≠ k'.code))
    ⟨fun h => ⟨h.1, h.2⟩, fun h => ⟨h.sameCode, h.oneCanonical⟩⟩

theorem Keyword.Compatible.symm {k k' : Keyword} (h : k.Compatible k') : k'.Compatible k where
  sameCode hspelling := (h.sameCode hspelling.symm).symm
  oneCanonical hcanonical' hcanonical := (h.oneCanonical hcanonical hcanonical').symm

theorem Keyword.code_eq_of_compatible {keywords : List Keyword}
    (hpairs : keywords.Pairwise Keyword.Compatible) {k k' : Keyword} (hk : k ∈ keywords)
    (hk' : k' ∈ keywords) (hspelling : k.spelling.upper = k'.spelling.upper) : k.code = k'.code := by
  by_cases hsame : k = k'
  · rw [hsame]
  · have hsymm : Std.Symm Keyword.Compatible := ⟨fun _ _ => Keyword.Compatible.symm⟩
    exact (hpairs.forall hk hk' hsame).sameCode hspelling

namespace Table

variable {entries : List Entry} {earlier keywords : List Keyword}

/-! ## Taking entries -/

/-- An entry is taken if its keyword is compatible with all before it. -/
theorem accept_eq_ok_iff {entry : Entry} {k : Keyword} :
    accept earlier entry = .ok k ↔
      entry.keyword? = some k ∧ ∀ k' ∈ earlier, k'.Compatible k := by
  unfold accept Entry.keyword?
  cases (byte? entry.code).filter (Keyword.firstCode ≤ ·) with
  | none => simp
  | some code =>
    simp only [Option.map_some, Option.some.injEq]
    cases hspelling : earlier.find? fun k =>
        decide (k.spelling.upper = entry.spelling.upper) && k.code != code with
    | some k' =>
      simp only [reduceCtorEq, false_iff]
      rintro ⟨rfl, hcompatible⟩
      have hclash := List.find?_some hspelling
      simp only [Bool.and_eq_true, decide_eq_true_eq, bne_iff_ne] at hclash
      exact hclash.2 ((hcompatible k' (List.mem_of_find?_eq_some hspelling)).sameCode hclash.1)
    | none =>
      cases hcanonical : earlier.find? fun k =>
          entry.canonical && k.canonical && k.code == code with
      | some k' =>
        simp only [reduceCtorEq, false_iff]
        rintro ⟨rfl, hcompatible⟩
        have hclash := List.find?_some hcanonical
        simp only [Bool.and_eq_true, beq_iff_eq] at hclash
        exact (hcompatible k' (List.mem_of_find?_eq_some hcanonical)).oneCanonical hclash.1.2
          hclash.1.1 hclash.2
      | none =>
        simp only [Except.ok.injEq]
        refine (and_iff_left_of_imp ?_).symm
        rintro rfl k' hk'
        have hcode := List.find?_eq_none.mp hspelling k' hk'
        have hone := List.find?_eq_none.mp hcanonical k' hk'
        simp only [Bool.and_eq_true, decide_eq_true_eq, bne_iff_ne, not_and, not_not] at hcode
        simp only [Bool.and_eq_true, beq_iff_eq, not_and, and_imp] at hone
        exact ⟨hcode, fun hcanonical' hcanonical => hone hcanonical hcanonical'⟩

/-- Entries are taken if their keywords are compatible with each other and with all before them. -/
theorem acceptAll_eq_ok_iff :
    acceptAll earlier entries = .ok keywords ↔
      (∀ entry ∈ entries, entry.keyword?.isSome = true) ∧
        (entries.filterMap Entry.keyword?).Pairwise Keyword.Compatible ∧
        (∀ k ∈ earlier, ∀ k' ∈ entries.filterMap Entry.keyword?, k.Compatible k') ∧
        earlier ++ entries.filterMap Entry.keyword? = keywords := by
  induction entries generalizing earlier with
  | nil => simp [acceptAll]
  | cons entry entries ih =>
    unfold acceptAll
    constructor
    · intro h
      split at h
      · cases h
      · rename_i k hk
        obtain ⟨hkeyword, hbefore⟩ := accept_eq_ok_iff.mp hk
        obtain ⟨hsome, hpairs, hacross, rfl⟩ := ih.mp h
        rw [List.forall_mem_append] at hacross
        rw [List.filterMap_cons_some hkeyword, List.pairwise_cons]
        refine ⟨?_, ⟨hacross.2 k List.mem_cons_self, hpairs⟩, ?_, List.append_cons ..⟩
        · exact List.forall_mem_cons.mpr ⟨hkeyword ▸ rfl, hsome⟩
        · intro k' hk'
          exact List.forall_mem_cons.mpr ⟨hbefore k' hk', hacross.1 k' hk'⟩
    · rintro ⟨hsome, hpairs, hacross, hkeywords⟩
      obtain ⟨hfirst, hsome⟩ := List.forall_mem_cons.mp hsome
      obtain ⟨k, hkeyword⟩ := Option.isSome_iff_exists.mp hfirst
      rw [List.filterMap_cons_some hkeyword] at hpairs hacross hkeywords
      obtain ⟨hlater, hpairs⟩ := List.pairwise_cons.mp hpairs
      have hk : accept earlier entry = .ok k :=
        accept_eq_ok_iff.mpr ⟨hkeyword, fun k' hk' => hacross k' hk' k List.mem_cons_self⟩
      rw [hk]
      refine ih.mpr ⟨hsome, hpairs, ?_, (List.append_cons ..).symm.trans hkeywords⟩
      rw [List.forall_mem_append]
      refine ⟨fun k' hk' other hother => hacross k' hk' other (List.mem_cons_of_mem k hother), ?_⟩
      simpa using hlater

/-- No code is without a canonical spelling if each keyword has its code from a canonical one. -/
theorem uncanonicalCodes_eq_nil_iff :
    uncanonicalCodes keywords = [] ↔
      ∀ k ∈ keywords, ∃ k' ∈ keywords, k'.canonical = true ∧ k'.code = k.code := by
  have hsorted := List.mergeSort_perm (((keywords.map (·.code)).eraseDups).filter fun code =>
    !keywords.any fun k => k.canonical && k.code == code) fun a b => decide (a ≤ b)
  rw [uncanonicalCodes, ← List.length_eq_zero_iff, hsorted.length_eq, List.length_eq_zero_iff]
  simp [List.filter_eq_nil_iff, List.mem_eraseDups]

/-- **Which entries make a table.** Each has the code of a keyword, any two are compatible, and every code
has a canonical spelling. The keywords of the table are those of the entries, in order. -/
theorem ofEntries_eq_ok_iff {table : Table} :
    ofEntries entries = .ok table ↔
      (∀ entry ∈ entries, entry.keyword?.isSome = true) ∧
        entries.filterMap Entry.keyword? = table.keywords ∧
        table.keywords.Pairwise Keyword.Compatible ∧
        ∀ k ∈ table.keywords, ∃ k' ∈ table.keywords, k'.canonical = true ∧ k'.code = k.code := by
  rw [ofEntries, ← uncanonicalCodes_eq_nil_iff]
  constructor
  · intro h
    split at h
    · cases h
    · rename_i keywords hkeywords
      split at h
      · rename_i hcanonical
        obtain rfl := Except.ok.inj h
        obtain ⟨hsome, hpairs, -, hfilter⟩ := acceptAll_eq_ok_iff.mp hkeywords
        rw [List.nil_append] at hfilter
        exact ⟨hsome, hfilter, hfilter ▸ hpairs, hcanonical⟩
      · cases h
  · rintro ⟨hsome, hfilter, hpairs, hcanonical⟩
    have hkeywords : acceptAll [] entries = .ok table.keywords := by
      refine acceptAll_eq_ok_iff.mpr ⟨hsome, ?_, ?_, hfilter⟩
      · rwa [hfilter]
      · exact fun _ hnil => nomatch hnil
    rw [hkeywords]
    simp only [hcanonical]

/-- Entries in another order make a table of the same keywords. -/
theorem ofEntries_perm {entries' : List Entry} (hperm : entries'.Perm entries) {table : Table}
    (h : ofEntries entries = .ok table) :
    ∃ table', ofEntries entries' = .ok table' ∧ table'.keywords.Perm table.keywords := by
  obtain ⟨hsome, hfilter, hpairs, hcanonical⟩ := ofEntries_eq_ok_iff.mp h
  have hkeywords : (entries'.filterMap Entry.keyword?).Perm table.keywords :=
    hfilter ▸ hperm.filterMap _
  refine ⟨⟨entries'.filterMap Entry.keyword?⟩, ofEntries_eq_ok_iff.mpr ⟨?_, rfl, ?_, ?_⟩, hkeywords⟩
  · exact fun entry hentry => hsome entry (hperm.mem_iff.mp hentry)
  · exact (hkeywords.pairwise_iff Keyword.Compatible.symm).mpr hpairs
  · intro k hk
    obtain ⟨k', hk', hcode⟩ := hcanonical k (hkeywords.mem_iff.mp hk)
    exact ⟨k', hkeywords.mem_iff.mpr hk', hcode⟩

/-! ## Keywords of the table -/

/-- If every spelling has one code, a spelling is read as the code of any keyword with that spelling. -/
theorem code?_eq_some_iff {table : Table}
    (hcode : ∀ k ∈ table.keywords, ∀ k' ∈ table.keywords,
      k.spelling.upper = k'.spelling.upper → k.code = k'.code) {word : Text} {code : UInt8} :
    table.code? word = some code ↔
      ∃ k ∈ table.keywords, k.spelling.upper = word.upper ∧ k.code = code := by
  rw [code?, Option.map_eq_some_iff]
  constructor
  · rintro ⟨k, hfound, hcode⟩
    exact ⟨k, List.mem_of_find?_eq_some hfound, by simpa using List.find?_some hfound, hcode⟩
  · rintro ⟨k, hk, hspelled, rfl⟩
    cases hfound : table.keywords.find? fun k' => k'.spelling.upper == word.upper with
    | none =>
      have hdiffers := List.find?_eq_none.mp hfound k hk
      rw [hspelled] at hdiffers
      exact absurd (beq_self_eq_true _) hdiffers
    | some k' =>
      have hspelled' : k'.spelling.upper = word.upper := by
        simpa using List.find?_some hfound
      exact ⟨k', rfl, hcode k' (List.mem_of_find?_eq_some hfound) k hk
        (hspelled'.trans hspelled.symm)⟩

section OfEntries

variable {table : Table} (h : ofEntries entries = .ok table)

include h

theorem mem_keywords_iff {k : Keyword} :
    k ∈ table.keywords ↔ ∃ entry ∈ entries, entry.keyword? = some k := by
  rw [← (ofEntries_eq_ok_iff.mp h).2.1, List.mem_filterMap]

theorem exists_keyword {entry : Entry} (hentry : entry ∈ entries) :
    ∃ k ∈ table.keywords, entry.keyword? = some k := by
  obtain ⟨k, hk⟩ := Option.isSome_iff_exists.mp ((ofEntries_eq_ok_iff.mp h).1 entry hentry)
  exact ⟨k, (mem_keywords_iff h).mpr ⟨entry, hentry, hk⟩, hk⟩

/-- What holds of all spellings of a table holds of all spellings of its entries. -/
theorem forall_keyword_iff (holds : Text → Prop) :
    (∀ k ∈ table.keywords, holds k.spelling) ↔ ∀ entry ∈ entries, holds entry.spelling := by
  constructor
  · intro hall entry hentry
    obtain ⟨k, hk, hkeyword⟩ := exists_keyword h hentry
    rw [← (Entry.keyword?_eq_some_iff.mp hkeyword).1]
    exact hall k hk
  · intro hall k hk
    obtain ⟨entry, hentry, hkeyword⟩ := (mem_keywords_iff h).mp hk
    rw [(Entry.keyword?_eq_some_iff.mp hkeyword).1]
    exact hall entry hentry

/-- A code with some spelling in a table is the code of an entry with that spelling. -/
theorem exists_keyword_iff (holds : Text → Prop) (code : UInt8) :
    (∃ k ∈ table.keywords, holds k.spelling ∧ code = k.code) ↔
      ∃ entry ∈ entries, holds entry.spelling ∧ (code.toNat : Int) = entry.code := by
  constructor
  · rintro ⟨k, hk, hholds, rfl⟩
    obtain ⟨entry, hentry, hkeyword⟩ := (mem_keywords_iff h).mp hk
    obtain ⟨hspelling, hcode, -⟩ := Entry.keyword?_eq_some_iff.mp hkeyword
    exact ⟨entry, hentry, hspelling ▸ hholds, hcode⟩
  · rintro ⟨entry, hentry, hholds, hcode⟩
    obtain ⟨k, hk, hkeyword⟩ := exists_keyword h hentry
    obtain ⟨hspelling, hcode', -⟩ := Entry.keyword?_eq_some_iff.mp hkeyword
    refine ⟨k, hk, hspelling ▸ hholds, UInt8.toNat_inj.mp ?_⟩
    omega

/-- A table of entries without an empty spelling is consistent. -/
theorem consistent_of_ofEntries (hspelled : ∀ entry ∈ entries, entry.spelling ≠ []) :
    table.Consistent where
  spelled k hk := by
    obtain ⟨entry, hentry, hkeyword⟩ := (mem_keywords_iff h).mp hk
    rw [(Entry.keyword?_eq_some_iff.mp hkeyword).1]
    exact hspelled entry hentry
  sameCode _ hk _ hk' hspelling :=
    Keyword.code_eq_of_compatible (ofEntries_eq_ok_iff.mp h).2.2.1 hk hk' hspelling

end OfEntries

end Table

end SpectrumBasic
