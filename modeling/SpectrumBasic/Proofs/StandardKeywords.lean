import SpectrumBasic.Keyword.Standard
import SpectrumBasic.Proofs.KeywordReading

/-!
# What the machine's keywords look like

The standard table is fixed, so what a proof needs to know about its spellings is checked once, here:
which characters they are made of, where one can start within another, and which can be continued to
another one. The rest of the development uses these facts and never looks at the table.
-/

namespace SpectrumBasic

namespace Keyword

/-- The code of `PEEK`, which the table also has with a dollar sign. -/
def peek : UInt8 := 0xBE

/-- The code of `VAL`, which the table also has with a dollar sign. -/
def val : UInt8 := 0xB0

/-- The characters of the standard spellings. -/
def isSpellingChar (c : Char) : Bool := c.isUpper || [' ', '#', '$', '<', '=', '>'].contains c

/-- Whether two spellings agree as far as both of them go. -/
def agree (one other : Text) : Bool := one.isPrefixOf other || other.isPrefixOf one

theorem agree_of_append_eq {one other more more' : Text} (h : one ++ more = other ++ more') :
    agree one other = true := by
  rw [agree, Bool.or_eq_true, List.isPrefixOf_iff_prefix, List.isPrefixOf_iff_prefix]
  rcases List.append_eq_append_iff.mp h with ⟨mid, hother, -⟩ | ⟨mid, hone, -⟩
  · exact .inl ⟨mid, hother.symm⟩
  · exact .inr ⟨mid, hone.symm⟩

theorem eq_of_agree_cons {a b : Char} {one other : Text} (h : agree (a :: one) (b :: other) = true) :
    a = b := by
  simp only [agree, List.isPrefixOf_cons_cons, Bool.or_eq_true, Bool.and_eq_true, beq_iff_eq] at h
  rcases h with hone | hother
  · exact hone.1
  · exact hother.1.symm

end Keyword

/-- The characters of spellings by their code points. -/
theorem bounds_of_isSpellingChar {c : Char} (h : Keyword.isSpellingChar c = true) :
    c.toNat = 32 ∨ c.toNat = 35 ∨ c.toNat = 36 ∨ (60 ≤ c.toNat ∧ c.toNat ≤ 62) ∨
      (65 ≤ c.toNat ∧ c.toNat ≤ 90) := by
  rw [Keyword.isSpellingChar, Bool.or_eq_true, List.contains_iff_mem] at h
  rcases h with hupper | hother
  · have hupper : 'A'.val ≤ c.val ∧ c.val ≤ 'Z'.val := of_decide_eq_true hupper
    simp only [UInt32.le_iff_toNat_le] at hupper
    exact .inr (.inr (.inr (.inr hupper)))
  · simp only [List.mem_cons, List.not_mem_nil, or_false] at hother
    rcases hother with rfl | rfl | rfl | rfl | rfl | rfl <;> decide

namespace Table

/-! ## Each spelling by itself -/

/-- What holds of every keyword of the table: it is in upper case, it is made of a few characters
and ends in no space, its code lies above the bytes of characters, and it is either a word without an
operator in it or an operator of two characters. -/
private theorem orderly_standard : ∀ k ∈ standard.keywords,
    k.spelling.upper = k.spelling ∧
    k.spelling.all Keyword.isSpellingChar = true ∧
    k.spelling.getLast? ≠ some ' ' ∧
    Keyword.firstCode ≤ k.code ∧
    (k.alphabetic? = some true → '<' ∉ k.spelling ∧ '>' ∉ k.spelling) ∧
    (k.alphabetic? ≠ some true →
      k.spelling ∈ [['<', '<'], ['<', '='], ['<', '>'], ['>', '='], ['>', '>']]) := by
  decide +kernel

private theorem code?_standard : ∀ k ∈ standard.keywords,
    k.spelling ≠ [] ∧ standard.code? k.spelling = some k.code := by
  decide +kernel

/-- The standard table is consistent. -/
theorem consistent_standard : standard.Consistent where
  spelled k hk := (code?_standard k hk).1
  sameCode k hk k' hk' h := by
    have hcode := (code?_standard k hk).2
    have hcode' := (code?_standard k' hk').2
    rw [code?, h, ← code?, hcode'] at hcode
    exact (Option.some.inj hcode).symm

section Spellings

variable {k : Keyword} (hk : k ∈ standard.keywords)

include hk

theorem upper_of_mem_standard : k.spelling.upper = k.spelling := (orderly_standard k hk).1

theorem isSpellingChar_of_mem_standard {c : Char} (hc : c ∈ k.spelling) :
    Keyword.isSpellingChar c = true :=
  List.all_eq_true.mp (orderly_standard k hk).2.1 c hc

theorem getLast?_of_mem_standard : k.spelling.getLast? ≠ some ' ' :=
  (orderly_standard k hk).2.2.1

theorem firstCode_le_of_mem_standard : Keyword.firstCode ≤ k.code :=
  (orderly_standard k hk).2.2.2.1

theorem word_of_mem_standard (halpha : k.alphabetic? = some true) :
    '<' ∉ k.spelling ∧ '>' ∉ k.spelling := (orderly_standard k hk).2.2.2.2.1 halpha

theorem operator_of_mem_standard (halpha : k.alphabetic? ≠ some true) :
    ∃ first ∈ ['<', '>'], ∃ second ∈ ['<', '=', '>'], k.spelling = [first, second] := by
  have hmem := (orderly_standard k hk).2.2.2.2.2 halpha
  simp only [List.mem_cons, List.not_mem_nil, or_false] at hmem
  rcases hmem with hk | hk | hk | hk | hk <;> exact ⟨_, by simp, _, by simp, hk⟩

/-- Only a spelling that starts with a letter has a dollar sign. -/
theorem alphabetic?_of_dollar (hdollar : '$' ∈ k.spelling) : k.alphabetic? = some true := by
  refine Decidable.byContradiction fun halpha => ?_
  obtain ⟨first, hfirst, second, hsecond, hoperator⟩ := operator_of_mem_standard hk halpha
  rw [hoperator] at hdollar
  simp only [List.mem_cons, List.not_mem_nil, or_false] at hfirst hsecond hdollar
  rcases hdollar with rfl | rfl
  · exact absurd hfirst (by decide)
  · exact absurd hsecond (by decide)

end Spellings

/-! ## Canonical spellings and aliases -/

/-- A keyword and its canonical spelling start alike, and an alias is no longer than that spelling
and no part of it. -/
private theorem canonical_standard : ∀ k ∈ standard.keywords,
    (standard.spelling? k.code).any (fun word => word.head? = k.spelling.head? ∧
      (k.spelling = word ∨
        (k.spelling.length ≤ word.length ∧ k.spelling.isPrefixOf word = false))) = true := by
  decide +kernel

theorem exists_of_spelling? {table : Table} {code : UInt8} {word : Text}
    (h : table.spelling? code = some word) :
    ∃ k ∈ table.keywords, k.code = code ∧ k.spelling = word := by
  obtain ⟨k, hfind, hword⟩ := Option.map_eq_some_iff.mp h
  have hcode := List.find?_some hfind
  simp only [Bool.and_eq_true, beq_iff_eq] at hcode
  exact ⟨k, List.mem_of_find?_eq_some hfind, hcode.2, hword⟩

/-- Every keyword has a canonical spelling, which starts alike. -/
theorem exists_canonical {k : Keyword} (hk : k ∈ standard.keywords) :
    ∃ kc ∈ standard.keywords, kc.code = k.code ∧ standard.spelling? k.code = some kc.spelling ∧
      kc.spelling.head? = k.spelling.head? := by
  have hall := canonical_standard k hk
  -- `canonical_standard` also says that there is one
  cases hword : standard.spelling? k.code with
  | none =>
    rw [hword] at hall
    cases hall
  | some word =>
    rw [hword] at hall
    obtain ⟨kc, hkc, hcode, rfl⟩ := exists_of_spelling? hword
    exact ⟨kc, hkc, hcode, rfl, (of_decide_eq_true hall).1⟩

theorem alias_of_mem_standard {k : Keyword} (hk : k ∈ standard.keywords) {word : Text}
    (hword : standard.spelling? k.code = some word) :
    k.spelling = word ∨
      (k.spelling.length ≤ word.length ∧ k.spelling.isPrefixOf word = false) := by
  have hall := canonical_standard k hk
  rw [hword] at hall
  exact (of_decide_eq_true hall).2

/-- Spellings of one code differ only in spaces. -/
private theorem unspaced_standard : ∀ k ∈ standard.keywords,
    (standard.spelling? k.code).map (·.filter (· ≠ ' ')) = some (k.spelling.filter (· ≠ ' ')) := by
  decide +kernel

/-- An alias is the canonical spelling, spaces aside. -/
theorem filter_spelling_of_mem_standard {k : Keyword} (hk : k ∈ standard.keywords) {word : Text}
    (hword : standard.spelling? k.code = some word) :
    word.filter (· ≠ ' ') = k.spelling.filter (· ≠ ' ') := by
  have hall := unspaced_standard k hk
  rw [hword, Option.map_some] at hall
  exact Option.some.inj hall

/-! ## Spellings within spellings -/

/-- Where a spelling is cut in front of a character that is neither letter nor digit, the first part
is a spelling only for `PEEK` and `VAL` in front of a dollar sign. -/
private theorem cut_standard : ∀ longer ∈ standard.keywords,
    ∀ n ∈ List.range longer.spelling.length,
      longer.spelling[n]?.any (fun c => !c.isAlphanum) = true →
        ∀ k ∈ standard.keywords, k.spelling = longer.spelling.take n →
          (k.code = Keyword.peek ∨ k.code = Keyword.val) ∧ longer.spelling.drop n = ['$'] := by
  decide +kernel

/-- A keyword goes on to a longer one behind something that keeps it apart only where a dollar sign
follows `PEEK` or `VAL`. -/
theorem extension_of_mem_standard {k longer : Keyword} (hk : k ∈ standard.keywords)
    (hlonger : longer ∈ standard.keywords) {c : Char} {rest : Text}
    (hspelling : longer.spelling = k.spelling ++ c :: rest)
    (happart : k.alphabetic? = some true → c.isAlphanum = false) :
    (k.code = Keyword.peek ∨ k.code = Keyword.val) ∧ c = '$' ∧ rest = [] := by
  by_cases halpha : k.alphabetic? = some true
  · -- the longer spelling is cut where the shorter one ends
    have hrange : k.spelling.length ∈ List.range longer.spelling.length := by
      rw [List.mem_range, hspelling, List.length_append, List.length_cons]
      omega
    have hcut : longer.spelling[k.spelling.length]?.any (fun c => !c.isAlphanum) = true := by
      rw [hspelling, List.getElem?_append_right (Nat.le_refl _), Nat.sub_self]
      simp [happart halpha]
    have hfact := cut_standard longer hlonger _ hrange hcut k hk
    rw [hspelling, List.take_left, List.drop_left] at hfact
    obtain ⟨hcode, hrest⟩ := hfact rfl
    exact ⟨hcode, List.cons.inj hrest⟩
  · -- both would be operators, and those have the same length
    obtain ⟨first, hfirst, second, -, hk⟩ := operator_of_mem_standard hk halpha
    have hnot : longer.alphabetic? ≠ some true := by
      rw [Keyword.alphabetic?, hspelling, hk]
      simp only [List.mem_cons, List.not_mem_nil, or_false] at hfirst
      rcases hfirst with rfl | rfl <;> exact Bool.false_ne_true ∘ Option.some.inj
    obtain ⟨first', -, second', -, hlonger⟩ := operator_of_mem_standard hlonger hnot
    rw [hspelling, hk] at hlonger
    simp at hlonger

/-- Both of these words do go on to a longer one with a dollar sign. -/
theorem dollar_of_mem_standard : ∀ k ∈ standard.keywords,
    k.code = Keyword.peek ∨ k.code = Keyword.val →
      ∃ longer ∈ standard.keywords, longer.spelling = k.spelling ++ ['$'] := by
  decide +kernel

/-- Where a spelling is cut behind a character that is no letter, the second part agrees with a
canonical word only if it is that word, and the word has no alias. -/
private theorem inside_standard : ∀ longer ∈ standard.keywords,
    ∀ n ∈ List.range longer.spelling.length,
      longer.spelling[n]?.any (fun c => !c.isAlpha) = true →
        longer.spelling.drop (n + 1) ≠ [] →
          ∀ k ∈ standard.keywords, k.alphabetic? = some true →
            (standard.spelling? k.code).any
              (Keyword.agree (longer.spelling.drop (n + 1))) = true →
              k.spelling = longer.spelling.drop (n + 1) ∧
                standard.spelling? k.code = some k.spelling := by
  decide +kernel

/-- A word that starts within a spelling, behind no letter, agrees with the rest of the spelling only
if it is all of that rest. -/
theorem inside_of_mem_standard {k longer : Keyword} (hk : k ∈ standard.keywords)
    (hlonger : longer ∈ standard.keywords) {front back word : Text} {c : Char}
    (hspelling : longer.spelling = front ++ c :: back) (hback : back ≠ [])
    (hc : c.isAlpha = false) (halpha : k.alphabetic? = some true)
    (hword : standard.spelling? k.code = some word) (hagree : Keyword.agree back word = true) :
    k.spelling = back ∧ word = back := by
  have hdrop : longer.spelling.drop (front.length + 1) = back := by
    rw [hspelling, List.drop_append, List.drop_eq_nil_of_le (by omega), List.nil_append]
    simp
  have hrange : front.length ∈ List.range longer.spelling.length := by
    rw [List.mem_range, hspelling, List.length_append, List.length_cons]
    omega
  have hcut : longer.spelling[front.length]?.any (fun c => !c.isAlpha) = true := by
    rw [hspelling, List.getElem?_append_right (Nat.le_refl _), Nat.sub_self]
    simp [hc]
  have hfact := inside_standard longer hlonger _ hrange hcut
  rw [hdrop] at hfact
  obtain ⟨hspelled, hcanonical⟩ := hfact hback k hk halpha (by rw [hword]; exact hagree)
  rw [hword, hspelled] at hcanonical
  exact ⟨hspelled, Option.some.inj hcanonical⟩

end Table

end SpectrumBasic
