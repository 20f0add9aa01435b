import Mathlib.Data.List.Basic
import Mathlib.Data.List.Nodup
import SpectrumBasic.Keyword.Standard
import SpectrumBasic.Proofs.TableEntries

/-!
# Looking keywords up

A table and its entries are two forms of one list. Entries make a table exactly if it spells them out
again and is coherent (`ofEntries_eq_ok_iff_coherent`): its codes are those of keywords, a spelling has
one code, and a code has one canonical spelling. So what is looked up in a table can be said of the
entries alone.
-/

namespace SpectrumBasic

/-! ## Keywords as entries -/

/-- The entry that spells a keyword out. -/
def Keyword.entry (k : Keyword) : Entry := ⟨k.spelling, k.code.toNat, k.canonical⟩

/-- The codes of keywords are the bytes from 0x87. -/
theorem Keyword.firstCode_le_iff (code : UInt8) :
    Keyword.firstCode ≤ code ↔ 0x87 ≤ (code.toNat : Int) ∧ (code.toNat : Int) ≤ 0xFF := by
  have hlt := code.toNat_lt
  rw [UInt8.le_iff_toNat_le]
  show 0x87 ≤ code.toNat ↔ _
  omega

theorem Keyword.code_entry_eq_iff {k : Keyword} {code : UInt8} :
    k.entry.code = code.toNat ↔ k.code = code := by
  rw [← UInt8.toNat_inj]
  exact Int.natCast_inj

namespace Entry

variable {entry : Entry} {k : Keyword}

theorem keyword?_eq_some_iff_entry :
    entry.keyword? = some k ↔ k.entry = entry ∧ Keyword.firstCode ≤ k.code := by
  cases entry
  simp only [keyword?_eq_some_iff, Keyword.entry, Entry.mk.injEq, and_assoc]

/-- An entry has a keyword if its code is that of one. -/
theorem isSome_keyword?_iff :
    entry.keyword?.isSome = true ↔ 0x87 ≤ entry.code ∧ entry.code ≤ 0xFF := by
  rw [Option.isSome_iff_exists]
  constructor
  · rintro ⟨k, hk⟩
    obtain ⟨-, hcode, -, hfirst⟩ := keyword?_eq_some_iff.mp hk
    rw [← hcode]
    exact (Keyword.firstCode_le_iff k.code).mp hfirst
  · intro hrange
    have hcode : ((UInt8.ofNat entry.code.toNat).toNat : Int) = entry.code := by
      have hsmall : entry.code.toNat < UInt8.size := by
        show entry.code.toNat < 256
        omega
      rw [UInt8.toNat_ofNat_of_lt' hsmall]
      omega
    refine ⟨⟨entry.spelling, UInt8.ofNat entry.code.toNat, entry.canonical⟩,
      keyword?_eq_some_iff.mpr ⟨rfl, hcode, rfl, ?_⟩⟩
    rw [Keyword.firstCode_le_iff, hcode]
    exact hrange

/-- Entries that all have keywords are spelled out by these. -/
theorem map_entry_filterMap {entries : List Entry}
    (h : ∀ entry ∈ entries, entry.keyword?.isSome = true) :
    (entries.filterMap keyword?).map Keyword.entry = entries := by
  induction entries with
  | nil => rfl
  | cons entry entries ih =>
    rw [List.forall_mem_cons] at h
    obtain ⟨k, hk⟩ := Option.isSome_iff_exists.mp h.1
    rw [List.filterMap_cons_some hk, List.map_cons, ih h.2, (keyword?_eq_some_iff_entry.mp hk).1]

end Entry

namespace Table

/-! ## Coherent tables -/

/-- The canonical keywords of a code. -/
def canonicals (table : Table) (code : UInt8) : List Keyword :=
  table.keywords.filter fun k => k.canonical && k.code == code

/-- A table whose codes are those of keywords, in which a spelling has one code and a code has one
canonical spelling. -/
structure Coherent (table : Table) : Prop where
  firstCode_le : ∀ k ∈ table.keywords, Keyword.firstCode ≤ k.code
  sameCode : ∀ k ∈ table.keywords, ∀ k' ∈ table.keywords,
    k.spelling.upper = k'.spelling.upper → k.code = k'.code
  oneCanonical : ∀ k ∈ table.keywords, (table.canonicals k.code).length = 1

variable {table : Table} {entries : List Entry} {k : Keyword} {code : UInt8} {word : Text}

theorem entries_eq_map (table : Table) : table.entries = table.keywords.map Keyword.entry := rfl

theorem mem_canonicals_iff :
    k ∈ table.canonicals code ↔ k ∈ table.keywords ∧ k.canonical = true ∧ k.code = code := by
  rw [canonicals, List.mem_filter, Bool.and_eq_true, beq_iff_eq]

/-- No two canonical keywords have one code if no code has two canonical keywords. -/
theorem pairwise_code_ne_iff :
    table.keywords.Pairwise (fun k k' => k.canonical = true → k'.canonical = true →
        k.code ≠ k'.code) ↔
      ∀ code, (table.canonicals code).length ≤ 1 := by
  have hnodup : table.keywords.Pairwise (fun k k' => k.canonical = true → k'.canonical = true →
      k.code ≠ k'.code) ↔ ((table.keywords.filter (·.canonical)).map (·.code)).Nodup := by
    rw [List.Nodup, List.pairwise_map, List.pairwise_filter]
  rw [hnodup, List.nodup_iff_count_le_one]
  refine forall_congr' fun code => ?_
  rw [List.count, List.countP_map, List.countP_filter, canonicals, ← List.countP_eq_length_filter]
  simp only [Function.comp_apply, Bool.and_comm]

/-- Keywords are coherent if any two of them are compatible and each has a canonical one of its code. -/
theorem coherent_iff :
    table.Coherent ↔ (∀ k ∈ table.keywords, Keyword.firstCode ≤ k.code) ∧
      table.keywords.Pairwise Keyword.Compatible ∧
      ∀ k ∈ table.keywords, ∃ k' ∈ table.keywords, k'.canonical = true ∧ k'.code = k.code := by
  constructor
  · intro hc
    -- a code that no keyword has, has no canonical keyword either
    have hmost : ∀ code, (table.canonicals code).length ≤ 1 := by
      intro code
      cases hcode : table.canonicals code with
      | nil => exact Nat.zero_le 1
      | cons k rest =>
        obtain ⟨hk, -, rfl⟩ := mem_canonicals_iff.mp (hcode ▸ List.mem_cons_self)
        exact hcode ▸ Nat.le_of_eq (hc.oneCanonical k hk)
    refine ⟨hc.firstCode_le, ?_, ?_⟩
    · refine (List.Pairwise.and_mem.mp (pairwise_code_ne_iff.mpr hmost)).imp ?_
      rintro k k' ⟨hk, hk', hone⟩
      exact ⟨hc.sameCode k hk k' hk', hone⟩
    · intro k hk
      obtain ⟨k', hk'⟩ := List.length_eq_one_iff.mp (hc.oneCanonical k hk)
      exact ⟨k', mem_canonicals_iff.mp (hk' ▸ List.mem_singleton_self k')⟩
  · rintro ⟨hfirst, hpairs, hsome⟩
    have hmost := pairwise_code_ne_iff.mp (hpairs.imp Keyword.Compatible.oneCanonical)
    refine ⟨hfirst, ?_, ?_⟩
    · exact fun k hk k' hk' hspelled => Keyword.code_eq_of_compatible hpairs hk hk' hspelled
    · intro k hk
      obtain ⟨k', hk'⟩ := hsome k hk
      have hpos : 0 < (table.canonicals k.code).length :=
        List.length_pos_of_mem (mem_canonicals_iff.mpr hk')
      exact Nat.le_antisymm (hmost k.code) hpos

/-- **Entries and tables.** A table is made of some entries if it spells out these entries and is
coherent. -/
theorem ofEntries_eq_ok_iff_coherent :
    ofEntries entries = .ok table ↔ table.entries = entries ∧ table.Coherent := by
  rw [ofEntries_eq_ok_iff, coherent_iff]
  constructor
  · rintro ⟨hsome, hkeywords, hpairs, hcanonical⟩
    refine ⟨?_, ?_, hpairs, hcanonical⟩
    · rw [entries_eq_map, ← hkeywords, Entry.map_entry_filterMap hsome]
    · rw [← hkeywords]
      intro k hk
      obtain ⟨entry, -, hentry⟩ := List.mem_filterMap.mp hk
      exact (Entry.keyword?_eq_some_iff_entry.mp hentry).2
  · rintro ⟨rfl, hfirst, hpairs, hcanonical⟩
    have hkeyword : ∀ k ∈ table.keywords, k.entry.keyword? = some k := fun k hk =>
      Entry.keyword?_eq_some_iff_entry.mpr ⟨rfl, hfirst k hk⟩
    refine ⟨?_, ?_, hpairs, hcanonical⟩
    · intro entry hentry
      obtain ⟨k, hk, rfl⟩ := List.mem_map.mp hentry
      exact Option.isSome_iff_exists.mpr ⟨k, hkeyword k hk⟩
    · rw [entries_eq_map, List.filterMap_map, List.filterMap_congr (g := some), List.filterMap_some]
      intro k hk
      rw [Function.comp_apply, hkeyword k hk]

/-- Coherence is a matter of the entries. -/
theorem coherent_iff_entries :
    table.Coherent ↔
      (∀ entry ∈ table.entries, 0x87 ≤ entry.code ∧ entry.code ≤ 0xFF) ∧
      (∀ entry ∈ table.entries, ∀ other ∈ table.entries,
        entry.spelling.upper = other.spelling.upper → entry.code = other.code) ∧
      ∀ entry ∈ table.entries,
        (table.entries.filter fun other => other.canonical && other.code == entry.code).length = 1 := by
  have hrange : ∀ k : Keyword, Keyword.firstCode ≤ k.code ↔
      0x87 ≤ k.entry.code ∧ k.entry.code ≤ 0xFF := fun k => Keyword.firstCode_le_iff k.code
  have hcode : ∀ k k' : Keyword, k.entry.code = k'.entry.code ↔ k.code = k'.code := fun _ _ =>
    Keyword.code_entry_eq_iff
  have hcanonicals : ∀ k : Keyword, (table.entries.filter fun other =>
      other.canonical && other.code == k.entry.code).length = (table.canonicals k.code).length := by
    intro k
    rw [entries_eq_map, List.filter_map, List.length_map, canonicals]
    congr 2
    funext k'
    rw [Function.comp_apply, Bool.eq_iff_iff]
    simp only [Bool.and_eq_true, beq_iff_eq, hcode]
    rfl
  constructor
  · intro hc
    simp only [entries_eq_map, List.forall_mem_map]
    refine ⟨fun k hk => (hrange k).mp (hc.firstCode_le k hk), ?_, ?_⟩
    · exact fun k hk k' hk' hspelled => (hcode k k').mpr (hc.sameCode k hk k' hk' hspelled)
    · exact fun k hk => (hcanonicals k).trans (hc.oneCanonical k hk)
  · simp only [entries_eq_map, List.forall_mem_map]
    rintro ⟨hbounds, hsame, hone⟩
    refine ⟨fun k hk => (hrange k).mpr (hbounds k hk), ?_, ?_⟩
    · exact fun k hk k' hk' hspelled => (hcode k k').mp (hsame k hk k' hk' hspelled)
    · exact fun k hk => (hcanonicals k).symm.trans (hone k hk)

/-! ## Looking up -/

/-- The spelling of a code is that of its first canonical keyword. -/
theorem spelling?_eq (table : Table) (code : UInt8) :
    table.spelling? code = (table.canonicals code).head?.map (·.spelling) := by
  rw [spelling?, canonicals, List.head?_filter]

/-- The spelling of a code in a coherent table is that of its canonical keyword. -/
theorem Coherent.spelling?_eq_some (hc : table.Coherent) (hk : k ∈ table.keywords)
    (hcanonical : k.canonical = true) : table.spelling? k.code = some k.spelling := by
  obtain ⟨k', hone⟩ := List.length_eq_one_iff.mp (hc.oneCanonical k hk)
  have hmem : k ∈ table.canonicals k.code := mem_canonicals_iff.mpr ⟨hk, hcanonical, rfl⟩
  rw [hone, List.mem_singleton] at hmem
  rw [spelling?_eq, hone, ← hmem]
  rfl

/-- A code that no keyword has is not spelled. -/
theorem spelling?_eq_none (h : ∀ k ∈ table.keywords, k.code ≠ code) :
    table.spelling? code = none := by
  have hnil : table.canonicals code = [] := by
    rw [List.eq_nil_iff_forall_not_mem]
    intro k hk
    obtain ⟨hmem, -, hcode⟩ := mem_canonicals_iff.mp hk
    exact h k hmem hcode
  rw [spelling?_eq, hnil]
  rfl

theorem Coherent.code?_spelling? (hc : table.Coherent) (hk : k ∈ table.keywords) :
    ∃ word, table.spelling? k.code = some word ∧ table.code? word = some k.code := by
  obtain ⟨k', hone⟩ := List.length_eq_one_iff.mp (hc.oneCanonical k hk)
  obtain ⟨hk', hcanonical, hcode⟩ := mem_canonicals_iff.mp (hone ▸ List.mem_singleton_self k')
  refine ⟨k'.spelling, hcode ▸ hc.spelling?_eq_some hk' hcanonical, ?_⟩
  exact (code?_eq_some_iff hc.sameCode).mpr ⟨k', hk', rfl, hcode⟩

/-- The aliases of a code are the spellings of its entries that are not canonical. -/
theorem aliases_eq (table : Table) (code : Int) :
    ((byte? code).map table.aliases).getD [] =
      (table.entries.filter fun entry => entry.code == code && !entry.canonical).map
        (·.spelling) := by
  rw [entries_eq_map, List.filter_map, List.map_map]
  cases hbyte : byte? code with
  | none =>
    have hother : ∀ k ∈ table.keywords,
        ¬ ((fun entry : Entry => entry.code == code && !entry.canonical) ∘ Keyword.entry) k = true := by
      intro k _
      have hcode : ¬ (k.code.toNat : Int) = code := fun heq => by
        rw [byte?_eq_some_iff.mpr heq] at hbyte
        cases hbyte
      simp [Keyword.entry, hcode]
    rw [List.filter_eq_nil_iff.mpr hother]
    rfl
  | some byte =>
    obtain rfl := byte?_eq_some_iff.mp hbyte
    rw [Option.map_some, Option.getD_some, aliases]
    refine congrArg₂ List.map rfl (List.filter_congr fun k _ => ?_)
    have hcode : (k.entry.code == (byte.toNat : Int)) = (k.code == byte) := by
      rw [Bool.eq_iff_iff, beq_iff_eq, beq_iff_eq, Keyword.code_entry_eq_iff]
    rw [Function.comp_apply, hcode]
    rfl

end Table

/-- **Entries make a table that looks up both ways.** They make one if every code is one of 0x87 to
0xFF, spellings that are the same in upper case have the same code, and every code there is has one
canonical entry. A spelling is then read as the code of any entry that has it, letter case aside, and a
code is spelled as its canonical entry says, which is read as that code again; what no entry has is not
found. The aliases of a code are its other spellings, in the order of the entries. -/
theorem entries_make_two_way_table (entries : List Entry) :
    ((∃ table, Table.ofEntries entries = .ok table) ↔
      (∀ entry ∈ entries, 0x87 ≤ entry.code ∧ entry.code ≤ 0xFF) ∧
      (∀ entry ∈ entries, ∀ other ∈ entries,
        entry.spelling.upper = other.spelling.upper → entry.code = other.code) ∧
      ∀ entry ∈ entries,
        (entries.filter fun other => other.canonical && other.code == entry.code).length = 1) ∧
    ∀ table, Table.ofEntries entries = .ok table →
      (∀ word, ∀ entry ∈ entries, entry.spelling.upper = word.upper →
        (table.code? word).map (fun code => (code.toNat : Int)) = some entry.code) ∧
      (∀ word, (∀ entry ∈ entries, entry.spelling.upper ≠ word.upper) →
        table.code? word = none) ∧
      (∀ entry ∈ entries, entry.canonical = true →
        (byte? entry.code).bind table.spelling? = some entry.spelling) ∧
      (∀ code, (∀ entry ∈ entries, entry.code ≠ code) →
        (byte? code).bind table.spelling? = none) ∧
      (∀ entry ∈ entries, ∃ word, (byte? entry.code).bind table.spelling? = some word ∧
        (table.code? word).map (fun code => (code.toNat : Int)) = some entry.code) ∧
      ∀ code, ((byte? code).map table.aliases).getD [] =
        (entries.filter fun entry => entry.code == code && !entry.canonical).map
          (·.spelling) := by
  constructor
  · constructor
    · rintro ⟨table, htable⟩
      obtain ⟨rfl, hc⟩ := Table.ofEntries_eq_ok_iff_coherent.mp htable
      exact Table.coherent_iff_entries.mp hc
    · intro hcoherent
      let table : Table := ⟨entries.filterMap Entry.keyword?⟩
      have hentries : table.entries = entries := Entry.map_entry_filterMap fun entry hentry =>
        Entry.isSome_keyword?_iff.mpr (hcoherent.1 entry hentry)
      rw [← hentries] at hcoherent
      exact ⟨table, Table.ofEntries_eq_ok_iff_coherent.mpr
        ⟨hentries, Table.coherent_iff_entries.mpr hcoherent⟩⟩
  · intro table htable
    obtain ⟨rfl, hc⟩ := Table.ofEntries_eq_ok_iff_coherent.mp htable
    have hbyte : ∀ k : Keyword, byte? k.entry.code = some k.code := fun k =>
      byte?_eq_some_iff.mpr rfl
    refine ⟨?_, ?_, ?_, ?_, ?_, table.aliases_eq⟩
    · intro word
      simp only [Table.entries_eq_map, List.forall_mem_map]
      intro k hk hspelled
      rw [(Table.code?_eq_some_iff hc.sameCode).mpr ⟨k, hk, hspelled, rfl⟩]
      rfl
    · intro word hword
      simp only [Table.entries_eq_map, List.forall_mem_map] at hword
      rw [Option.eq_none_iff_forall_ne_some]
      intro code hcode
      obtain ⟨k, hk, hspelled, -⟩ := (Table.code?_eq_some_iff hc.sameCode).mp hcode
      exact hword k hk hspelled
    · simp only [Table.entries_eq_map, List.forall_mem_map, hbyte, Option.bind_some]
      exact fun k hk hcanonical => hc.spelling?_eq_some hk hcanonical
    · intro code hcode
      simp only [Table.entries_eq_map, List.forall_mem_map] at hcode
      rw [Option.bind_eq_none_iff]
      intro byte hfound
      refine Table.spelling?_eq_none fun k hk heq => hcode k hk ?_
      rw [← byte?_eq_some_iff.mp hfound, ← heq]
      rfl
    · simp only [Table.entries_eq_map, List.forall_mem_map, hbyte, Option.bind_some]
      intro k hk
      obtain ⟨word, hspelling, hcode⟩ := hc.code?_spelling? hk
      refine ⟨word, hspelling, ?_⟩
      rw [hcode]
      rfl

/-- Two aliases that differ in letter case only, with an entry of another code between them. -/
theorem two_way_table_of_aliases :
    ∃ table,
      Table.ofEntries [⟨"goto".toList, 0xEC, false⟩, ⟨"GO TO".toList, 0xEC, true⟩,
        ⟨"CLS".toList, 0xFB, true⟩, ⟨"GoTo".toList, 0xEC, false⟩] = .ok table ∧
      (table.code? "gOTO".toList).map (fun code => (code.toNat : Int)) = some 0xEC ∧
      (byte? 0xEC).bind table.spelling? = some "GO TO".toList ∧
      ((byte? 0xEC).map table.aliases).getD [] = ["goto".toList, "GoTo".toList] := by
  obtain ⟨hmakes, hlooks⟩ := entries_make_two_way_table
    [⟨"goto".toList, 0xEC, false⟩, ⟨"GO TO".toList, 0xEC, true⟩, ⟨"CLS".toList, 0xFB, true⟩,
      ⟨"GoTo".toList, 0xEC, false⟩]
  obtain ⟨table, htable⟩ := hmakes.mpr (by decide)
  obtain ⟨hcode, -, hspelling, -, -, haliases⟩ := hlooks table htable
  refine ⟨table, htable, ?_, ?_, haliases 0xEC⟩
  · exact hcode "gOTO".toList ⟨"GoTo".toList, 0xEC, false⟩ (by decide) (by decide)
  · exact hspelling ⟨"GO TO".toList, 0xEC, true⟩ (by decide) rfl

end SpectrumBasic
