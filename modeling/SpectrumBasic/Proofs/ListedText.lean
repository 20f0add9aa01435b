import SpectrumBasic.Proofs.LineListing
import SpectrumBasic.Proofs.SourceLines

/-!
# The text of a listing

Which characters a listing is made of, whatever the bytes are (`bounds_of_mem_program`), so that no
listed line has a control character. The listing of a solid statement is solid (`Reading.solid_line`),
so that it is read back from its line as a whole.
-/

namespace SpectrumBasic

/-! ## Characters of a listing -/

/-- A byte is listed as ASCII characters other than control characters, or as the copyright sign. -/
theorem bounds_of_mem_glyphs {b : UInt8} {rest : Bytes} {c : Char}
    (h : c ∈ Listing.glyphs .standard b rest) :
    (0x20 ≤ c.toNat ∧ c.toNat < 0x7F) ∨ c = copyrightSign := by
  rw [Listing.glyphs] at h
  cases hword : Table.standard.spelling? b with
  | some word =>
    simp only [hword] at h
    obtain ⟨k, hk, -, rfl⟩ := Table.exists_of_spelling? hword
    rcases List.mem_append.mp h with hspelling | hspace
    · have hbounds := bounds_of_isSpellingChar (Table.isSpellingChar_of_mem_standard hk hspelling)
      omega
    · split at hspace
      · rw [List.mem_singleton.mp hspace]
        decide
      · cases hspace
  | none =>
    simp only [hword] at h
    split at h
    · rename_i hrange
      rw [UInt8.le_iff_toNat_le, UInt8.lt_iff_toNat_lt] at hrange
      rw [List.mem_singleton.mp h, toNat_ofNat_toNat]
      exact .inl hrange
    · split at h
      · exact .inr (List.mem_singleton.mp h)
      · cases h

/-- So is a line of any bytes. -/
theorem bounds_of_mem_line {bytes : Bytes} {c : Char} (h : c ∈ Listing.line .standard bytes) :
    (0x20 ≤ c.toNat ∧ c.toNat < 0x7F) ∨ c = copyrightSign := by
  induction hn : bytes.length using Nat.strongRecOn generalizing bytes with
  | ind n ih =>
  cases bytes with
  | nil =>
    rw [Listing.line_nil] at h
    cases h
  | cons b rest =>
    rw [Listing.line] at h
    split at h
    · exact ih _ (by rw [← hn, List.length_drop, List.length_cons]; omega) h rfl
    · rcases List.mem_append.mp h with hglyphs | hlater
      · exact bounds_of_mem_glyphs hglyphs
      · exact ih _ (by rw [← hn, List.length_cons]; omega) hlater rfl

theorem isControl_of_bounds {c : Char}
    (h : (0x20 ≤ c.toNat ∧ c.toNat < 0x7F) ∨ c = copyrightSign) : isControl c = false := by
  rcases h with hbounds | rfl
  · rw [isControl, decide_eq_false_iff_not]
    omega
  · rfl

/-- The only blank in a listing is the space. -/
theorem eq_space_of_isBlank {bytes : Bytes} {c : Char} (h : c ∈ Listing.line .standard bytes)
    (hblank : Text.isBlank c = true) : c = ' ' := by
  rcases bounds_of_mem_line h with hbounds | rfl
  · rw [Text.isBlank, List.any_eq_true] at hblank
    obtain ⟨range, hrange, hin⟩ := hblank
    simp only [Bool.and_eq_true, decide_eq_true_eq] at hin
    have hnat : c.toNat = 0x20 := by
      simp only [Text.blankRanges, List.mem_cons, List.not_mem_nil, or_false] at hrange
      rcases hrange with rfl | rfl | rfl | rfl | rfl | rfl | rfl | rfl | rfl | rfl <;>
        simp only at hin <;> omega
    exact Char.toNat_inj.mp hnat
  · exact absurd hblank (by decide)

/-- A number in decimal is made of such characters. -/
theorem bounds_of_mem_ofInt {n : Int} {c : Char} (h : c ∈ Text.ofInt n) :
    0x20 ≤ c.toNat ∧ c.toNat < 0x7F := by
  have hnat : ∀ {n : Nat}, c ∈ Text.ofNat n → 0x20 ≤ c.toNat ∧ c.toNat < 0x7F := by
    intro n hc
    have hdigit := Text.isDigit_of_mem_ofNat hc
    rw [isDigit_iff] at hdigit
    omega
  cases n with
  | ofNat n => exact hnat h
  | negSucc n =>
    rcases List.mem_cons.mp h with rfl | hc
    · decide
    · exact hnat hc

/-- A line of the listing of a program is made of such characters, and there are some. -/
theorem bounds_of_mem_program {program : Program} {line : Text}
    (h : line ∈ Listing.program .standard program) :
    line ≠ [] ∧ ∀ c ∈ line, (0x20 ≤ c.toNat ∧ c.toNat < 0x7F) ∨ c = copyrightSign := by
  rcases List.mem_append.mp h with hdirective | hrecord
  · obtain ⟨start, -, rfl⟩ := Option.map_eq_some_iff.mp (Option.mem_toList.mp hdirective)
    refine ⟨List.cons_ne_nil _ _, fun c hc => .inl ?_⟩
    rcases List.mem_append.mp hc with hword | hnumber
    · have hall : ∀ c ∈ "#autostart ".toList, 0x20 ≤ c.toNat ∧ c.toNat < 0x7F := by simp
      exact hall c hword
    · exact bounds_of_mem_ofInt hnumber
  · obtain ⟨r, -, rfl⟩ := List.mem_map.mp hrecord
    refine ⟨List.append_ne_nil_of_right_ne_nil _ (List.cons_ne_nil _ _), fun c hc => ?_⟩
    rcases List.mem_append.mp hc with hnumber | hline
    · exact .inl (bounds_of_mem_ofInt (show c ∈ Text.ofInt r.number from hnumber))
    · rcases List.mem_cons.mp hline with rfl | hline
      · exact .inl (by decide)
      · exact bounds_of_mem_line hline

/-! ## Solid listings -/

namespace Reading

variable {place : Place} {text : Text} {lexemes : List Lexeme}

/-- A statement is listed as nothing only if there is none. -/
theorem line_ne_nil (h : Reading .standard place text lexemes)
    (htext : ∀ c ∈ text, isControl c = false) (hne : text ≠ []) :
    Listing.line .standard (bytesOf lexemes) ≠ [] := by
  have hheads := h.heads (p := fun _ => true) (fun _ _ _ => rfl) htext
  obtain ⟨c, rest, rfl⟩ := List.exists_cons_of_ne_nil hne
  intro hnil
  rw [hnil] at hheads
  cases hheads

/-- What is listed in front does not matter for the end of a listing, unless nothing follows. -/
theorem getLast?_append_line {front front' : Text} (h : Reading .standard place text lexemes)
    (htext : ∀ c ∈ text, isControl c = false) (hlast : (front ++ text).getLast? ≠ some ' ')
    (hline : text.getLast? ≠ some ' ' →
      (Listing.line .standard (bytesOf lexemes)).getLast? ≠ some ' ')
    (hfront : text = [] → front'.getLast? ≠ some ' ') :
    (front' ++ Listing.line .standard (bytesOf lexemes)).getLast? ≠ some ' ' := by
  by_cases hne : text = []
  · subst hne
    cases h
    rw [bytesOf_nil, Listing.line_nil, List.append_nil]
    exact hfront rfl
  · rw [Text.getLast?_append_of_ne_nil _ (h.line_ne_nil htext hne)]
    rw [Text.getLast?_append_of_ne_nil _ hne] at hlast
    exact hline hlast

/-- No text is shown with a space at its end but one with a space there. -/
theorem getLast?_map_shown {text : Text} (h : text.getLast? ≠ some ' ') :
    (text.map shown).getLast? ≠ some ' ' := by
  rw [List.getLast?_map]
  intro hspace
  obtain ⟨c, hc, hshown⟩ := Option.map_eq_some_iff.mp hspace
  have hsame := (alike_shown c).eq_iff (x := ' ') (by decide) (by decide) (by decide)
  exact h (hsame.mp hshown ▸ hc)

/-- The listing of a statement that does not end in a space does not end in one. -/
theorem getLast?_line (h : Reading .standard place text lexemes)
    (htext : ∀ c ∈ text, isControl c = false) (hlast : text.getLast? ≠ some ' ') :
    (Listing.line .standard (bytesOf lexemes)).getLast? ≠ some ' ' := by
  -- what is read first matters only if nothing follows it, which `getLast?_append_line` sorts out
  induction h with
  | done =>
    rw [bytesOf_nil, Listing.line_nil]
    exact hlast
  | @closed place inner rest later hinner hrest ih =>
    rw [List.append_cons, ← List.cons_append] at htext hlast
    rw [List.forall_mem_append] at htext
    rw [bytesOf_cons, Lexeme.bytes, Listing.line_textBytes htext.1]
    refine hrest.getLast?_append_line htext.2 hlast (ih htext.2) fun _ => getLast?_map_shown ?_
    rw [← List.cons_append, List.getLast?_concat]
    decide
  | @unclosed place inner hinner =>
    rw [bytesOf_cons, bytesOf_nil, List.append_nil, Lexeme.bytes, Listing.line_text htext]
    exact getLast?_map_shown hlast
  | @number place c tail rest value later hstart hrun hend hvalue hrest ih =>
    rw [← List.cons_append] at htext hlast
    rw [List.forall_mem_append] at htext
    rw [bytesOf_cons, Listing.line_number hrun]
    refine hrest.getLast?_append_line htext.2 hlast (ih htext.2) fun _ hspace => ?_
    exact absurd (hrun ' ' (List.mem_of_getLast? hspace)) (by decide)
  | @comment place rest hplace =>
    rw [bytesOf_cons, bytesOf_nil, List.append_nil, Lexeme.bytes, Listing.line_text htext]
    exact getLast?_map_shown hlast
  | @keyword place c tail rest code spaces later hplain hread hcode hspaces hrest ih =>
    obtain ⟨k, kc, rfl, hlisted⟩ := Keyword.Listed.of_read hread
    rw [← List.append_assoc, ← List.cons_append] at htext hlast
    rw [List.forall_mem_append] at htext
    rw [bytesOf_brokenAt_append, bytesOf_cons, Lexeme.bytes, List.singleton_append,
      Listing.line_code hlisted.spelling?_eq, ← List.append_assoc]
    refine hrest.getLast?_append_line htext.2 hlast (ih htext.2) fun hnil => ?_
    -- with nothing behind it the keyword gets no space
    subst hnil
    cases hrest
    show (kc.spelling ++ []).getLast? ≠ some ' '
    rw [List.append_nil]
    exact Table.getLast?_of_mem_standard hlisted.mem_listed
  | @remark place c tail rest hplain hread =>
    obtain ⟨k, kc, hcode, hlisted⟩ := Keyword.Listed.of_read hread
    rw [← List.cons_append] at htext hlast
    rw [List.forall_mem_append] at htext
    rw [bytesOf_brokenAt_append, bytesOf_cons, bytesOf_nil, List.append_nil, Lexeme.bytes,
      Listing.line_code (hcode ▸ hlisted.spelling?_eq), Listing.line_text htext.2,
      ← List.append_assoc]
    by_cases hne : rest = []
    · subst hne
      show (kc.spelling ++ [] ++ []).getLast? ≠ some ' '
      rw [List.append_nil, List.append_nil]
      exact Table.getLast?_of_mem_standard hlisted.mem_listed
    · rw [Text.getLast?_append_of_ne_nil _ hne] at hlast
      rw [Text.getLast?_append_of_ne_nil _ (fun hnil => hne (List.map_eq_nil_iff.mp hnil))]
      exact getLast?_map_shown hlast
  | @character place c rest later hplain hread hrest ih =>
    rw [← List.singleton_append] at htext hlast
    rw [List.forall_mem_append] at htext
    have hbytes : bytesOf (.character c :: later) = textBytes [c] ++ bytesOf later := rfl
    rw [bytesOf_brokenAt_append, hbytes, Listing.line_textBytes htext.1]
    refine hrest.getLast?_append_line htext.2 hlast (ih htext.2) fun hnil => ?_
    rw [hnil, List.append_nil] at hlast
    exact getLast?_map_shown hlast

/-- The listing of a solid statement is solid. -/
theorem solid_line (h : Reading .standard place text lexemes)
    (htext : ∀ c ∈ text, isControl c = false) (hsolid : Text.Solid text) :
    Text.Solid (Listing.line .standard (bytesOf lexemes)) := by
  have hspace : Text.isBlank ' ' = true := by decide
  refine ⟨h.line_ne_nil htext hsolid.ne_nil, ?_, ?_⟩
  · cases hline : (Listing.line .standard (bytesOf lexemes)).head? with
    | none => rfl
    | some d =>
      rw [Option.any_some, Bool.eq_false_iff]
      intro hblank
      rw [eq_space_of_isBlank (List.mem_of_mem_head? hline) hblank,
        h.head?_line_eq_some_iff (by decide) (by decide) (by decide) htext] at hline
      have hfirst := hsolid.first
      rw [hline, Option.any_some, hspace] at hfirst
      cases hfirst
  · have hlast : text.getLast? ≠ some ' ' := by
      intro hlast
      have hblank := hsolid.last
      rw [hlast, Option.any_some, hspace] at hblank
      cases hblank
    have hline := h.getLast?_line htext hlast
    cases hend : (Listing.line .standard (bytesOf lexemes)).getLast? with
    | none => rfl
    | some d =>
      rw [Option.any_some, Bool.eq_false_iff]
      intro hblank
      rw [hend, eq_space_of_isBlank (List.mem_of_getLast? hend) hblank] at hline
      exact hline rfl

end Reading

end SpectrumBasic
