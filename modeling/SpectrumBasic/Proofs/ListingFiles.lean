import Mathlib.Data.List.TakeWhile
import SpectrumBasic.Proofs.ListedText
import SpectrumBasic.Proofs.StoredFiles

/-!
# Listings as text files

A listing is a list of lines or one text. No line of a listing holds a character that breaks a line
(`isLineBreak_of_mem_file`), so the text is cut into these lines again (`Text.lines_unlines`), and it
does not matter whether a listing is passed on as lines, as a text, or in a file that holds the text.
-/

namespace SpectrumBasic

/-! ## Lines of a text -/

namespace Text

/-- A text without carriage returns has one newline convention already. -/
theorem unifyNewlines_of_not_mem {text : Text} (h : '\r' ∉ text) : unifyNewlines text = text := by
  -- what stands before a character matters only if it is a carriage return
  have hzip : ∀ previous : Char, previous ≠ '\r' →
      ((previous :: text).zip text).filterMap (fun pair =>
        if pair.1 = '\r' ∧ pair.2 = '\n' then none
        else if pair.2 = '\r' then some '\n'
        else some pair.2) = text := by
    induction text with
    | nil => intro previous _; rfl
    | cons c text ih =>
      intro previous hprevious
      rw [List.mem_cons, not_or] at h
      have hc : c ≠ '\r' := Ne.symm h.1
      have hkept : (if previous = '\r' ∧ c = '\n' then none
          else if c = '\r' then some '\n' else some c) = some c := by
        rw [if_neg fun hboth => hprevious hboth.1, if_neg hc]
      rw [List.zip_cons_cons, List.filterMap_cons]
      simp only [hkept, ih h.2 c hc]
  exact hzip '\n' (by decide)

/-- The first line of a text ends at the first line feed, if no other break stands before it. -/
theorem lines_append {line rest : Text} (hline : ∀ c ∈ line, isLineBreak c = false)
    (hrest : '\r' ∉ rest) : lines (line ++ '\n' :: rest) = line :: lines rest := by
  have hreturn : '\r' ∉ line ++ '\n' :: rest := by
    rw [List.mem_append, List.mem_cons]
    rintro (hmem | heq | hmem)
    · exact absurd (hline '\r' hmem) (by decide)
    · exact absurd heq (by decide)
    · exact hrest hmem
  rw [lines, lines, unifyNewlines_of_not_mem hreturn, unifyNewlines_of_not_mem hrest,
    List.foldr_append, List.foldr_cons, if_pos (by decide)]
  clear hreturn
  induction line with
  | nil => rfl
  | cons c line ih =>
    rw [List.forall_mem_cons] at hline
    rw [List.foldr_cons, ih hline.2, if_neg (by rw [hline.1]; decide)]

/-- Lines without breaks in them are the lines of the text that they make up. -/
theorem lines_unlines {ls : List Text} (h : ∀ line ∈ ls, ∀ c ∈ line, isLineBreak c = false) :
    lines (unlines ls) = ls := by
  induction ls with
  | nil => rfl
  | cons line ls ih =>
    rw [List.forall_mem_cons] at h
    have hreturn : '\r' ∉ unlines ls := by
      rw [unlines, List.mem_flatMap]
      rintro ⟨other, hother, hmem⟩
      rcases List.mem_append.mp hmem with hchar | hend
      · exact absurd (h.2 other hother '\r' hchar) (by decide)
      · exact absurd (List.mem_singleton.mp hend) (by decide)
    rw [unlines, List.flatMap_cons, List.append_assoc, List.singleton_append]
    exact (lines_append h.1 hreturn).trans (congrArg _ (ih h.2))

end Text

/-! ## Text files -/

namespace Encoding

/-- A text has a form in an encoding that has a code for each of its characters. -/
theorem encode_eq_ok_iff {encoding : Encoding} {text : Text} {bytes : Bytes} :
    encoding.encode text = .ok bytes ↔
      (∀ c ∈ text, c.toNat < encoding.size) ∧ bytes = text.flatMap encoding.code := by
  have hnone : encoding.firstUnencodable? text = none ↔ ∀ c ∈ text, c.toNat < encoding.size := by
    have hdrop := @List.dropWhile_eq_nil_iff _ (fun c : Char => decide (c.toNat < encoding.size)) text
    simp only [decide_eq_true_iff] at hdrop
    rw [← hdrop, firstUnencodable?]
    dsimp only
    split
    · rename_i hnil
      simp only [hnil]
    · rename_i c rest hcons
      simp only [hcons, reduceCtorEq]
  rw [encode, ← hnone]
  cases encoding.firstUnencodable? text with
  | none => simp [eq_comm]
  | some run => simp

theorem encode_utf8 (text : Text) : utf8.encode text = .ok (text.flatMap utf8.code) := by
  refine encode_eq_ok_iff.mpr ⟨fun c _ => ?_, rfl⟩
  have hvalid : c.toNat.isValidChar := c.valid
  show c.toNat < 0x110000
  rcases hvalid with hlow | hhigh <;> omega

theorem decode?_utf8 (text : Text) : utf8.decode? (text.flatMap utf8.code) = some text := by
  have hbytes : (⟨(text.flatMap utf8.code).toArray⟩ : ByteArray) = List.utf8Encode text := by
    rw [ByteArray.ext_iff, List.utf8Encode, List.data_toByteArray]
    rfl
  rw [decode?, hbytes, List.utf8Decode?_utf8Encode]
  rfl

end Encoding

namespace Storage

/-- A listing that its codec has a form for is written to a file that can be opened. -/
theorem writeListing_of_encode {settings : Settings} {codecs : Codecs} {dir opened : Directory}
    {path : String} (hopened : writeBytes dir path [] = .ok opened) {codec : Codec}
    (hcodec : codecs.find settings.encoding = .ok codec) {lines : List Text} {bytes : Bytes}
    (hbytes : codec.encode (Text.unlines lines) = .ok bytes) :
    ∃ after, writeBytes opened path bytes = .ok after ∧
      writeListing settings dir path lines codecs = (.ok (), after) := by
  obtain ⟨after, hafter⟩ := writeBytes_again hopened bytes
  exact ⟨after, hafter, by simp only [writeListing, hopened, hcodec, Except.bind, hbytes, hafter]⟩

/-- A listing is written to a file in UTF-8 if the file can be opened, and it is read from there as the
lines of its text. -/
theorem readSource_of_writeListing {writer reader : Settings} (hwriter : writer.encoding = "utf-8")
    (hreader : reader.encoding = "utf-8") {dir opened : Directory} {path : String}
    (hopened : writeBytes dir path [] = .ok opened) (lines : List Text) :
    ∃ after, writeListing writer dir path lines = (.ok (), after) ∧
      readSource reader after path = .ok (Text.unlines lines).lines := by
  have hfind : Codecs.builtin.find "utf-8" = .ok Encoding.utf8.codec := rfl
  obtain ⟨after, hafter, hwritten⟩ := writeListing_of_encode hopened (by rw [hwriter, hfind])
    (Encoding.encode_codec_eq_ok_iff.mpr (Encoding.encode_utf8 (Text.unlines lines)))
  exact ⟨after, hwritten, readSource_eq_ok_iff.mpr ⟨_, _, _, readInput_of_writeBytes hafter,
    by rw [hreader, hfind], Encoding.decode_codec_eq_ok_iff.mpr (Encoding.decode?_utf8 _), rfl⟩⟩

end Storage

/-! ## Listings -/

/-- No line of a listing holds a character that breaks a line. -/
theorem isLineBreak_of_mem_file {data : Bytes} {line : Text}
    (h : line ∈ Listing.file .standard data) : ∀ c ∈ line, Text.isLineBreak c = false := by
  intro c hc
  rw [Text.isLineBreak, Bool.eq_false_iff, ne_eq, List.contains_iff_mem]
  intro hbreak
  have hbounds := (bounds_of_mem_program h).2 c hc
  simp only [List.mem_cons, List.not_mem_nil, or_false] at hbreak
  rcases hbreak with rfl | rfl | rfl | rfl | rfl | rfl | rfl | rfl | rfl | rfl <;>
    exact absurd hbounds (by decide)

/-- **A listing is the same as lines, as a text and as a file.** Every line of a listing is made of
printable ASCII characters and copyright signs, and there are some. So the text of a listing has the
lines of the listing, encoding the text is encoding the lines, and a file that a listing was written to
in UTF-8 is read as these lines again. -/
theorem listing_text_keeps_lines (data : Bytes) :
    (∀ line ∈ Listing.file .standard data, line ≠ [] ∧
      ∀ c ∈ line, (0x20 ≤ c.toNat ∧ c.toNat ≤ 0x7E) ∨ c = '©') ∧
    (Listing.text .standard data).lines = Listing.file .standard data ∧
    (∀ settings, encodeText settings (Listing.text .standard data) =
      encodeProgram settings (Listing.file .standard data)) ∧
    ∀ writer reader dir path opened, writer.encoding = "utf-8" → reader.encoding = "utf-8" →
      Storage.writeBytes dir path [] = .ok opened →
      ∃ after,
        Storage.writeListing writer dir path (Listing.file .standard data) = (.ok (), after) ∧
        Storage.readSource reader after path = .ok (Listing.file .standard data) := by
  have hlines : (Listing.text .standard data).lines = Listing.file .standard data :=
    Text.lines_unlines fun line hline => isLineBreak_of_mem_file hline
  refine ⟨?_, hlines, ?_, ?_⟩
  · intro line hline
    obtain ⟨hne, hbounds⟩ := bounds_of_mem_program hline
    refine ⟨hne, fun c hc => ?_⟩
    rcases hbounds c hc with hascii | hsign
    · exact .inl (by omega)
    · exact .inr hsign
  · intro settings
    rw [encodeText, hlines]
  · intro writer reader dir path opened hwriter hreader hopened
    obtain ⟨after, hwritten, hread⟩ := Storage.readSource_of_writeListing hwriter hreader hopened
      (Listing.file .standard data)
    exact ⟨after, hwritten, hread.trans (congrArg _ hlines)⟩

/-- A form feed in a payload breaks no line of the file, and a copyright sign is read back from it. -/
theorem listing_text_keeps_form_feed :
    ∃ after,
      Storage.writeListing {} {} "a.txt" (Listing.file .standard
        [0, 10, 4, 0, 0xF5, 0x0C, 0x7F, lineEnd]) = (.ok (), after) ∧
      Storage.readSource {} after "a.txt" = .ok ["10 PRINT©".toList] := by
  have hopened : Storage.writeBytes {} "a.txt" [] = .ok { files := [(["a.txt"], [])] } := rfl
  have hfile : Listing.file .standard [0, 10, 4, 0, 0xF5, 0x0C, 0x7F, lineEnd] =
      ["10 PRINT©".toList] := by
    decide +kernel
  obtain ⟨-, -, -, hfiles⟩ :=
    listing_text_keeps_lines [0, 10, 4, 0, 0xF5, 0x0C, 0x7F, lineEnd]
  obtain ⟨after, hwritten, hread⟩ := hfiles {} {} {} "a.txt" _ rfl rfl hopened
  exact ⟨after, hwritten, hread.trans (congrArg _ hfile)⟩

end SpectrumBasic
