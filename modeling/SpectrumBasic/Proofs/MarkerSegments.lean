import Mathlib.Data.List.DropRight
import Mathlib.Data.List.Forall2
import SpectrumBasic.Number.Packing
import SpectrumBasic.Proofs.HiddenNumbers

/-!
# Segments between markers

Three readers look for markers in the bytes of a line, each in its own way: the listing passes over hidden
numbers, and a record collects them and tells whether one is cut short. `Hidden.Segments` says what they
have in common. Any bytes are cut up at their markers in just one way (`Segments.exists_bytes_eq`,
`Segments.bytes_injective`), into segments without a marker and the hidden numbers between them, and
each reader works segment by segment. What the bytes of a hidden number look like does not matter for
that: they may be markers, line terminators, digits or codes of keywords themselves.
-/

namespace SpectrumBasic

namespace Hidden

/-- Bytes cut up at the markers of hidden numbers. -/
inductive Segments where
  | last (plain : Bytes) (hplain : marker ∉ plain)
  /-- Bytes without a marker, and a hidden number that is cut short. -/
  | cut (plain : Bytes) (hplain : marker ∉ plain) (tail : Bytes) (htail : tail.length < size)
  /-- Bytes without a marker, a hidden number, and what follows it. -/
  | block (plain : Bytes) (hplain : marker ∉ plain) (packed : Bytes) (hpacked : packed.length = size)
      (later : Segments)

namespace Segments

/-- The bytes that are cut up. -/
def bytes : Segments → Bytes
  | last plain _ => plain
  | cut plain _ tail _ => plain ++ marker :: tail
  | block plain _ packed _ later => plain ++ marker :: (packed ++ later.bytes)

/-- The segments without a marker, in order. -/
def plains : Segments → List Bytes
  | last plain _ | cut plain _ _ _ => [plain]
  | block plain _ _ _ later => plain :: later.plains

/-- The hidden numbers in order, each with the segment in front of it. -/
def blocks : Segments → List (Bytes × Bytes)
  | last _ _ | cut _ _ _ _ => []
  | block plain _ packed _ later => (plain, packed) :: later.blocks

/-- Whether a hidden number is cut short at the end. -/
def isCut : Segments → Bool
  | last _ _ => false
  | cut _ _ _ _ => true
  | block _ _ _ _ later => later.isCut

/-! ## Cutting up bytes -/

/-- Any bytes can be cut up. -/
theorem exists_bytes_eq (bytes : Bytes) : ∃ segments : Segments, segments.bytes = bytes := by
  induction hn : bytes.length using Nat.strongRecOn generalizing bytes with
  | ind n ih =>
  by_cases hmarker : marker ∈ bytes
  · obtain ⟨plain, back, rfl, hplain⟩ := List.eq_append_cons_of_mem hmarker
    by_cases hcut : back.length < size
    · exact ⟨cut plain hplain back hcut, rfl⟩
    · have hpacked : (back.take size).length = size := by
        rw [List.length_take]
        omega
      have hshorter : (back.drop size).length < n := by
        rw [← hn, List.length_drop, List.length_append, List.length_cons]
        omega
      obtain ⟨later, hlater⟩ := ih _ hshorter (back.drop size) rfl
      refine ⟨block plain hplain (back.take size) hpacked later, ?_⟩
      rw [Segments.bytes, hlater, List.take_append_drop]
  · exact ⟨last bytes hmarker, rfl⟩

theorem ne_append_marker {plain front back : Bytes} (h : marker ∉ plain) :
    plain ≠ front ++ marker :: back := by
  rintro rfl
  exact h (List.mem_append_right front List.mem_cons_self)

/-- The first marker of some bytes has one place only. -/
theorem append_marker_inj {plain plain' back back' : Bytes} (h : marker ∉ plain)
    (h' : marker ∉ plain') (heq : plain ++ marker :: back = plain' ++ marker :: back') :
    plain = plain' ∧ back = back' := by
  obtain ⟨between, rfl, hback⟩ := split_of_not_mem h heq
  cases between with
  | nil => exact ⟨(List.append_nil plain).symm, (List.cons.inj hback).2⟩
  | cons b between =>
    obtain ⟨rfl, -⟩ := List.cons.inj hback
    exact absurd rfl (ne_append_marker h')

theorem ne_packed_append {tail packed later : Bytes} (htail : tail.length < size)
    (hpacked : packed.length = size) : tail ≠ packed ++ later := by
  rintro rfl
  rw [List.length_append] at htail
  omega

/-- **Bytes are cut up in one way only.** -/
theorem bytes_injective : Function.Injective bytes := by
  intro first
  induction first with
  | last plain hplain =>
    intro second heq
    cases second with
    | last plain' hplain' =>
      obtain rfl : plain = plain' := heq
      rfl
    | cut plain' hplain' tail' htail' => exact absurd heq (ne_append_marker hplain)
    | block plain' hplain' packed' hpacked' later' => exact absurd heq (ne_append_marker hplain)
  | cut plain hplain tail htail =>
    intro second heq
    cases second with
    | last plain' hplain' => exact absurd heq.symm (ne_append_marker hplain')
    | cut plain' hplain' tail' htail' =>
      obtain ⟨rfl, rfl⟩ := append_marker_inj hplain hplain' heq
      rfl
    | block plain' hplain' packed' hpacked' later' =>
      obtain ⟨-, hback⟩ := append_marker_inj hplain hplain' heq
      exact absurd hback (ne_packed_append htail hpacked')
  | block plain hplain packed hpacked later ih =>
    intro second heq
    cases second with
    | last plain' hplain' => exact absurd heq.symm (ne_append_marker hplain')
    | cut plain' hplain' tail' htail' =>
      obtain ⟨-, hback⟩ := append_marker_inj hplain hplain' heq
      exact absurd hback.symm (ne_packed_append htail' hpacked)
    | block plain' hplain' packed' hpacked' later' =>
      obtain ⟨rfl, hback⟩ := append_marker_inj hplain hplain' heq
      obtain ⟨rfl, hlater⟩ := List.append_inj hback (hpacked.trans hpacked'.symm)
      obtain rfl := ih hlater
      rfl

end Segments

end Hidden

/-! ## The listing -/

namespace Listing

variable (table : Table)

/-- Bytes without a marker are listed by themselves, if what follows them is not kept apart from a
keyword. -/
theorem line_append {plain rest : Bytes} (hplain : Hidden.marker ∉ plain)
    (hrest : rest.head?.any needsSpace = false) :
    line table (plain ++ rest) = line table plain ++ line table rest := by
  induction plain with
  | nil => rw [line_nil, List.nil_append, List.nil_append]
  | cons b plain ih =>
    rw [List.mem_cons, not_or] at hplain
    -- only the last byte of the segment has a byte of the rest right behind it
    have hglyphs : glyphs table b (plain ++ rest) = glyphs table b plain := by
      cases plain with
      | nil =>
        simp only [glyphs, List.nil_append, hrest, List.head?_nil, Option.any_none]
        rfl
      | cons d plain => rfl
    have hb : b ≠ Hidden.marker := Ne.symm hplain.1
    rw [List.cons_append, line_cons hb, line_cons hb, hglyphs, ih hplain.2, List.append_assoc]

theorem line_marker (rest : Bytes) :
    line table (Hidden.marker :: rest) = line table (rest.drop Hidden.size) := by
  rw [line, if_pos rfl]

theorem line_append_marker {plain rest : Bytes} (hplain : Hidden.marker ∉ plain) :
    line table (plain ++ Hidden.marker :: rest) =
      line table plain ++ line table (rest.drop Hidden.size) := by
  have hspace : (Hidden.marker :: rest).head?.any needsSpace = false := rfl
  rw [line_append table hplain hspace, line_marker]

/-- **A line is listed segment by segment.** -/
theorem line_bytes (segments : Hidden.Segments) :
    line table segments.bytes = segments.plains.flatMap (line table) := by
  induction segments with
  | last plain hplain => exact (List.flatMap_singleton _ _).symm
  | cut plain hplain tail htail =>
    rw [Hidden.Segments.bytes, line_append_marker table hplain, List.drop_of_length_le (by omega),
      line_nil]
    rfl
  | block plain hplain packed hpacked later ih =>
    rw [Hidden.Segments.bytes, line_append_marker table hplain, List.drop_left' hpacked, ih]
    rfl

end Listing

/-! ## Records -/

namespace LineRecord

/-- The text of some bytes. -/
def byteText (bytes : Bytes) : Text := bytes.map fun b => Char.ofNat b.toNat

/-- Bytes without a marker are passed, and what is known of them is the run that ends them. -/
theorem hiddenIn_append {plain : Bytes} (hplain : Hidden.marker ∉ plain) (rest : Bytes) :
    hiddenIn [] (plain ++ rest) =
      hiddenIn (byteText (plain.rtakeWhile isLiteralByte)).reverse rest := by
  induction plain using List.reverseRecOn generalizing rest with
  | nil => rfl
  | append_singleton plain b ih =>
    rw [List.mem_append, not_or, List.mem_singleton] at hplain
    rw [List.append_assoc, ih hplain.1, List.singleton_append, hiddenIn,
      if_neg (Ne.symm hplain.2)]
    by_cases hb : isLiteralByte b = true
    · rw [if_pos hb, List.rtakeWhile_concat_pos _ _ _ hb, byteText, byteText, List.map_append,
        List.reverse_append]
      rfl
    · rw [if_neg hb, List.rtakeWhile_concat_neg _ _ _ hb]
      rfl

/-- **The hidden numbers of a line are those between its segments.** -/
theorem hiddenIn_bytes (segments : Hidden.Segments) :
    hiddenIn [] segments.bytes =
      segments.blocks.map fun (plain, packed) =>
        (byteText (plain.rtakeWhile isLiteralByte), Hidden.ofBytes? packed) := by
  induction segments with
  | last plain hplain =>
    have hplain' := hiddenIn_append hplain []
    rw [List.append_nil, hiddenIn_nil] at hplain'
    exact hplain'
  | cut plain hplain tail htail =>
    have hshort : (tail.take Hidden.size).length < Hidden.size :=
      Nat.lt_of_le_of_lt (List.length_take_le' Hidden.size tail) htail
    rw [Hidden.Segments.bytes, hiddenIn_append hplain, hiddenIn, if_pos rfl]
    simp only [if_pos hshort]
    rfl
  | block plain hplain packed hpacked later ih =>
    have hfull : ¬ packed.length < Hidden.size := Nat.not_lt.mpr (Nat.le_of_eq hpacked.symm)
    rw [Hidden.Segments.bytes, hiddenIn_append hplain, hiddenIn, if_pos rfl,
      List.take_left' hpacked, List.drop_left' hpacked, ih]
    simp only [if_neg hfull, List.reverse_reverse]
    rfl

theorem cutIn_append {plain : Bytes} (hplain : Hidden.marker ∉ plain) (rest : Bytes) :
    cutIn (plain ++ rest) = cutIn rest := by
  induction plain with
  | nil => rfl
  | cons b plain ih =>
    rw [List.mem_cons, not_or] at hplain
    rw [List.cons_append, cutIn, if_neg (Ne.symm hplain.1), ih hplain.2]

/-- **A line ends within a hidden number if its last segment does.** -/
theorem cutIn_bytes (segments : Hidden.Segments) : cutIn segments.bytes = segments.isCut := by
  induction segments with
  | last plain hplain =>
    have hplain' := cutIn_append hplain []
    rw [List.append_nil, show cutIn [] = false by rw [cutIn]] at hplain'
    exact hplain'
  | cut plain hplain tail htail =>
    have hshort : (tail.take Hidden.size).length < Hidden.size :=
      Nat.lt_of_le_of_lt (List.length_take_le' Hidden.size tail) htail
    rw [Hidden.Segments.bytes, cutIn_append hplain, cutIn, if_pos rfl, decide_eq_true hshort]
    rfl
  | block plain hplain packed hpacked later ih =>
    have hfull : ¬ packed.length < Hidden.size := Nat.not_lt.mpr (Nat.le_of_eq hpacked.symm)
    rw [Hidden.Segments.bytes, cutIn_append hplain, cutIn, if_pos rfl, List.take_left' hpacked,
      List.drop_left' hpacked, ih, decide_eq_false hfull]
    rfl

end LineRecord

/-! ## One cut for all readers -/

namespace Hidden

/-- The hidden numbers between segments are not cut short. -/
theorem Segments.unpackNumber_of_mem_blocks {segments : Segments} {block : Bytes × Bytes}
    (h : block ∈ segments.blocks) : unpackNumber block.2 = .ok (ofBytes? block.2) := by
  induction segments with
  | last plain hplain => exact absurd h List.not_mem_nil
  | cut plain hplain tail htail => exact absurd h List.not_mem_nil
  | block plain hplain packed hpacked later ih =>
    rcases List.mem_cons.mp h with rfl | hlater
    · exact if_pos hpacked
    · exact ih hlater

end Hidden

namespace LineRecord

theorem body_of_payload_eq {record : LineRecord} {bytes : Bytes}
    (h : record.payload = bytes ++ [lineEnd]) : record.body = bytes := by
  rw [body, h, List.getLast?_concat, if_pos rfl, List.dropLast_concat]

end LineRecord

/-- **The readers of hidden numbers agree.** Any bytes are cut up at their markers in exactly one way.
The listing is that of the segments without a marker, one after another, whatever the hidden numbers
hold. A record of these bytes has one entry for each hidden number, in order: the longest run of digits
and points at the end of the segment in front of it, and the value that its bytes are unpacked to. And
the record ends within a hidden number exactly if the cut does. -/
theorem marker_readers_agree (bytes : Bytes) :
    ∃ segments : Hidden.Segments,
      (∀ other : Hidden.Segments, other.bytes = bytes ↔ other = segments) ∧
      (∀ table, Listing.line table bytes = segments.plains.flatMap (Listing.line table)) ∧
      ∀ record : LineRecord, record.payload = bytes ++ [lineEnd] →
        List.Forall₂
          (fun block entry =>
            entry.1 = LineRecord.byteText (block.1.rtakeWhile LineRecord.isLiteralByte) ∧
            Hidden.unpackNumber block.2 = .ok entry.2)
          segments.blocks record.hiddenNumbers ∧
        (record.hasCutNumber = true ↔ segments.isCut = true) := by
  obtain ⟨segments, rfl⟩ := Hidden.Segments.exists_bytes_eq bytes
  refine ⟨segments, fun other => Hidden.Segments.bytes_injective.eq_iff,
    fun table => Listing.line_bytes table segments, fun record hpayload => ?_⟩
  have hbody := LineRecord.body_of_payload_eq hpayload
  constructor
  · rw [LineRecord.hiddenNumbers, hbody, LineRecord.hiddenIn_bytes, List.forall₂_map_right_iff,
      List.forall₂_same]
    exact fun block hblock => ⟨rfl, Hidden.Segments.unpackNumber_of_mem_blocks hblock⟩
  · rw [LineRecord.hasCutNumber, hbody, LineRecord.cutIn_bytes]

/-- Adjacent hidden numbers, the first of them made of markers, and a third that is cut short. -/
example : (Hidden.Segments.block [0x31] (by decide) (List.replicate 5 Hidden.marker) rfl
    (.block [] (by decide) [0x0D, 0x31, 0xF5, 0, 0] rfl (.cut [0x32] (by decide) [0] (by decide)))).bytes =
      [0x31, 0x0E, 0x0E, 0x0E, 0x0E, 0x0E, 0x0E, 0x0E, 0x0D, 0x31, 0xF5, 0, 0, 0x32, 0x0E, 0] := by
  decide

end SpectrumBasic
