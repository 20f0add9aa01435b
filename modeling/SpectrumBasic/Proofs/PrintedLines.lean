import SpectrumBasic.Command.Convert
import SpectrumBasic.Command.Inspect
import SpectrumBasic.Proofs.Characters
import SpectrumBasic.Proofs.ListingFiles
import SpectrumBasic.Proofs.NumberFindings
import SpectrumBasic.Proofs.ScriptRuns

/-!
# Characters of printed lines

What the tools print is ASCII, but for what they repeat from elsewhere. That is the path of a file and,
in the description of a header, a replacement character for each byte of its signature that is not ASCII
(`Command.asciiOr_description`). Listings have copyright signs besides (`ListedText`). So a console that
takes these characters refuses no line, whatever is in a file.
-/

namespace SpectrumBasic

/-! ## Lines of ASCII characters -/

/-- A line is made of ASCII characters and of some others. -/
def AsciiOr (p : Char → Prop) (line : String) : Prop := ∀ c ∈ line.toList, c.toNat < 0x80 ∨ p c

namespace AsciiOr

variable {p q : Char → Prop} {line other : String}

theorem mono (h : AsciiOr p line) (hpq : ∀ c, p c → q c) : AsciiOr q line :=
  fun c hc => (h c hc).imp_right (hpq c)

theorem of_all (h : (line.toList.all fun c => decide (c.toNat < 0x80)) = true) : AsciiOr p line :=
  fun c hc => .inl (of_decide_eq_true (List.all_eq_true.mp h c hc))

theorem append : AsciiOr p (line ++ other) ↔ AsciiOr p line ∧ AsciiOr p other := by
  simp only [AsciiOr, String.toList_append, List.mem_append, or_imp, forall_and]

theorem ofList {text : Text} (h : ∀ c ∈ text, c.toNat < 0x80) : AsciiOr p (String.ofList text) := by
  intro c hc
  rw [String.toList_ofList] at hc
  exact .inl (h c hc)

/-! ### Numbers -/

theorem toNat_lt_of_mem_toDigits {base n : Nat} (hbase : 1 < base) (hle : base ≤ 16) {c : Char}
    (h : c ∈ Nat.toDigits base n) : c.toNat < 0x80 := by
  have hdigit : ∀ d < 16, (Nat.digitChar d).toNat < 0x80 := by decide
  induction n using Nat.strongRecOn with
  | ind n ih =>
    rw [Nat.toDigits_eq_if hbase] at h
    split at h
    · rename_i hlt
      rw [List.mem_singleton.mp h]
      exact hdigit n (Nat.lt_of_lt_of_le hlt hle)
    · rename_i hnot
      rcases List.mem_append.mp h with hfront | hlast
      · exact ih (n / base) (Nat.div_lt_self (by omega) hbase) hfront
      · have hmod : n % base < base := Nat.mod_lt n (by omega)
        rw [List.mem_singleton.mp hlast]
        exact hdigit _ (Nat.lt_of_lt_of_le hmod hle)

theorem ofNat (n : Nat) : AsciiOr p (String.ofList (Text.ofNat n)) :=
  ofList fun _ hc => toNat_lt_of_mem_toDigits (by decide) (by decide) hc

theorem repr (n : Nat) : AsciiOr p n.repr := by
  rw [← Nat.toString_eq_repr, Nat.toString_eq_ofList_toDigits]
  exact ofNat n

theorem ofInt (n : Int) : AsciiOr p (String.ofList (Text.ofInt n)) := by
  cases n with
  | ofNat n => exact ofNat n
  | negSucc n =>
    refine ofList fun c hc => ?_
    rcases List.mem_cons.mp hc with rfl | hdigit
    · decide
    · exact toNat_lt_of_mem_toDigits (by decide) (by decide) hdigit

theorem toNat_lt_of_mem_upper_hex {width n : Nat} {c : Char}
    (h : c ∈ Text.upper (Text.hex width n)) : c.toNat < 0x80 := by
  obtain ⟨d, hd, rfl⟩ := List.mem_map.mp h
  have hascii : d.toNat < 0x80 := by
    rcases List.mem_append.mp hd with hpadding | hdigit
    · rw [List.eq_of_mem_replicate hpadding]
      decide
    · exact toNat_lt_of_mem_toDigits (by decide) (by decide) hdigit
  rw [toNat_toUpper]
  split <;> omega

theorem showCode (code : Int) : AsciiOr p (Text.showCode code) := by
  refine append.mpr ⟨of_all (by decide), ofList fun c hc => ?_⟩
  cases code with
  | ofNat n => exact toNat_lt_of_mem_upper_hex hc
  | negSucc n =>
    rcases List.mem_cons.mp hc with rfl | hdigit
    · decide
    · exact toNat_lt_of_mem_upper_hex hdigit

/-! ### Paths, and lines as they are printed -/

/-- Normalizing puts only ASCII characters into a path. -/
theorem normalize (path : String) : AsciiOr (· ∈ path.toList) (Path.normalize path) := by
  intro c hc
  rcases Path.mem_of_mem_normalize hc with hpath | rfl | rfl
  · exact .inr hpath
  · exact .inl (by decide)
  · exact .inl (by decide)

theorem mem_of_mem_plain {text : Text} {c : Char} (h : c ∈ Text.plain text) : c ∈ text := by
  induction text using Text.plain.induct with
  | case1 =>
    rw [Text.plain] at h
    cases h
  | case2 d rest hnone ih =>
    rw [Text.plain] at h
    simp only [hnone] at h
    exact List.mem_cons.mpr ((List.mem_cons.mp h).imp_right ih)
  | case3 d rest more hsequence ih =>
    rw [Text.plain] at h
    simp only [hsequence] at h
    exact List.mem_cons_of_mem d (List.mem_of_mem_drop (ih h))

theorem plainLine (h : AsciiOr p line) : AsciiOr p (Transcript.plainLine line) := by
  intro c hc
  rw [Transcript.plainLine, String.toList_ofList] at hc
  exact h c (mem_of_mem_plain hc)

end AsciiOr

/-- Lines are accepted by a console that takes ASCII and the other characters in them. -/
theorem Console.accepts_of_asciiOr {console : Console} {p : Char → Prop}
    (h : console.Takes fun c => c.toNat < 0x80 ∨ p c) {lines : List String}
    (hlines : ∀ line ∈ lines, AsciiOr p line) (printed : List String) :
    console.accepts printed (lines.map Transcript.plainLine) = true := by
  refine accepts_of_takes h ?_ printed
  rw [List.forall_mem_map]
  exact fun line hline => (hlines line hline).plainLine

/-- A console takes the characters that its encoding has codes for. -/
theorem Console.takes_ofCodec (encoding : Encoding) :
    (ofCodec encoding.codec).Takes fun c => c.toNat < encoding.size := by
  intro printed line hline
  have hcodes : ∀ c ∈ line.toList ++ ['\n'], c.toNat < encoding.size := by
    rw [List.forall_mem_append, List.forall_mem_singleton]
    refine ⟨hline, ?_⟩
    cases encoding <;> decide
  have hencoded := Encoding.encode_codec_eq_ok_iff.mpr (Encoding.encode_eq_ok_iff.mpr ⟨hcodes, rfl⟩)
  simp only [ofCodec, hencoded]

/-! ## Findings -/

/-- A literal in front of a hidden number is made of ASCII characters. -/
theorem LineRecord.toNat_lt_of_mem_hiddenIn {run : Text} {bytes : Bytes}
    (hrun : ∀ c ∈ run, c.toNat < 0x80) {found : Text × Option Int}
    (h : found ∈ hiddenIn run bytes) : ∀ c ∈ found.1, c.toNat < 0x80 := by
  induction run, bytes using hiddenIn.induct with
  | case1 run =>
    rw [hiddenIn_nil] at h
    cases h
  | case2 run rest packed hshort =>
    rw [hiddenIn, if_pos rfl, if_pos hshort] at h
    cases h
  | case3 run rest packed hlong ih =>
    rw [hiddenIn, if_pos rfl, if_neg hlong] at h
    rcases List.mem_cons.mp h with rfl | hlater
    · exact fun c hc => hrun c (List.mem_reverse.mp hc)
    · exact ih (List.forall_mem_nil _) hlater
  | case4 run b rest hmarker hliteral ih =>
    rw [hiddenIn, if_neg hmarker, if_pos hliteral] at h
    have hb := bounds_of_isLiteralChar hliteral
    refine ih (List.forall_mem_cons.mpr ⟨?_, hrun⟩) h
    omega
  | case5 run b rest hmarker hliteral ih =>
    rw [hiddenIn, if_neg hmarker, if_neg hliteral] at h
    exact ih (List.forall_mem_nil _) h

/-- A finding is worded in ASCII, as long as a literal in it is. -/
theorem Finding.asciiOr_message {p : Char → Prop} {finding : Finding}
    (h : ∀ line literal value, finding = .storedWrongly line literal value →
      ∀ c ∈ literal, c.toNat < 0x80) : AsciiOr p finding.message := by
  cases finding with
  | headerMissing | noLines | recordCut => exact .of_all (by decide)
  | storedWrongly line literal value =>
    have hliteral : AsciiOr p (String.ofList literal) := .ofList (h line literal value rfl)
    dsimp only [message]
    simp only [toString, AsciiOr.append, AsciiOr.repr, AsciiOr.ofInt, hliteral, and_true]
    and_intros <;> exact .of_all (by decide)
  | _ =>
    dsimp only [message]
    simp only [toString, AsciiOr.append, AsciiOr.repr, AsciiOr.ofInt, AsciiOr.showCode, and_true]
    and_intros <;> exact .of_all (by decide)

namespace Validation

/-- Only in a record a number can be stored wrongly, and the literal in front of it is in ASCII. -/
theorem toNat_lt_of_storedWrongly {record : LineRecord} {line : Nat} {literal : Text} {value : Int}
    (h : .storedWrongly line literal value ∈ ofRecord record) : ∀ c ∈ literal, c.toNat < 0x80 := by
  unfold ofRecord at h
  split at h
  · simp at h
  · simp only [List.mem_append, List.mem_ite_nil_left, List.mem_ite_nil_right, List.mem_singleton,
      reduceCtorEq, and_false, false_or] at h
    obtain ⟨⟨other, value?⟩, hfound, hstored⟩ := List.mem_filterMap.mp h
    obtain ⟨_, -, hequal⟩ := Option.map_eq_some_iff.mp hstored
    cases hequal
    exact LineRecord.toNat_lt_of_mem_hiddenIn (List.forall_mem_nil _) hfound

/-- Whatever is wrong with a file is worded in ASCII. -/
theorem asciiOr_message_of_mem {p : Char → Prop} {data : Bytes} {program : Program}
    {finding : Finding} (h : finding ∈ findings data program) : AsciiOr p finding.message := by
  refine Finding.asciiOr_message ?_
  rintro line literal value rfl
  obtain ⟨record, -, hrecord⟩ : ∃ record ∈ program.lines,
      .storedWrongly line literal value ∈ ofRecord record := by
    unfold findings at h
    simp only [List.mem_append, List.mem_ite_nil_right, List.mem_singleton, reduceCtorEq, and_false,
      or_false, List.mem_flatMap] at h
    refine h.resolve_left fun hfirst => ?_
    cases hheader : program.header with
    | none =>
      rw [hheader] at hfirst
      cases List.mem_singleton.mp hfirst
    | some header =>
      rw [hheader] at hfirst
      simp only [ofHeader, List.mem_append, List.mem_ite_nil_left, List.mem_singleton, reduceCtorEq,
        and_false, or_false] at hfirst
  exact toNat_lt_of_storedWrongly hrecord

end Validation

/-! ## Reports -/

namespace Command

variable {p : Char → Prop} {name : String} {data : Bytes}

theorem asciiOr_rule (width : Nat) {c : Char} (h : c.toNat < 0x80) : AsciiOr p (rule width c) :=
  .ofList fun d hd => by rwa [List.eq_of_mem_replicate hd]

theorem asciiOr_alignRight {width : Nat} {line : String} (h : AsciiOr p line) :
    AsciiOr p (alignRight width line) := by
  intro c hc
  rw [alignRight, String.toList_ofList, List.leftpad, List.mem_append] at hc
  rcases hc with hblank | hmem
  · rw [List.eq_of_mem_replicate hblank]
    exact .inl (by decide)
  · exact h c hmem

/-- A signature is shown in ASCII, but for the bytes that are not. -/
theorem asciiOr_showSignature {signature : Bytes} (h : ∀ b ∈ signature, 0x80 ≤ b → p '\ufffd') :
    AsciiOr p (showSignature signature) := by
  intro c hc
  rw [showSignature, String.toList_ofList] at hc
  obtain ⟨b, hb, rfl⟩ := List.mem_map.mp hc
  by_cases hascii : b < 0x80
  · rw [if_pos hascii]
    left
    have hlt : b.toNat < 0x80 := UInt8.lt_iff_toNat_lt.mp hascii
    rwa [toNat_ofNat_toNat]
  · rw [if_neg hascii]
    exact .inr (h b hb (UInt8.not_lt.mp hascii))

/-- The description of a header is in ASCII, but for its signature. -/
theorem asciiOr_describeHeader {header : DiskHeader}
    (h : ∀ b ∈ header.signature, 0x80 ≤ b → p '\ufffd') (autostart : Option Int) :
    ∀ line ∈ describeHeader data header autostart, AsciiOr p line := by
  have hsignature := asciiOr_showSignature h
  have htype : AsciiOr p (((FileType.ofInt? header.fileType).map FileType.description).getD
      "Unknown") := by
    cases FileType.ofInt? header.fileType with
    | none => exact .of_all (by decide)
    | some type => cases type <;> exact .of_all (by decide)
  have hstart : AsciiOr p ((autostart.map fun n => String.ofList (Text.ofInt n)).getD "None") := by
    cases autostart with
    | none => exact .of_all (by decide)
    | some start => exact .ofInt start
  dsimp only [describeHeader]
  cases DiskHeader.verifies data
  all_goals
    simp only [if_true, Bool.false_eq_true, if_false, List.forall_mem_cons, List.not_mem_nil,
      false_imp_iff, implies_true, toString, AsciiOr.append, AsciiOr.ofInt, AsciiOr.showCode,
      hsignature, htype, hstart, and_true]
    and_intros <;> exact .of_all (by decide)

theorem asciiOr_describeLines (program : Program) :
    ∀ line ∈ describeLines program, AsciiOr p line := by
  dsimp only [describeLines]
  simp only [List.forall_mem_append, List.forall_mem_cons, List.not_mem_nil, false_imp_iff,
    implies_true, toString, AsciiOr.append, AsciiOr.repr, and_true]
  refine ⟨⟨⟨?_, ?_⟩, ?_⟩, ?_⟩
  · and_intros <;> exact .of_all (by decide)
  · split
    · simp only [List.forall_mem_singleton, AsciiOr.append, AsciiOr.repr, and_true]
      and_intros <;> exact .of_all (by decide)
    · exact List.forall_mem_nil _
  · and_intros <;> exact .of_all (by decide)
  · cases program.truncated with
    | false => exact List.forall_mem_nil _
    | true => exact List.forall_mem_singleton.mpr (.of_all (by decide))

theorem asciiOr_lineTable (program : Program) :
    ∀ line ∈ lineTable program, AsciiOr p line := by
  dsimp only [lineTable]
  rw [List.forall_mem_append, List.forall_mem_map]
  refine ⟨?_, fun record _ => ?_⟩
  · simp only [List.forall_mem_cons, List.not_mem_nil, false_imp_iff, implies_true,
      AsciiOr.append, and_true]
    exact ⟨.of_all (by decide), ⟨⟨asciiOr_alignRight (.of_all (by decide)), .of_all (by decide)⟩,
      asciiOr_alignRight (.of_all (by decide))⟩, asciiOr_rule 15 (by decide)⟩
  · simp only [toString, AsciiOr.append]
    exact ⟨⟨asciiOr_alignRight (.ofNat _), .of_all (by decide)⟩, asciiOr_alignRight (.ofNat _)⟩

/-- A program file is described in ASCII, with the path of the file and the signature of its header. -/
theorem asciiOr_description {program : Program} (hname : AsciiOr p name)
    (hsignature : ∀ header, program.header = some header →
      ∀ b ∈ header.signature, 0x80 ≤ b → p '\ufffd') (showLines : Bool) :
    ∀ line ∈ (description name data program showLines).lines, AsciiOr p line := by
  dsimp only [description]
  simp only [List.forall_mem_append, List.forall_mem_cons, List.not_mem_nil, false_imp_iff,
    implies_true, toString, AsciiOr.append, hname, and_true]
  refine ⟨⟨⟨⟨⟨.of_all (by decide), asciiOr_rule 40 (by decide)⟩, ?_⟩, .of_all (by decide)⟩,
    asciiOr_describeLines program⟩, ?_⟩
  · split
    · rename_i header hheader
      exact asciiOr_describeHeader (hsignature header hheader) program.autostart
    · exact List.forall_mem_singleton.mpr (.of_all (by decide))
  · split
    · exact asciiOr_lineTable program
    · exact List.forall_mem_nil _

theorem asciiOr_verdict {findings : List Finding} (hname : AsciiOr p name)
    (h : ∀ finding ∈ findings, AsciiOr p finding.message) :
    ∀ line ∈ (verdict name findings).lines, AsciiOr p line := by
  have hwarned : ∀ finding ∈ findings.filter fun finding => !finding.isError,
      AsciiOr p s!"  WARNING: {finding.message}" := by
    intro finding hfinding
    simp only [toString, AsciiOr.append, h finding (List.mem_of_mem_filter hfinding), and_true]
    exact .of_all (by decide)
  have herrors : ∀ finding ∈ findings.filter Finding.isError,
      AsciiOr p s!"  ERROR: {finding.message}" := by
    intro finding hfinding
    simp only [toString, AsciiOr.append, h finding (List.mem_of_mem_filter hfinding), and_true]
    exact .of_all (by decide)
  have hpassed : AsciiOr p s!"Validation PASSED: {name}" := by
    simp only [toString, AsciiOr.append, hname, and_true]
    exact .of_all (by decide)
  dsimp only [verdict]
  split
  · rw [List.cons_append, List.forall_mem_cons, List.forall_mem_append, List.forall_mem_map,
      List.forall_mem_map]
    exact ⟨.of_all (by decide), herrors, hwarned⟩
  · split
    · rw [List.forall_mem_cons, List.forall_mem_map]
      exact ⟨.of_all (by decide), hwarned⟩
    · exact List.forall_mem_singleton.mpr hpassed

theorem asciiOr_validationDetails (data : Bytes) (program : Program) :
    ∀ line ∈ validationDetails data program, AsciiOr p line := by
  dsimp only [validationDetails]
  rw [List.forall_mem_append, List.forall_mem_singleton]
  constructor
  · split
    · split
      · simp only [List.forall_mem_singleton, toString, AsciiOr.append, AsciiOr.showCode, and_true]
        and_intros <;> exact .of_all (by decide)
      · exact List.forall_mem_nil _
    · exact List.forall_mem_nil _
  · simp only [toString, AsciiOr.append, AsciiOr.repr, and_true]
    exact .of_all (by decide)

/-- A program file is validated in ASCII, with the path of the file. -/
theorem asciiOr_validation (hname : AsciiOr p name) (data : Bytes) (program : Program)
    (verbose : Bool) :
    ∀ line ∈ (validation name data program verbose).lines, AsciiOr p line := by
  dsimp only [validation]
  rw [List.forall_mem_append]
  refine ⟨?_, asciiOr_verdict hname fun _ => Validation.asciiOr_message_of_mem⟩
  split
  · exact asciiOr_validationDetails data program
  · exact List.forall_mem_nil _

theorem asciiOr_created (hname : AsciiOr p name) : AsciiOr p (created name) := by
  show AsciiOr p ("Success! Created " ++ name)
  exact AsciiOr.append.mpr ⟨.of_all (by decide), hname⟩

theorem asciiOr_encodeReport (withHeader verbose : Bool) (start : Int) (program : Program)
    (data : Bytes) :
    ∀ line ∈ (encodeReport withHeader verbose start program data).lines, AsciiOr p line := by
  have hshown : AsciiOr p (if start = DiskHeader.noAutostart then "None"
      else String.ofList (Text.ofInt start)) := by
    split
    · exact .of_all (by decide)
    · exact .ofInt start
  have hlines : ∀ line ∈ (if verbose then [s!" - Lines: {program.lines.length}"] else []),
      AsciiOr p line := by
    split
    · simp only [List.forall_mem_singleton, toString, AsciiOr.append, AsciiOr.repr, and_true]
      exact .of_all (by decide)
    · exact List.forall_mem_nil _
  dsimp only [encodeReport]
  rw [List.forall_mem_append]
  refine ⟨?_, hlines⟩
  simp only [List.forall_mem_cons, List.not_mem_nil, false_imp_iff, implies_true, toString,
    AsciiOr.append, AsciiOr.repr, hshown, and_true]
  and_intros <;> exact .of_all (by decide)

end Command

end SpectrumBasic
