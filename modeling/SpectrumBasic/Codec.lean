import SpectrumBasic.Failure

/-!
# Codecs

How the text of a file becomes bytes and back. Which codecs there are, and under which names, is a
matter of the host that a tool runs on (`Codecs`); those of the three encodings come with the library
(`Codecs.builtin`).
-/

namespace SpectrumBasic

/-- Why bytes have no text. -/
inductive DecodeFault where
  | invalid
  /-- The codec gave up in another way. -/
  | other (failure : Failure)

/-- One way to turn text into bytes and back. -/
structure Codec where
  encode : Text → Except Failure Bytes
  decode : Bytes → Except DecodeFault Text

/-- The codec of an encoding. -/
def Encoding.codec (encoding : Encoding) : Codec where
  encode text := (encoding.encode text).mapError .unencodable
  decode bytes :=
    match encoding.decode? bytes with
    | some text => .ok text
    | none => .error .invalid

theorem Encoding.encode_codec_eq_ok_iff {encoding : Encoding} {text : Text} {bytes : Bytes} :
    encoding.codec.encode text = .ok bytes ↔ encoding.encode text = .ok bytes := by
  show (encoding.encode text).mapError _ = _ ↔ _
  cases encoding.encode text with
  | ok found =>
    show Except.ok found = _ ↔ _
    rw [Except.ok.injEq, Except.ok.injEq]
  | error run => constructor <;> intro h <;> cases h

theorem Encoding.decode_codec_eq_ok_iff {encoding : Encoding} {text : Text} {bytes : Bytes} :
    encoding.codec.decode bytes = .ok text ↔ encoding.decode? bytes = some text := by
  simp only [codec]
  cases encoding.decode? bytes <;> simp

/-- The codecs that a host knows by name. -/
structure Codecs where
  /-- The codec with a given name, or what there is to say against the name. -/
  find : String → Except Failure Codec

/-- The codecs of the three encodings. -/
def Codecs.builtin : Codecs where
  find name :=
    match Encoding.ofName? name with
    | some encoding => .ok encoding.codec
    | none => .error (.unknownEncoding name)

end SpectrumBasic
