import SpectrumBasic.Codec

/-!
# Hosts

What a tool finds where it runs, apart from its files: the codecs for text files, and the console that
takes what it prints. A console may refuse a line, as one does that has no codes for some of its
characters.
-/

namespace SpectrumBasic

/-- What takes the lines that a tool prints. -/
structure Console where
  /-- Why a line is not taken behind the lines printed before it. -/
  refusal? : List String → String → Option Failure

namespace Console

def unrestricted : Console := ⟨fun _ _ => none⟩

/-- The console that takes what its codec has a form for. -/
def ofCodec (codec : Codec) : Console :=
  ⟨fun _ line =>
    match codec.encode (line.toList ++ ['\n']) with
    | .ok _ => none
    | .error failure => some failure⟩

/-- Whether lines are taken, one after another. -/
def accepts (console : Console) (printed : List String) : List String → Bool
  | [] => true
  | line :: rest =>
    (console.refusal? printed line).isNone && console.accepts (printed ++ [line]) rest

/-- A console takes all lines of some characters, whatever was printed before. -/
def Takes (console : Console) (p : Char → Prop) : Prop :=
  ∀ printed line, (∀ c ∈ line.toList, p c) → console.refusal? printed line = none

end Console

/-- Where a tool runs. -/
structure Host where
  codecs : Codecs := .builtin
  console : Console := .unrestricted

end SpectrumBasic
