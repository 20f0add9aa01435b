import SpectrumBasic.Attempt
import SpectrumBasic.Number.Hidden

/-!
# Packing numbers

Hidden numbers as a conversion meets them: packing may be asked to refuse what has no short form,
and unpacking takes exactly as many bytes as a hidden number has. What packing has to say about a
number without a short form shows the number, so a whole number with too many digits to be shown
cannot be packed at all.
-/

namespace SpectrumBasic.Hidden

/-- The hidden form of a number. One without a short form is refused if `strict`, and otherwise
filled in as zero with a notice; either way it has to be shown. -/
def packNumber (strict : Bool) (x : Number) : Attempt Bytes :=
  if (small? x).isSome then .succeed (pack x)
  else if !x.isShowable then .fail .notShowable
  else if strict then .fail (.source { fault := .unsupportedNumber x.text })
  else ⟨[.zeroFilled x], .ok (pack x)⟩

/-- A number of bytes that no hidden number has. -/
structure WrongSize where
  bytes : Nat
  deriving DecidableEq, Repr

def WrongSize.message (fault : WrongSize) : String :=
  let expected := size
  s!"Expected {expected} bytes, got {fault.bytes}"

/-- The whole number in a hidden form, if it is a short one. -/
def unpackNumber (data : Bytes) : Except WrongSize (Option Int) :=
  if data.length = size then .ok (ofBytes? data) else .error ⟨data.length⟩

end SpectrumBasic.Hidden
