/-!
# Text without regard to case

Only the letters of ASCII have their case ignored; every other character stands for itself.
-/

namespace Segmentation.Text

/-- A text with its ASCII capitals turned into small letters. -/
def lowercase (s : String) : String :=
  String.ofList (s.toList.map Char.toLower)

/-- Whether two texts differ at most in the case of ASCII letters. -/
def caselessEq (s t : String) : Bool :=
  lowercase s = lowercase t

end Segmentation.Text
