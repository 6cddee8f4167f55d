import Wiretap.Text.Ranges

/-! White space: the Unicode property White_Space together with the four information
separators. -/

namespace Wiretap.Text

/-- The white-space characters, as ascending ranges of code points. -/
def spaceRanges : Ranges :=
  [(0x9, 0xD), (0x1C, 0x20), (0x85, 0x85), (0xA0, 0xA0), (0x1680, 0x1680), (0x2000, 0x200A),
   (0x2028, 0x2029), (0x202F, 0x202F), (0x205F, 0x205F), (0x3000, 0x3000)]

/-- Whether `c` is white space. -/
def isSpace (c : Char) : Bool :=
  spaceRanges.covers c.toNat

/-- Whether a text holds white space only. -/
def isBlank (s : String) : Bool :=
  s.toList.all isSpace

end Wiretap.Text
