import Wiretap.Text.Letter
import Wiretap.Text.Numeral

/-! Words: runs of letters, numerals and underscores. -/

namespace Wiretap.Text

/-- Whether `c` may stand inside a word. -/
def isWordChar (c : Char) : Bool :=
  isLetter c || isNumeral c || c == '_'

/-- Whether a text is a word: not empty, and of word characters only. -/
def isWord (s : String) : Bool :=
  !s.toList.isEmpty && s.toList.all isWordChar

/-- A letter may stand inside a word. -/
theorem isWordChar_of_isLetter {c : Char} (h : isLetter c = true) : isWordChar c = true := by
  simp [isWordChar, h]

end Wiretap.Text
