/-!
# White space

The characters with the Unicode property `White_Space`, and the removal of such characters at the
start of a text.
-/

namespace TemplateLowering.Text

/-- Characters with the Unicode property `White_Space`. -/
def isBlank (c : Char) : Bool :=
  let n := c.toNat
  (0x9 ≤ n && n ≤ 0xD) || n == 0x20 || n == 0x85 || n == 0xA0 || n == 0x1680 ||
    (0x2000 ≤ n && n ≤ 0x200A) || n == 0x2028 || n == 0x2029 || n == 0x202F || n == 0x205F ||
    n == 0x3000

/-- Whether a text consists of white space only; the empty text does. -/
def isAllBlank (s : String) : Bool :=
  s.toList.all isBlank

/-- The characters of a text from its first non-blank character on. -/
def skipBlank (cs : List Char) : List Char :=
  cs.dropWhile isBlank

end TemplateLowering.Text
