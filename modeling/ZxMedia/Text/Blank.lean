/-!
# Blank characters

Names are padded with blanks, and the padding is not shown. A character is blank when it
has the white space property, which takes in more than the space, the tab and the line
breaks.
-/

namespace ZxMedia.Text

/-- Whether a character has the white space property. -/
def isBlank (c : Char) : Bool :=
  let code := c.toNat
  (9 ≤ code && code ≤ 13) || code == 0x20 || code == 0x85 || code == 0xA0 || code == 0x1680 ||
    (0x2000 ≤ code && code ≤ 0x200A) || code == 0x2028 || code == 0x2029 || code == 0x202F ||
    code == 0x205F || code == 0x3000

/-- Drops the blanks at the end of a list of characters. -/
def trimEndChars (chars : List Char) : List Char :=
  (chars.reverse.dropWhile isBlank).reverse

/-- Drops the blanks at the end of a text. -/
def trimEnd (text : String) : String :=
  String.ofList (trimEndChars text.toList)

end ZxMedia.Text
