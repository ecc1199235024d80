import ZxMedia.Text.Hex
import ZxMedia.Text.Hidden

/-!
# Quoted text

A message that shows a text puts it between double quotes. A quote and a backslash are
preceded by a backslash, the usual controls have a letter, and any other character
without a glyph of its own is written as its code point in braces.
-/

namespace ZxMedia.Text

/-- How one character is written between quotes. -/
def escape (c : Char) : List Char :=
  match c with
  | '\x00' => ['\\', '0']
  | '\t' => ['\\', 't']
  | '\n' => ['\\', 'n']
  | '\r' => ['\\', 'r']
  | '"' => ['\\', '"']
  | '\\' => ['\\', '\\']
  | c => if isHidden c then "\\u\x7b".toList ++ Nat.toDigits 16 c.toNat ++ ['\x7d'] else [c]

/-- A text between double quotes. -/
def quote (text : String) : String :=
  String.ofList ('"' :: text.toList.flatMap escape ++ ['"'])

end ZxMedia.Text
