import AnchoredDid.Text.Printable

/-!
# Text quoted in messages

A message that names a piece of its input quotes it: a character between apostrophes, a text between
quotation marks. A backslash marks the delimiter, the backslash itself and the common controls; any
other unprintable character is written as its code point.
-/

namespace AnchoredDid.Text

/-- A code point in lower-case hexadecimal without leading zeros. -/
def codePoint (c : Char) : List Char :=
  '\\' :: 'u' :: '\x7b' :: Nat.toDigits 16 c.toNat ++ ['\x7d']

/-- A character inside a quotation that `delimiter` ends. -/
def escaped (delimiter : Char) (c : Char) : List Char :=
  if c = '\x00' then ['\\', '0']
  else if c = '\t' then ['\\', 't']
  else if c = '\r' then ['\\', 'r']
  else if c = '\n' then ['\\', 'n']
  else if c = '\\' || c = delimiter then ['\\', c]
  else if isPrintable c then [c]
  else codePoint c

/-- A text between quotation marks. -/
def quoted (text : String) : String :=
  String.ofList ('"' :: text.toList.flatMap (escaped '"') ++ ['"'])

/-- A character between apostrophes. -/
def quotedChar (c : Char) : String :=
  String.ofList ('\'' :: escaped '\'' c ++ ['\''])

end AnchoredDid.Text
