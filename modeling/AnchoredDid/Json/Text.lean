import AnchoredDid.Bytes.Hex

/-!
# Strings in JSON text

A string is written with escapes for the quotation mark, the backslash and the controls below the
blank; every other character stands for itself.
-/

namespace AnchoredDid.Json

/-- The two characters after `\u00` for a control. -/
def controlDigits (c : Char) : List Char :=
  [Hex.digit (c.toNat / 16), Hex.digit (c.toNat % 16)]

/-- One character inside a string. -/
def escapeChar (c : Char) : List Char :=
  if c = '"' then ['\\', '"']
  else if c = '\\' then ['\\', '\\']
  else if c = '\x08' then ['\\', 'b']
  else if c = '\x0c' then ['\\', 'f']
  else if c = '\n' then ['\\', 'n']
  else if c = '\r' then ['\\', 'r']
  else if c = '\t' then ['\\', 't']
  else if c.toNat < 0x20 then ['\\', 'u', '0', '0'] ++ controlDigits c
  else [c]

/-- A string between its quotation marks. -/
def quote (s : String) : List Char :=
  '"' :: s.toList.flatMap escapeChar ++ ['"']

/-- Pieces with a comma between any two. -/
def commaSeparated : List (List Char) → List Char
  | [] => []
  | [piece] => piece
  | piece :: rest => piece ++ ',' :: commaSeparated rest

end AnchoredDid.Json
