import ImageTrust.Text.Unprintable

/-!
Quoted text for messages: a text between double quotes in which quotes, backslashes and characters
without a visible shape of their own are written as escapes.
-/

namespace ImageTrust.Text

/-- Hexadecimal digits in lower case without leading zeros. -/
def hex (n : Nat) : List Char :=
  Nat.toDigits 16 n

def quoteChar (c : Char) : List Char :=
  if c = '"' then ['\\', '"']
  else if c = '\\' then ['\\', '\\']
  else if c = '\t' then ['\\', 't']
  else if c = '\r' then ['\\', 'r']
  else if c = '\n' then ['\\', 'n']
  else if c.toNat = 0 then ['\\', '0']
  else if isUnprintable c then ['\\', 'u', '\x7b'] ++ hex c.toNat ++ ['\x7d']
  else [c]

def quoted (s : String) : String :=
  String.ofList ('"' :: (s.toList.flatMap quoteChar ++ ['"']))

end ImageTrust.Text
