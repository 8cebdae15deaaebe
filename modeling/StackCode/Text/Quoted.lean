import StackCode.Text.Combining
import StackCode.Text.Printable

/-!
# Quoted texts and padded columns

String constants are listed in double quotes, with an escape for every character that would not be
seen for what it is. Columns of a listing are padded to a width.
-/

namespace StackCode

/-- A number in lower-case hexadecimal digits, without padding. -/
def hexDigits (n : Nat) : String := String.ofList (Nat.toDigits 16 n)

/-- Fill up with `fill` before the text, to `width` characters. -/
def padLeft (width : Nat) (fill : Char) (text : String) : String :=
  String.ofList (List.replicate (width - text.length) fill) ++ text

/-- Fill up with blanks behind the text, to `width` characters. -/
def padRight (width : Nat) (text : String) : String :=
  text ++ String.ofList (List.replicate (width - text.length) ' ')

/-- How a character is written inside double quotes: a few have an escape of their own, one that
would not be seen is written by its number, and every other one stands for itself. -/
def escaped (c : Char) : String :=
  if c = '"' then "\\\""
  else if c = '\\' then "\\\\"
  else if c = '\n' then "\\n"
  else if c = '\r' then "\\r"
  else if c = '\t' then "\\t"
  else if c = '\x00' then "\\0"
  else if ' ' ≤ c ∧ c ≤ '~' then String.singleton c
  else if isCombining c ∨ !isPrintable c then "\\u\x7b" ++ hexDigits c.toNat ++ "\x7d"
  else String.singleton c

def quoted (text : String) : String :=
  text.toList.foldl (fun out c => out ++ escaped c) "\"" ++ "\""

end StackCode
