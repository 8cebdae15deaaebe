import StackCode.Json.Basic
import StackCode.Number.Shortest
import StackCode.Text.Quoted

/-!
# Writing JSON texts

## Design Notes

Texts keep every character but quotes, backslashes and controls. A double is written with its
shortest digits, see `jsonStyle`. Output is collected by appending to a string.
-/

namespace StackCode

namespace Json

/-- How a character is written inside the quotes of a JSON text. -/
def writtenChar (c : Char) : String :=
  if c = '"' then "\\\""
  else if c = '\\' then "\\\\"
  else if c = '\n' then "\\n"
  else if c = '\r' then "\\r"
  else if c = '\t' then "\\t"
  else if c = '\x08' then "\\b"
  else if c = '\x0c' then "\\f"
  else if c < ' ' then "\\u" ++ padLeft 4 '0' (hexDigits c.toNat)
  else String.singleton c

def writeText (out text : String) : String :=
  (text.toList.foldl (fun out c => out ++ writtenChar c) (out.push '"')).push '"'

def writeNumber (out : String) : Number → String
  | .int n => out ++ toString n
  | .float x => out ++ x.text jsonStyle

mutual

def write : Json → String → String
  | .null, out => out ++ "null"
  | .bool true, out => out ++ "true"
  | .bool false, out => out ++ "false"
  | .number n, out => writeNumber out n
  | .string s, out => writeText out s
  | .array [], out => out ++ "[]"
  | .array (j :: rest), out => writeItems rest (write j (out.push '[')) |>.push ']'
  | .object [], out => out ++ "\x7b\x7d"
  | .object ((k, j) :: rest), out =>
    writeFields rest (write j ((writeText (out.push '\x7b') k).push ':')) |>.push '\x7d'
  | .unreadable, out => out ++ "null"

def writeItems : List Json → String → String
  | [], out => out
  | j :: rest, out => writeItems rest (write j (out.push ','))

def writeFields : List (String × Json) → String → String
  | [], out => out
  | (k, j) :: rest, out => writeFields rest (write j ((writeText (out.push ',') k).push ':'))

end

/-- Append a line break and the blanks of a level. -/
def breakLine (out : String) (level : Nat) : String :=
  out ++ String.ofList ('\n' :: List.replicate (2 * level) ' ')

mutual

/-- Append a value over several lines; `level` is the level of its closing bracket. -/
def writeIndented : Json → Nat → String → String
  | .null, _, out => out ++ "null"
  | .bool true, _, out => out ++ "true"
  | .bool false, _, out => out ++ "false"
  | .number n, _, out => writeNumber out n
  | .string s, _, out => writeText out s
  | .array [], _, out => out ++ "[]"
  | .array (j :: rest), level, out =>
    let first := writeIndented j (level + 1) (breakLine (out.push '[') (level + 1))
    (breakLine (writeIndentedItems rest (level + 1) first) level).push ']'
  | .object [], _, out => out ++ "\x7b\x7d"
  | .object ((k, j) :: rest), level, out =>
    let key := writeText (breakLine (out.push '\x7b') (level + 1)) k ++ ": "
    let first := writeIndented j (level + 1) key
    (breakLine (writeIndentedFields rest (level + 1) first) level).push '\x7d'
  | .unreadable, _, out => out ++ "null"

/-- Append the further items of an array, each on lines of its own. -/
def writeIndentedItems : List Json → Nat → String → String
  | [], _, out => out
  | j :: rest, level, out =>
    writeIndentedItems rest level (writeIndented j level (breakLine (out.push ',') level))

/-- Append the further fields of an object, each on lines of its own. -/
def writeIndentedFields : List (String × Json) → Nat → String → String
  | [], _, out => out
  | (k, j) :: rest, level, out =>
    let key := writeText (breakLine (out.push ',') level) k ++ ": "
    writeIndentedFields rest level (writeIndented j level key)

end

/-- A value on one line, without blanks. -/
def compact (j : Json) : String := write j ""

/-- A value over several lines, two blanks for each level. -/
def indented (j : Json) : String := writeIndented j 0 ""

end Json

end StackCode
