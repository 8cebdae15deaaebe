import StackCode.Json.Basic

/-!
# Reading JSON texts

The reader is strict: nothing but blanks may stand around the value, numbers have no leading zeros,
no plus sign and digits on both sides of a point, and control characters are escaped.

## Design Notes

An integer of at most 64 bits is read as an integer, unless it is minus zero. Every other number is
a double; it keeps as many leading digits as fit in 64 bits and counts the others into the exponent,
see `Double.ofDecimal?`.

The recursion over nested values takes a bound. Two steps are spent at most for each character, so
twice the length of the text is bound enough.
-/

namespace StackCode

namespace Json

/-- The four blanks of JSON. -/
def isBlank (c : Char) : Bool := c == ' ' || c == '\n' || c == '\t' || c == '\r'

def skipBlanks : List Char → List Char
  | [] => []
  | c :: rest => if isBlank c then skipBlanks rest else c :: rest

/-! ### Numbers -/

def digitValue (c : Char) : Nat := c.toNat - '0'.toNat

def digits (text : List Char) : List Nat × List Char :=
  ((text.takeWhile Char.isDigit).map digitValue, text.dropWhile Char.isDigit)

def ofDigits (ds : List Nat) : Nat := ds.foldl (fun n d => n * 10 + d) 0

/-- The bound below which a significand is kept. -/
def significandBound : Nat := 0x10000000000000000

/-- Take whole digits into the significand while it stays in bounds; each digit that is left counts
into the exponent. -/
def wholeDigits : List Nat → Nat → Nat × Nat
  | [], n => (n, 0)
  | d :: rest, n =>
    if n * 10 + d < significandBound then wholeDigits rest (n * 10 + d) else (n, rest.length + 1)

/-- Take digits behind the point into the significand while it stays in bounds; the others are
dropped. The second result counts those taken. -/
def pointDigits : List Nat → Nat → Nat → Nat × Nat
  | [], n, taken => (n, taken)
  | d :: rest, n, taken =>
    if n * 10 + d < significandBound then pointDigits rest (n * 10 + d) (taken + 1) else (n, taken)

/-- The digits of an exponent with its sign, and what follows. -/
def exponent? (text : List Char) : Option (Int × List Char) :=
  let (negative, text) := match text with
    | '+' :: rest => (false, rest)
    | '-' :: rest => (true, rest)
    | rest => (false, rest)
  match digits text with
  | ([], _) => none
  | (ds, rest) => some (if negative then -(ofDigits ds : Int) else ofDigits ds, rest)

/-- A double, or what stands for a number that is none. -/
def ofDouble? : Option Double → Json
  | some x => .number (.float x)
  | none => .unreadable

def wholeNumber (negative : Bool) (ds : List Nat) : Json :=
  let n := ofDigits ds
  if !negative ∧ n < significandBound then .number (.int n)
  else if negative ∧ 0 < n ∧ n ≤ 0x8000000000000000 then .number (.int (-n))
  else
    let (significand, dropped) := wholeDigits ds 0
    ofDouble? (Double.ofDecimal? negative significand dropped)

/-- The number at the head of a text, and what follows. -/
def readNumber? (text : List Char) : Option (Json × List Char) := do
  let (negative, text) := match text with
    | '-' :: rest => (true, rest)
    | rest => (false, rest)
  let (whole, text) := digits text
  match whole with
  | [] => none
  | 0 :: _ :: _ => none
  | whole =>
    match text with
    | '.' :: rest =>
      let (behind, rest) := digits rest
      if behind.isEmpty then none
      else
        let (kept, dropped) := wholeDigits whole 0
        let (significand, taken) := pointDigits behind kept 0
        let shift : Int := (dropped : Int) - taken
        match rest with
        | c :: rest' =>
          if c == 'e' || c == 'E' then do
            let (e, rest'') ← exponent? rest'
            some (ofDouble? (Double.ofDecimal? negative significand (shift + e)), rest'')
          else some (ofDouble? (Double.ofDecimal? negative significand shift), rest)
        | [] => some (ofDouble? (Double.ofDecimal? negative significand shift), [])
    | c :: rest =>
      if c == 'e' || c == 'E' then do
        let (significand, dropped) := wholeDigits whole 0
        let (e, rest') ← exponent? rest
        some (ofDouble? (Double.ofDecimal? negative significand (dropped + e)), rest')
      else some (wholeNumber negative whole, text)
    | [] => some (wholeNumber negative whole, [])

/-! ### Texts -/

def hexValue? (c : Char) : Option Nat :=
  if c.isDigit then some (c.toNat - '0'.toNat)
  else if 'a' ≤ c ∧ c ≤ 'f' then some (c.toNat - 'a'.toNat + 10)
  else if 'A' ≤ c ∧ c ≤ 'F' then some (c.toNat - 'A'.toNat + 10)
  else none

/-- The number written by four hexadecimal digits. -/
def hexUnit? (a b c d : Char) : Option Nat := do
  return (← hexValue? a) * 4096 + (← hexValue? b) * 256 + (← hexValue? c) * 16 + (← hexValue? d)

/-- The character named by a one-letter escape. -/
def escape? (c : Char) : Option Char :=
  if c == '"' || c == '\\' || c == '/' then some c
  else if c == 'b' then some '\x08'
  else if c == 'f' then some '\x0c'
  else if c == 'n' then some '\n'
  else if c == 'r' then some '\r'
  else if c == 't' then some '\t'
  else none

/-- A text under construction. -/
structure Scanned where
  /-- The characters so far, last first. -/
  reversed : List Char
  /-- The first half of a surrogate pair, whose second half has to come next. -/
  half : Option Nat
  /-- Whether every half so far met its other half. -/
  paired : Bool

namespace Scanned

def start : Scanned := ⟨[], none, true⟩

def push (s : Scanned) (c : Char) : Scanned :=
  ⟨c :: s.reversed, none, s.paired && s.half.isNone⟩

/-- One more code unit: two halves of a pair make one character. -/
def unit (s : Scanned) (n : Nat) : Scanned :=
  if 0xD800 ≤ n ∧ n < 0xDC00 then { s with half := some n, paired := s.paired && s.half.isNone }
  else if 0xDC00 ≤ n ∧ n < 0xE000 then
    match s.half with
    | some high =>
      ⟨Char.ofNat (0x10000 + (high - 0xD800) * 1024 + (n - 0xDC00)) :: s.reversed, none, s.paired⟩
    | none => { s with paired := false }
  else s.push (Char.ofNat n)

/-- The text, unless half a pair is left. -/
def finish (s : Scanned) : Option String :=
  if s.paired && s.half.isNone then some (String.ofList s.reversed.reverse) else none

end Scanned

/-- What follows an opening quote, up to the closing one, and what comes after it. The inner result
is `none` when half a surrogate pair occurs. -/
def readString? : List Char → Scanned → Option (Option String × List Char)
  | [], _ => none
  | '"' :: rest, s => some (s.finish, rest)
  | '\\' :: 'u' :: a :: b :: c :: d :: rest, s =>
    match hexUnit? a b c d with
    | some n => readString? rest (s.unit n)
    | none => none
  | '\\' :: c :: rest, s =>
    match escape? c with
    | some e => readString? rest (s.push e)
    | none => none
  | c :: rest, s => if c < ' ' || c == '\\' then none else readString? rest (s.push c)

/-! ### Values -/

/-- A text, or what stands for one that is none. -/
def ofText? : Option String → Json
  | some s => .string s
  | none => .unreadable

/-- The object with the given fields, last first, if all its keys are texts. -/
def ofFields (reversed : List (Option String × Json)) : Json :=
  match reversed.reverse.mapM fun (key, value) => key.map fun k => (k, value) with
  | some fields => .object fields
  | none => .unreadable

mutual

def readValue? : Nat → List Char → Option (Json × List Char)
  | 0, _ => none
  | fuel + 1, text =>
    match skipBlanks text with
    | '"' :: rest => (readString? rest .start).map fun (s, rest) => (ofText? s, rest)
    | '[' :: rest =>
      match skipBlanks rest with
      | ']' :: rest => some (.array [], rest)
      | rest => readItems? fuel rest []
    | '{' :: rest =>
      match skipBlanks rest with
      | '}' :: rest => some (.object [], rest)
      | rest => readFields? fuel rest []
    | 'n' :: 'u' :: 'l' :: 'l' :: rest => some (.null, rest)
    | 't' :: 'r' :: 'u' :: 'e' :: rest => some (.bool true, rest)
    | 'f' :: 'a' :: 'l' :: 's' :: 'e' :: rest => some (.bool false, rest)
    | text => readNumber? text

/-- The items of an array up to its end; those read so far are given last first. -/
def readItems? : Nat → List Char → List Json → Option (Json × List Char)
  | 0, _, _ => none
  | fuel + 1, text, items =>
    match readValue? fuel text with
    | none => none
    | some (item, rest) =>
      match skipBlanks rest with
      | ',' :: rest => readItems? fuel rest (item :: items)
      | ']' :: rest => some (.array (item :: items).reverse, rest)
      | _ => none

/-- The fields of an object up to its end; those read so far are given last first. -/
def readFields? : Nat → List Char → List (Option String × Json) → Option (Json × List Char)
  | 0, _, _ => none
  | fuel + 1, text, fields =>
    match skipBlanks text with
    | '"' :: rest =>
      match readString? rest .start with
      | none => none
      | some (key, rest) =>
        match skipBlanks rest with
        | ':' :: rest =>
          match readValue? fuel rest with
          | none => none
          | some (value, rest) =>
            match skipBlanks rest with
            | ',' :: rest => readFields? fuel rest ((key, value) :: fields)
            | '}' :: rest => some (ofFields ((key, value) :: fields), rest)
            | _ => none
        | _ => none
    | _ => none

end

/-- The value of a text; nothing but blanks may stand around it. -/
def read? (text : String) : Option Json :=
  let chars := text.toList
  match readValue? (2 * chars.length + 2) chars with
  | some (value, rest) => if (skipBlanks rest).isEmpty then some value else none
  | none => none

end Json

end StackCode
