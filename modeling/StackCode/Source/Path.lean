/-!
# Constant paths

A constant is named by a path of segments, as in `Foo::Bar`, or `::Foo::Bar` for one that starts at
the root namespace.

## Design Notes

Splitting works on the list of characters, so that what is cut off at a separator is a matter of
plain recursion: the leftmost two colons separate first, and of three colons in a row the third
belongs to the next segment.
-/

namespace StackCode

/-- What stands between the segments of a path and of a full name. -/
def separator : String := "::"

/-- The pieces of a text between separators; `piece` is the piece begun so far, last character
first. -/
def splitSegments : List Char → List Char → List (List Char)
  | [], piece => [piece.reverse]
  | ':' :: ':' :: rest, piece => piece.reverse :: splitSegments rest []
  | c :: rest, piece => splitSegments rest (c :: piece)

/-- Cut a reversed text at its first separator: what comes before it and what comes after. -/
def cutReversed : List Char → List Char → Option (List Char × List Char)
  | [], _ => none
  | ':' :: ':' :: rest, seen => some (seen, rest)
  | c :: rest, seen => cutReversed rest (c :: seen)

/-- Cut a full name at its last separator, into the name of the owner and the name of the member. -/
def splitMember? (fullName : String) : Option (String × String) :=
  (cutReversed fullName.toList.reverse []).map fun (member, owner) =>
    (String.ofList owner.reverse, String.ofList member)

/-- A possibly absolute sequence of constant names. -/
structure Path where
  segments : List String
  /-- Whether the path is written with a leading separator. -/
  absolute : Bool
deriving DecidableEq, Repr, Inhabited

namespace Path

/-- Read `A::B` or `::A::B`. Empty segments are dropped. -/
def parse (text : String) : Path where
  segments := ((splitSegments text.toList []).filter (!·.isEmpty)).map String.ofList
  absolute := text.toList.take 2 == [':', ':']

def text (p : Path) : String :=
  (if p.absolute then separator else "") ++ separator.intercalate p.segments

def first? (p : Path) : Option String := p.segments.head?

/-- The last segment, which names the constant itself. -/
def last? (p : Path) : Option String := p.segments.getLast?

end Path

@[simp] theorem splitSegments_nil (piece : List Char) : splitSegments [] piece =
    [piece.reverse] := rfl

@[simp] theorem splitSegments_separator (rest piece : List Char) :
    splitSegments (':' :: ':' :: rest) piece = piece.reverse :: splitSegments rest [] := rfl

/-- The full name of member `name` of a namespace. -/
def memberName (namespaceName name : String) : String :=
  namespaceName ++ separator ++ name

/-- The namespace that holds all others. Full names begin with it. -/
def rootName : String := "Root"

/-- A full name as it is written in messages, without the root. -/
def displayName (fullName : String) : String :=
  match fullName.toList with
  | 'R' :: 'o' :: 'o' :: 't' :: ':' :: ':' :: rest => String.ofList rest
  | _ => fullName

end StackCode
