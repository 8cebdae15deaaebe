/-!
# Source regions

Every node of a syntax tree, every diagnostic and every compiled function is stamped with the region
of source text it came from.
-/

namespace StackCode

/-- A place in a text: positions are compared by line first, then by column. -/
structure Position where
  line : Nat
  column : Nat
deriving DecidableEq, Repr, Inhabited

namespace Position

/-- Whether `a` stands before `b`. -/
def before (a b : Position) : Bool :=
  a.line < b.line || (a.line == b.line && a.column < b.column)

/-- The earlier of two positions; the first of two equal ones. -/
def earlier (a b : Position) : Position :=
  if b.before a then b else a

def later (a b : Position) : Position :=
  if a.before b then b else a

end Position

/-- A region of source text. Lines and columns count from one. -/
structure Span where
  line : Nat
  column : Nat
  endLine : Nat
  endColumn : Nat
deriving DecidableEq, Repr, Inhabited

namespace Span

/-- The span of a unit without statements. -/
def zero : Span := ⟨0, 0, 0, 0⟩

/-- A region of no width. -/
def point (line column : Nat) : Span := ⟨line, column, line, column⟩

def start (s : Span) : Position := ⟨s.line, s.column⟩

def stop (s : Span) : Position := ⟨s.endLine, s.endColumn⟩

/-- The region of no width at the end of `s`: what is emitted for closing a construct is charged
to it. -/
def ending (s : Span) : Span := point s.endLine s.endColumn

/-- The least region that covers both: it begins at the earlier beginning and ends at the later end.
-/
def join (a b : Span) : Span :=
  let first := a.start.earlier b.start
  let last := a.stop.later b.stop
  ⟨first.line, first.column, last.line, last.column⟩

/-- A span is written as its first line and column. -/
def text (s : Span) : String :=
  toString s.line ++ ":" ++ toString s.column

@[simp] theorem ending_line (s : Span) : s.ending.line = s.endLine := rfl

@[simp] theorem start_join (a b : Span) : (a.join b).start = a.start.earlier b.start := rfl

@[simp] theorem stop_join (a b : Span) : (a.join b).stop = a.stop.later b.stop := rfl

end Span

/-- A span inside a particular source file. -/
structure Location where
  file : String
  span : Span
deriving DecidableEq, Repr, Inhabited

/-- A location is written `file:line:column`. -/
def Location.text (l : Location) : String :=
  l.file ++ ":" ++ l.span.text

end StackCode
