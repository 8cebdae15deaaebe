import StackCode.Scope.Context

/-!
# Diagnostics

## Design Notes

Compiling a unit collects issues, whatever its file is called. The file is added when the unit is
done.
-/

namespace StackCode

/-- What keeps a unit from being compiled. -/
inductive Failure where
  | undefinedLocal (name : String)
  | uninitialisedLocal (name : String)
  | immutableAssignment (name : String)
  | redeclaredLocal (name : String)
  | duplicateParameter (name : String)
  | requiredAfterOptional (name : String)
  | undefinedConstant (path : Path)
  | ambiguousConstant (name first second : String)
  | constantRedefinition (fullName : String)
  | notANamespace (path : Path)
  | kindMismatch (fullName : String) (expected found : NamespaceKind)
  | superclassOnNonClass (fullName : String) (kind : NamespaceKind)
  | superclassMismatch (fullName existing given : String)
  | invalidSuperclass (fullName superclass : String) (kind : NamespaceKind)
  | includeNonMixin (fullName included : String) (kind : NamespaceKind)
  | circularInheritance (fullName : String)
  | ivarsOnSubclassedClass (fullName subclass : String)
  | concurrentLayoutChange (fullName : String)
  | undefinedIvar (name : String)
  | ivarsUnavailable
  | illegalConstruct (declaration : Declaration) (context : Context)
  | tooManyLocals
  | tooManyConstants
  | tooManyUpvalues
  | tooManyArguments
  | tooManyElements
  | jumpTooLarge
deriving DecidableEq, Repr

def Failure.message : Failure → String
  | .undefinedLocal name => "undefined local `" ++ name ++ "`"
  | .uninitialisedLocal name => "cannot access uninitialised local `" ++ name ++ "`"
  | .immutableAssignment name => "cannot reassign a val: `" ++ name ++ "`"
  | .redeclaredLocal name => "cannot redeclare local `" ++ name ++ "` in the same scope"
  | .duplicateParameter name => "duplicated parameter `" ++ name ++ "`"
  | .requiredAfterOptional name =>
    "required parameter `" ++ name ++ "` cannot follow optional parameters"
  | .undefinedConstant path => "undefined constant `" ++ path.text ++ "`"
  | .ambiguousConstant name first second =>
    "ambiguous constant `" ++ name ++ "`, imported from both `" ++ first ++ "` and `" ++
      second ++ "`"
  | .constantRedefinition fullName => "cannot redeclare constant `" ++ displayName fullName ++ "`"
  | .notANamespace path => "`" ++ path.text ++ "` is not a namespace"
  | .kindMismatch fullName expected found =>
    "cannot redeclare " ++ found.name ++ " `" ++ displayName fullName ++ "` as a " ++ expected.name
  | .superclassOnNonClass fullName kind =>
    kind.name ++ " `" ++ displayName fullName ++ "` cannot have a superclass"
  | .superclassMismatch fullName existing given =>
    "superclass mismatch in `" ++ displayName fullName ++ "`, expected `" ++ displayName existing ++
      "`, got `" ++ displayName given ++ "`"
  | .invalidSuperclass fullName superclass kind =>
    "`" ++ displayName superclass ++ "` is a " ++ kind.name ++
      " and cannot be the superclass of `" ++
      displayName fullName ++ "`"
  | .includeNonMixin fullName included kind =>
    "cannot include " ++ kind.name ++ " `" ++ displayName included ++ "` in `" ++
      displayName fullName ++ "`, only mixins can be included"
  | .circularInheritance fullName =>
    "circular superclass chain through `" ++ displayName fullName ++ "`"
  | .ivarsOnSubclassedClass fullName subclass =>
    "cannot add instance variables to `" ++ displayName fullName ++
      "` which already has a subclass `" ++ displayName subclass ++ "`"
  | .concurrentLayoutChange fullName =>
    "instance variables of `" ++ displayName fullName ++
      "` were changed by another unit during compilation"
  | .undefinedIvar name => "undefined instance variable `@" ++ name ++ "`"
  | .ivarsUnavailable => "cannot use instance variables in this context"
  | .illegalConstruct declaration context =>
    "cannot declare " ++ declaration.noun ++ " " ++ context.text
  | .tooManyLocals => "too many local variables in one function"
  | .tooManyConstants => "too many constants in one function"
  | .tooManyUpvalues => "too many captured variables in one closure"
  | .tooManyArguments => "too many arguments in one call"
  | .tooManyElements => "too many elements in one literal"
  | .jumpTooLarge => "too much code to jump over"

inductive Warning where
  | unusedValue
  | unreachableCode
deriving DecidableEq, Repr

def Warning.message : Warning → String
  | .unusedValue => "unused expression value"
  | .unreachableCode => "unreachable code"

/-- A failure or a warning. -/
inductive Problem where
  | failure (failure : Failure)
  | warning (warning : Warning)
deriving DecidableEq, Repr

namespace Problem

def failure? : Problem → Option Failure
  | .failure f => some f
  | .warning _ => none

/-- Whether a problem keeps the unit from being compiled. -/
def isFailure (p : Problem) : Bool := p.failure?.isSome

/-- The word for how bad it is. -/
def severity : Problem → String
  | .failure _ => "failure"
  | .warning _ => "warning"

def message : Problem → String
  | .failure f => f.message
  | .warning w => w.message

end Problem

/-- A problem at a place in a unit. -/
structure Issue where
  problem : Problem
  span : Span
deriving DecidableEq, Repr

def Issue.failure (f : Failure) (span : Span) : Issue := ⟨.failure f, span⟩

def Issue.warning (w : Warning) (span : Span) : Issue := ⟨.warning w, span⟩

/-- A problem at a place in a file. -/
structure Diagnostic where
  problem : Problem
  location : Location
deriving DecidableEq, Repr

def Issue.inFile (file : String) (i : Issue) : Diagnostic := ⟨i.problem, ⟨file, i.span⟩⟩

def Diagnostic.text (d : Diagnostic) : String :=
  d.location.text ++ ": " ++ d.problem.severity ++ ": " ++ d.problem.message

end StackCode
