import StackCode.Namespace.Declared

/-!
# Layouts of instance variables

A class starts from the table of its superclass, or from its registered table when it is reopened,
and appends what it declares and what the mixins it includes have, in the order of its body.

## Design Notes

Tables are kept once they are complete. A mixin that includes itself by way of others contributes
nothing where it is still being laid out. The first argument of `tableOf?` bounds the depth of the
recursion, and `layoutDepth` is always enough: along a chain of calls each namespace of the unit is
first laid out at most once, and a chain of superclasses passes each class at most once.
-/

namespace StackCode

/-- A table that grew. -/
structure LayoutChange where
  fullName : String
  singleton : Bool
deriving DecidableEq, Repr

/-- The complete tables of one kind, by full name. -/
abbrev Tables := Std.ExtTreeMap String NameTable compare

/-- The tables of a unit's namespaces. -/
structure Layouts where
  instances : Tables
  singletons : Tables
  /-- The tables that grew, in the order of declaration. -/
  changes : List LayoutChange

namespace Layouts

def empty : Layouts where
  instances := ∅
  singletons := ∅
  changes := []

def table? (l : Layouts) (fullName : String) (singleton : Bool) : Option NameTable :=
  if singleton then l.singletons[fullName]? else l.instances[fullName]?

end Layouts

def Registry.tableOf (r : Registry) (fullName : String) (singleton : Bool) : NameTable :=
  ((r.get? fullName).map (·.table singleton)).getD .empty

/-- The table that a namespace starts from: its registered one, or else that of its superclass. -/
def startTable {m : Type → Type} [Monad m] (superclassTable : String → m NameTable)
    (registered : NameTable)
    (ns : DeclaredNamespace) : m NameTable :=
  if ns.registered then pure registered
  else
    match ns.kind, ns.superclass with
    | .class, some superclass => superclassTable superclass
    | _, _ => pure .empty

def addContribution {m : Type → Type} [Monad m] (mixinTable : String → m NameTable)
    (table : NameTable) :
    Contribution → m NameTable
  | .declare name _ => return table.insert name
  | .include mixin => return table.append (← mixinTable mixin)

/-- The table of a namespace and the size that it started from. `visiting` lists the namespaces that
are being laid out. There is no result only when the depth is used up. -/
def tableOf? (declared : Declared) (registry : Registry) (singleton : Bool) :
    Nat → List String → String → StateT Tables Option (NameTable × Nat)
  | 0, _, _ => failure
  | depth + 1, visiting, fullName => do
    match declared.get? fullName with
    | none =>
      let table := registry.tableOf fullName singleton
      return (table, table.size)
    | some ns =>
      let tableIn (visiting : List String) (other : String) : StateT Tables Option NameTable :=
        Prod.fst <$> tableOf? declared registry singleton depth visiting other
      let start (visiting : List String) : StateT Tables Option NameTable :=
        startTable (tableIn visiting) (registry.tableOf fullName singleton) ns
      match (← get)[fullName]? with
      | some table => return (table, (← start visiting).size)
      | none =>
        if visiting.contains fullName then return (.empty, 0)
        else
          let visiting := fullName :: visiting
          let base ← start visiting
          let table ← (ns.contributionsTo singleton).foldlM
            (addContribution (tableIn visiting)) base
          modify (·.insert fullName table)
          return (table, base.size)

/-- A depth of recursion that is always enough. -/
def layoutDepth (declared : Declared) : Nat := 2 * declared.namespaces.size + 2

structure LayingOut where
  layouts : Layouts
  issues : Array Issue

namespace LayingOut

/-- Report a table that may not grow: that of a registered class with registered subclasses. -/
def checkFrozen (registry : Registry) (ns : DeclaredNamespace) (span : Span)
    (issues : Array Issue) : Array Issue :=
  if ns.registered then
    match registry.subclasses ns.fullName with
    | [] => issues
    | subclass :: _ =>
      issues.push (.failure (.ivarsOnSubclassedClass ns.fullName subclass) span)
  else issues

/-- Where the first instance variable of a table is declared, or else the namespace. -/
def firstDeclared (ns : DeclaredNamespace) (singleton : Bool) : Span :=
  ((ns.contributionsTo singleton).findSome? fun
    | .declare _ span => some span
    | .include _ => none).getD ns.span

def layOutTable (declared : Declared) (registry : Registry) (singleton : Bool)
    (ns : DeclaredNamespace) (l : LayingOut) : LayingOut :=
  let tables := if singleton then l.layouts.singletons else l.layouts.instances
  match (tableOf? declared registry singleton (layoutDepth declared) [] ns.fullName).run tables with
  | none => l
  | some ((table, base), tables) =>
    let layouts :=
      if singleton then { l.layouts with singletons := tables }
      else { l.layouts with instances := tables }
    if base < table.size then
      { layouts := { layouts with changes := layouts.changes ++ [⟨ns.fullName, singleton⟩] }
        issues := checkFrozen registry ns (firstDeclared ns singleton) l.issues }
    else { l with layouts := layouts }

def layOutNamespace (declared : Declared) (registry : Registry) (l : LayingOut)
    (ns : DeclaredNamespace) : LayingOut :=
  let l := if ns.kind.holdsInstances then layOutTable declared registry false ns l else l
  if ns.kind = .interface then l else layOutTable declared registry true ns l

end LayingOut

/-- The layouts of a unit, and the issues with them after those before. -/
def layOut (registry : Registry) (declared : Declared) (issues : Array Issue) : LayingOut :=
  declared.namespaces.toValues.foldl (LayingOut.layOutNamespace declared registry) ⟨.empty, issues⟩

end StackCode
