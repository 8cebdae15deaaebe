import StackCode.Syntax.Basic

/-!
# Contexts

Which declarations may stand where.
-/

namespace StackCode

/-- The construct whose body a statement stands in. -/
inductive Context where
  | topLevel
  /-- The body of a namespace; it is not valid when the namespace may not stand where it does. -/
  | inNamespace (kind : NamespaceKind) (valid : Bool)
  /-- A singleton block of a namespace. -/
  | inSingleton (owner : NamespaceKind) (valid : Bool)
  /-- The body of a method, closure or block. -/
  | inBody
deriving DecidableEq, Repr

/-- A kind of declaration that is not allowed everywhere. -/
inductive Declaration where
  | method
  | signature
  | getter
  | setter
  | accessor
  | aliases
  | singleton
  | «namespace» (kind : NamespaceKind)
  | ivar
  | include
  | constant
deriving DecidableEq, Repr

def Declaration.noun : Declaration → String
  | .method => "methods"
  | .signature => "method signatures"
  | .getter => "getters"
  | .setter => "setters"
  | .accessor => "attribute accessors"
  | .aliases => "aliases"
  | .singleton => "singleton blocks"
  | .namespace .module => "modules"
  | .namespace .class => "classes"
  | .namespace .mixin => "mixins"
  | .namespace .interface => "interfaces"
  | .ivar => "instance variables"
  | .include => "includes"
  | .constant => "constants"

def AttributeKind.declaration : AttributeKind → Declaration
  | .getter => .getter
  | .setter => .setter
  | .accessor => .accessor

namespace Context

def permits : Context → Declaration → Bool
  | .topLevel, .method => true
  | .topLevel, .namespace _ => true
  | .topLevel, .constant => true
  | .inNamespace kind valid, .method => valid && kind != .interface
  | .inNamespace kind valid, .signature => valid && kind == .interface
  | .inNamespace kind valid, .getter => valid && kind.holdsInstances
  | .inNamespace kind valid, .setter => valid && kind.holdsInstances
  | .inNamespace kind valid, .accessor => valid && kind.holdsInstances
  | .inNamespace kind valid, .ivar => valid && kind.holdsInstances
  | .inNamespace kind valid, .include => valid && kind.holdsInstances
  | .inNamespace kind valid, .aliases => valid && kind != .interface
  | .inNamespace kind valid, .singleton => valid && kind != .interface
  | .inNamespace _ valid, .namespace _ => valid
  | .inNamespace _ valid, .constant => valid
  | .inSingleton _ valid, .method => valid
  | .inSingleton _ valid, .getter => valid
  | .inSingleton _ valid, .setter => valid
  | .inSingleton _ valid, .accessor => valid
  | .inSingleton _ valid, .ivar => valid
  | .inSingleton _ valid, .aliases => valid
  | _, _ => false

def text : Context → String
  | .topLevel => "at the top level"
  | .inNamespace .interface true => "in an interface"
  | .inNamespace kind true => "in a " ++ kind.name
  | .inSingleton _ true => "in a singleton block"
  | .inNamespace _ false => "in this context"
  | .inSingleton _ false => "in this context"
  | .inBody => "in a method or block body"

end Context

end StackCode
