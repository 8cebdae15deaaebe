import StackCode.Proofs.Decoding
import StackCode.Proofs.UnitCode

/-!
# Instance variables by slot and by name

The instance methods of a mixin do not know the classes that they will be mixed into, so they
reach instance variables by their names. All other methods, and the bodies of namespaces, reach them
by slots in a table of the namespace that they are in. Which way a function goes is read off the
text (`Source.Inside`, `Program.members`); here it is read off the bytes that are compiled.
-/

namespace StackCode

theorem ivar?_foundIn (offset : Nat) (i : Instr) (after : List Instr) :
    (Found.instr? ⟨offset, i.opcode, bytesOf (i :: after)⟩).bind Instr.ivar? = i.ivar? := by
  by_cases fits : i.Fits
  · rw [instr?_foundIn fits]
    rfl
  · cases i with
    | closure => rfl
    | _ => exact (fits trivial).elim

theorem ivarsOf_filterMap_foundIn (offset : Nat) (instrs : List Instr) :
    ivarsOf ((foundIn offset instrs).filterMap Found.instr?) = ivarsOf instrs := by
  rw [ivarsOf, List.filterMap_filterMap]
  induction instrs generalizing offset with
  | nil => rfl
  | cons i rest ih =>
    rw [foundIn, List.filterMap_cons, ivar?_foundIn, ih]
    exact List.filterMap_cons.symm

theorem Matches.reaches {unit : UnitInfo} {source : Source} {f : CompiledFunction}
    (matched : Matches unit source f) :
    List.Forall₂ (unit.Reaches f.constants source.ivars) source.uses (ivarsOf f.reads) := by
  obtain ⟨code, body, -, -, code_eq, -, -, reaches, -⟩ := matched
  rw [CompiledFunction.reads, CompiledFunction.instructions, code_eq, code.walkCode_bytes]
  exact (ivarsOf_filterMap_foundIn 0 code.instrs).symm ▸ reaches

/-- The functions of a unit reach instance variables as its text says. -/
structure CompiledFunction.ReachesIvars (f : CompiledFunction) (unit : UnitInfo)
    (p : Program) : Prop where
  /-- The functions are those of the text, one by one. Each reaches the variables that its text
  uses, in their order: by slots in a table of the unit, or by names that the table of a mixin
  has. -/
  functions : ∃ hoisted, hoisted.Sublist (p.hoistedSources unit) ∧
    List.Forall₂ (fun source g => g.name = source.name ∧
        g.location = ⟨unit.options.file, source.span⟩ ∧
        List.Forall₂ (unit.Reaches g.constants source.ivars) source.uses (ivarsOf g.reads))
      (p.source unit hoisted).walk f.walk
  /-- Outside of methods there are closures, and bodies of namespaces with slots of the
  singleton. -/
  nested : ∀ source ∈ (p.trace unit).nested, source.Inside .forbidden
  methods : (p.trace unit).methods = sourcesOf (p.members unit)
  /-- A method goes the way of what it is defined on, and closures in it do the same at any depth.
  The ways are those of `Context.memberTarget?`: by name in a mixin, by slots of instances in
  a class, and by slots of the singleton in a module or in a singleton block. -/
  access : ∀ target source, (target, .method source) ∈ p.members unit →
    source.ivars = target.ivars ∧ ∀ inner ∈ source.nested, inner.Inside target.ivars

/-- **Mixins reach instance variables by name, and everything else by slot.** -/
theorem compileAgainst_ivars (options : Options) (base current : Registry) (p : Program)
    {f : CompiledFunction}
    (compiled : (compileAgainst options base current p).1.function = some f) :
    f.ReachesIvars (p.unitInfo options base) p := by
  obtain ⟨⟨clean, -, -, -⟩, rfl⟩ := compileAgainst_published compiled
  obtain ⟨hoisted, inOrder, matched⟩ := compileUnit_matches clean
  have encloses := p.encloses (p.unitInfo options base)
  exact ⟨⟨hoisted, inOrder, matched.walk.imp fun source g nested => ⟨nested.name_eq,
    nested.location_eq, nested.reaches⟩⟩, encloses.nested, encloses.methods, encloses.access⟩

/-- A mixin, a class and a module with the same method, whose closure copies one instance variable
to another. The class has the method for its singleton too, and the module has the closure in its
body. The variables of singletons are declared in the other order. -/
def copyingUnit : Program :=
  let copy : Stmt := .expression .zero (.closure .zero [] [.expression .zero
    (.assign .zero (.ivar "b") none (.ivar .zero "a"))])
  let method : Stmt := .method .zero "copy" [] [copy]
  let ivars (names : List String) : List Stmt := names.map (.ivar .zero · none)
  let «open» (kind : NamespaceKind) (name : String) (body : List Stmt) : Stmt :=
    .namespace .zero kind ⟨[name], false⟩ none body
  .ofStatements [«open» .mixin "Copies" (ivars ["a", "b"] ++ [method]),
    «open» .class "Copier"
      (ivars ["a", "b"] ++ [method, .singleton .zero (ivars ["b", "a"] ++ [method])]),
    «open» .module "Copying" [.singleton .zero (ivars ["b", "a"]), method, copy]]

/-- The closure of the mixin has two names, that of the class two slots of instances, and the others
have two slots of singletons. -/
theorem compileAgainst_ivars_copyingUnit :
    let options := Options.forFile "copying"
    let unit := copyingUnit.unitInfo options .prelude
    let singleton := [(false, IvarAddress.slot 1), (true, .slot 0)]
    ∃ f, (compileAgainst options .prelude .prelude copyingUnit).1.function = some f ∧
      f.walk.map (fun g => ivarsOf g.reads) = [[], [], singleton, [], [], [], [],
        [(false, .name 2), (true, .name 1)], [], [(false, .slot 0), (true, .slot 1)], [], singleton,
        [], singleton] ∧
      (copyingUnit.members unit).map (·.1.ivars) = [.byName "Root::Copies",
        .fixed "Root::Copier" false, .fixed "Root::Copier" true, .fixed "Root::Copying" true] ∧
      f.ReachesIvars unit copyingUnit := by
  intro options unit singleton
  have uses : (compileAgainst options .prelude .prelude copyingUnit).1.function.map
      (·.walk.map fun g => ivarsOf g.reads) = some [[], [], singleton, [], [], [], [],
        [(false, .name 2), (true, .name 1)], [], [(false, .slot 0), (true, .slot 1)], [], singleton,
        [], singleton] := by
    decide +kernel
  obtain ⟨f, compiled, uses⟩ := Option.map_eq_some_iff.1 uses
  exact ⟨f, compiled, uses, by decide +kernel,
    compileAgainst_ivars options .prelude .prelude copyingUnit compiled⟩

end StackCode
