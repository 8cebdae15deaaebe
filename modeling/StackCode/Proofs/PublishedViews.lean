import StackCode.Proofs.Collecting
import StackCode.Proofs.SessionGrowth

/-!
# Later units see what a unit saw

While a unit is compiled, a full name is looked up among the namespaces of the unit, then among its
constants, then in the registry. After publication it is looked up in the registry alone. The two
agree on all full names (`Publishable.constant?_publishInto`), if there is no colon in the name of a
constant.
-/

namespace StackCode

open Registry

namespace Publishable

variable {base live : Registry} {d : Declared} {layouts : Layouts} {n : String}

section

variable (pub : Publishable base live d layouts)

include pub

theorem constant?_declared {ns : DeclaredNamespace} (found : d.get? n = some ns) :
    (publishInto base live d layouts).constant? n = some (.namespace ns.kind) :=
  constant?_eq_namespace.2 (pub.get?_declared found)

theorem get?_undeclared (undeclared : d.get? n = none) (missing : live.get? n = none) :
    (publishInto base live d layouts).get? n = none := by
  rw [← outline?_eq_none, publishInto_undeclared pub.fits.stands undeclared,
    outline?_eq_none]
  exact missing

theorem constant?_constant {names spaces : List String} (filed : d.Filed base names spaces)
    (plain : ∀ name ∈ names, ':' ∉ name.toList)
    (known : ∀ n, d.Knows base n → (live.get? n).isSome ∨ (d.get? n).isSome)
    (missing : live.get? n = none) (listed : d.constants.contains n = true) :
    (publishInto base live d layouts).constant? n = some .value := by
  obtain ⟨-, undeclared, parent, name, rfl, named, knowsParent, adds⟩ := filed.constant n listed
  refine constant?_eq_value.2 ⟨pub.get?_undeclared undeclared missing, parent, name,
    splitMember?_memberName parent (plain name named), ?_⟩
  exact (hasMember_publishInto pub.fits.stands parent name).2
    (.inr ⟨known parent knowsParent, adds⟩)

theorem constant?_unseen {names spaces : List String} (filed : d.Filed base names spaces)
    (undeclared : d.get? n = none)
    (notConstant : d.constants.contains n = false) :
    (publishInto base live d layouts).constant? n = live.constant? n := by
  cases registered : live.get? n with
  | some info =>
    have kept : (publishInto base live d layouts).outline? n = live.outline? n :=
      publishInto_undeclared pub.fits.stands undeclared
    obtain ⟨info', isInfo, outline⟩ := outline?_eq_some.1
      (kept.trans (outline?_eq_some.2 ⟨info, registered, rfl⟩))
    rw [constant?_eq_namespace.2 ⟨info, registered, rfl⟩]
    exact constant?_eq_namespace.2 ⟨info', isInfo, congrArg Outline.kind outline⟩
  | none =>
    have missing := pub.get?_undeclared undeclared registered
    -- What the unit adds to members is under the full name of a constant or of a namespace.
    have members {m x : String} (cut : splitMember? n = some (m, x)) :
        (publishInto base live d layouts).HasMember m x ↔ live.HasMember m x := by
      rw [hasMember_publishInto pub.fits.stands]
      refine ⟨fun member => member.resolve_right ?_, .inl⟩
      rintro ⟨-, adds⟩
      rw [eq_memberName_of_splitMember? cut] at undeclared notConstant
      rcases filed.added m x adds with listed | there
      · exact absurd (notConstant.symm.trans listed) Bool.false_ne_true
      · rw [undeclared] at there
        cases there
    cases before : live.constant? n with
    | none =>
      refine constant?_eq_none.2 ⟨missing, fun m x cut member => ?_⟩
      exact (constant?_eq_none.1 before).2 m x cut ((members cut).1 member)
    | some kind =>
      cases kind with
      | «namespace» kind =>
        obtain ⟨info, found, -⟩ := constant?_eq_namespace.1 before
        rw [registered] at found
        cases found
      | value =>
        obtain ⟨-, m, x, cut, member⟩ := constant?_eq_value.1 before
        exact constant?_eq_value.2 ⟨missing, m, x, cut, (members cut).2 member⟩

end

/-- **What a unit sees under a full name is what the name stands for once the unit is published**,
if the unit is published to its own base. -/
theorem constant?_publishInto (pub : Publishable base base d layouts)
    {names spaces : List String} (filed : d.Filed base names spaces)
    (plain : ∀ name ∈ names, ':' ∉ name.toList) (root : (base.get? rootName).isSome) (n : String) :
    (publishInto base base d layouts).constant? n = d.lookup base n := by
  cases found : d.get? n with
  | some ns =>
    rw [pub.constant?_declared found, Declared.lookup, found]
  | none =>
    rw [Declared.lookup_of_undeclared found]
    split
    · rename_i listed
      refine pub.constant?_constant filed plain (fun m known => ?_)
        (get?_eq_none_of_constant? (filed.constant n listed).1) listed
      rcases known with rfl | here | before
      · exact .inl root
      · exact .inr here
      · exact .inl before
    · rename_i notConstant
      exact pub.constant?_unseen filed found (Bool.eq_false_iff.2 notConstant)

end Publishable

namespace Session

theorem isSome_root {r : Registry} (grown : Registry.prelude.Grown r) : (r.get? rootName).isSome :=
  grown.isSome (by decide +kernel)

/-- **Later units see exactly what a unit saw itself**, whatever was registered before it. -/
theorem lookup_eq_published {events : List Event} {options : Options} {program : Program}
    {f : CompiledFunction}
    (compiled : (compile options (start.run events).live program).1.function = some f)
    (plain : ∀ name ∈ program.declaredConstants, ':' ∉ name.toList) (n : String) :
    (collect (start.run events).live program.statements).declared.lookup (start.run events).live n =
      (compile options (start.run events).live program).2.constant? n := by
  obtain ⟨⟨sound, -⟩, grown, -⟩ := lossless_start.run events
  generalize (start.run events).live = live at sound grown compiled ⊢
  rw [compile] at compiled ⊢
  obtain ⟨⟨clean, agreed, -, published⟩, -⟩ := compileAgainst_published compiled
  have pub := Publishable.of_compileUnit clean agreed sound sound (.refl live)
  rw [published, ← lookup_linked]
  exact (pub.constant?_publishInto (program.filed_linked live) plain
    (isSome_root grown) n).symm

/-- A module with a constant. -/
def moduleUnit : Program :=
  .ofStatements [.namespace .zero .module ⟨["M"], false⟩ none [
    .constant .zero "A" none (.literal .zero (.int 1))]]

/-- The module is opened again, and a class is declared in it by its path. Both have constants. -/
def extendingUnit : Program :=
  .ofStatements [
    .namespace .zero .module ⟨["M"], false⟩ none
      [.constant .zero "B" none (.literal .zero (.int 2))],
    .namespace .zero .class ⟨["M", "K"], false⟩ none [
      .constant .zero "C" none (.literal .zero (.int 3))]]

theorem lookup_eq_published_extending :
    ∃ f events, events = [Event.take, .finish 0 (.forFile "module") moduleUnit] ∧
      (compile (.forFile "extending") (start.run events).live extendingUnit).1.function = some f ∧
      (∀ name ∈ extendingUnit.declaredConstants, ':' ∉ name.toList) ∧
      ["Root::M", "Root::M::A", "Root::M::B", "Root::M::K", "Root::M::K::C", "Root::M::K::A"].map
          ((collect (start.run events).live extendingUnit.statements).declared.lookup
            (start.run events).live) =
        [some (.namespace .module), some .value, some .value, some (.namespace .class), some .value,
          none] ∧
      ∀ n, (collect (start.run events).live extendingUnit.statements).declared.lookup
          (start.run events).live n =
        (compile (.forFile "extending") (start.run events).live extendingUnit).2.constant? n := by
  have compiles : (compile (.forFile "extending")
      (start.run [.take, .finish 0 (.forFile "module") moduleUnit]).live
      extendingUnit).1.function.isSome := by
    decide +kernel
  have plain : ∀ name ∈ extendingUnit.declaredConstants, ':' ∉ name.toList := by decide +kernel
  obtain ⟨f, compiled⟩ := Option.isSome_iff_exists.1 compiles
  exact ⟨f, _, rfl, compiled, plain, by decide +kernel, lookup_eq_published compiled plain⟩

end Session

end StackCode
