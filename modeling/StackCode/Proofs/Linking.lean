import Mathlib.Logic.Relation
import StackCode.Namespace.Link
import StackCode.Proofs.Declarations

/-!
# Linking keeps a unit over its registry

Linking changes the namespaces of a unit in four ways only, which `LinkStep` lists. What linking
keeps is proved once for each way, so the walk over the statements does not come into it:
`linkBody_goes` says that the walk is a sequence of such steps, and that it takes no failure back.
-/

namespace StackCode

/-! ## The steps of linking -/

/-- What linking does to the namespaces of a unit. -/
inductive LinkStep (r : Registry) : Declared → Declared → Prop where
  /-- A class without superclass gets one that the unit sees. -/
  | superclass {d : Declared} {n S : String} {ns : DeclaredNamespace} (span : Span)
      (declared : d.get? n = some ns) (isClass : ns.kind = .class) (unlinked : ns.superclass = none)
      (seen : d.Sees r S .class) :
      LinkStep r d (d.modify n fun ns =>
        { ns with superclass := some S, setsSuperclass := true, superclassSpan := some span })
  /-- A mixin that the unit sees is included. -/
  | mixin {d : Declared} (n : String) {M : String}
      (seen : d.Sees r M .mixin) :
      LinkStep r d (d.modify n fun ns =>
        { ns with
          mixins := if ns.mixins.contains M then ns.mixins else ns.mixins ++ [M]
          contributions := ns.contributions ++ [.include M] })
  /-- Instance variables are declared. -/
  | ivars (d : Declared) (n : String) (names : List String) (span : Span) :
      LinkStep r d (d.modify n fun ns =>
        { ns with contributions := ns.contributions ++ names.map (Contribution.declare · span) })
  /-- Instance variables of the singleton are declared. -/
  | singletonIvars (d : Declared) (n : String) (names : List String) (span : Span) :
      LinkStep r d (d.modify n fun ns =>
        { ns with singletonIvars := ns.singletonIvars ++ names.map ((·, span)) })

/-- Any number of steps that link a unit. -/
abbrev LinkSteps (r : Registry) : Declared → Declared → Prop :=
  Relation.ReflTransGen (LinkStep r)

section Steps

variable {r : Registry}

theorem resolveNamespace_seen {imports : Imports} {nesting : List String}
    {lookup : Lookup} {path : Path} {n : String} {kind : NamespaceKind}
    (resolved : resolveNamespace imports nesting lookup path = .ok (n, kind)) :
    lookup n = some (.namespace kind) := by
  unfold resolveNamespace at resolved
  cases full : resolve imports nesting lookup path with
  | error failure =>
    rw [full] at resolved
    cases resolved
  | ok fullName =>
    rw [full] at resolved
    simp only [bind, Except.bind] at resolved
    split at resolved
    · rename_i seenKind seen
      cases resolved
      obtain ⟨constant, found, isNamespace⟩ := Option.bind_eq_some_iff.1 seen
      cases constant with
      | «namespace» k =>
        simp only [ConstantKind.namespace?, Option.some.injEq] at isNamespace
        rw [found, isNamespace]
      | value => cases isNamespace
    · cases resolved

namespace Linking

variable (l : Linking) (nesting : List String) (fullName : String)

/-- Linking goes on: the namespaces change by steps, no issue is taken back, and nothing is said
of where declarations stand. -/
structure Goes (r : Registry) (l l' : Linking) : Prop where
  steps : LinkSteps r l.declared l'.declared
  issues : Continues l.issues l'.issues

namespace Goes

variable {l l' l'' : Linking}

theorem refl (l : Linking) : Goes r l l := ⟨.refl, .refl⟩

theorem trans (first : Goes r l l') (second : Goes r l' l'') : Goes r l l'' :=
  ⟨first.steps.trans second.steps, first.issues.trans second.issues⟩

theorem fail {failure : Failure} (legal : failure.isIllegal = false) (span : Span) :
    Goes r l (l.fail failure span) :=
  ⟨.refl, .push .refl legal⟩

theorem step {d : Declared} (step : LinkStep r l.declared d) :
    Goes r l { l with declared := d } :=
  ⟨.single step, .refl⟩

theorem foldl {α : Type} {f : Linking → α → Linking} (each : ∀ l a, Goes r l (f l a))
    (list : List α) (l : Linking) : Goes r l (list.foldl f l) := by
  induction list generalizing l with
  | nil => exact .refl l
  | cons a rest ih => exact (each l a).trans (ih _)

end Goes

theorem superclass_goes {fullName : String} {kind : NamespaceKind} (path : Path) (span : Span)
    (declared : (l.declared.get? fullName).map DeclaredNamespace.kind = some kind) :
    Goes r l (l.superclass r nesting fullName kind path span) := by
  unfold Linking.superclass
  split
  · exact .fail rfl _
  · rename_i isClass
    split
    · rename_i failed
      exact .fail (legal_resolveNamespace _ _ _ _ _ failed) _
    · rename_i S resolved
      obtain ⟨ns, found, nsKind⟩ := Option.map_eq_some_iff.1 declared
      unfold setSuperclass
      rw [found]
      dsimp only
      split
      · rename_i unlinked
        exact .step (.superclass span found (nsKind.trans (Decidable.not_not.1 isClass)) unlinked
          (Declared.sees_of_lookup (resolveNamespace_seen resolved)))
      · split
        · exact .refl l
        · exact .fail rfl _
    · exact .fail rfl _

theorem includeMixin_goes (span : Span) (l : Linking) (path : Path) :
    Goes r l (includeMixin r nesting fullName span l path) := by
  unfold includeMixin
  split
  · rename_i failed
    exact .fail (legal_resolveNamespace _ _ _ _ _ failed) _
  · rename_i resolved
    exact .step (.mixin fullName (Declared.sees_of_lookup (resolveNamespace_seen resolved)))
  · exact .fail rfl _

theorem singletonStmt_goes (l : Linking) (stmt : Stmt) :
    Goes r l (singletonStmt r nesting fullName l stmt) := by
  unfold singletonStmt
  split
  · exact ⟨.refl, .refl⟩
  · exact .step (.singletonIvars _ _ _ _)
  · exact .step (.singletonIvars _ _ _ _)
  · exact .refl l

theorem singleton_goes (body : List Stmt) (l : Linking) :
    Goes r l (l.singleton r nesting fullName body) := by
  have inside : Goes r _ _ :=
    .foldl (singletonStmt_goes nesting fullName) body { l with imports := l.imports.push }
  exact ⟨inside.steps, inside.issues⟩

end Linking

open Linking

mutual

theorem linkStmt_goes (nesting : List String) (owner : Option Owner) (stmt : Stmt) (l : Linking) :
    Goes r l (linkStmt r nesting owner stmt l) := by
  cases stmt with
  | «namespace» span kind path superclass body =>
    unfold linkStmt
    split
    · exact .refl l
    · rename_i fullName _
      split
      · rename_i declared
        have inside (l : Linking) : Goes r l
            { linkBody r (fullName :: nesting) (some ⟨fullName, kind⟩) body
                { l with imports := l.imports.push } with imports := l.imports } := by
          have inner := linkBody_goes (fullName :: nesting) (some ⟨fullName, kind⟩) body
            { l with imports := l.imports.push }
          exact ⟨inner.steps, inner.issues⟩
        cases superclass with
        | none => exact inside l
        | some path => exact (superclass_goes l nesting path span declared).trans (inside _)
      · exact .refl l
  | «using» => exact ⟨.refl, .refl⟩
  | «include» span paths =>
    unfold linkStmt
    split
    · split
      · exact .foldl (includeMixin_goes nesting _ span) paths l
      · exact .refl l
    · exact .refl l
  | ivar =>
    unfold linkStmt
    split
    · split
      · exact .step (.ivars _ _ _ _)
      · exact .refl l
    · exact .refl l
  | «attribute» =>
    unfold linkStmt
    split
    · split
      · exact .step (.ivars _ _ _ _)
      · exact .refl l
    · exact .refl l
  | singleton _ body =>
    unfold linkStmt
    split
    · split
      · exact .refl l
      · exact singleton_goes nesting _ body l
    · exact .refl l
  | _ => exact .refl l

/-- **Linking the statements of a body is a sequence of steps, and takes no failure back.** -/
theorem linkBody_goes (nesting : List String) (owner : Option Owner) :
    ∀ (body : List Stmt) (l : Linking), Goes r l (linkBody r nesting owner body l)
  | [], l => .refl l
  | stmt :: rest, l =>
    (linkStmt_goes nesting owner stmt l).trans (linkBody_goes nesting owner rest _)

end

end Steps

/-! ## What a step keeps -/

namespace Declared

variable {r : Registry} {d d' : Declared}

/-- A change keeps a unit over its registry if it adds only superclasses and mixins that the
unit sees. -/
theorem Over.change {change : String → DeclaredNamespace → DeclaredNamespace}
    (stands : d.Over r) (changes : Changes change d d')
    (superclass : ∀ n ns S, d.get? n = some ns → (change n ns).superclass = some S →
      ns.superclass = some S ∨ (ns.kind = .class ∧ d.Sees r S .class))
    (included : ∀ n ns M, .include M ∈ (change n ns).contributions →
      .include M ∈ ns.contributions ∨ d.Sees r M .mixin) : d'.Over r where
  fullName_eq found := by
    obtain ⟨old, before, rfl⟩ := changes.found found
    rw [changes.fullName_eq, stands.fullName_eq before]
  registered_iff found := by
    obtain ⟨old, before, rfl⟩ := changes.found found
    rw [changes.registered_eq]
    exact stands.registered_iff before
  kind_eq found registered := by
    obtain ⟨old, before, rfl⟩ := changes.found found
    rw [changes.kind_eq]
    exact stands.kind_eq before registered
  superclass_of found linked := by
    obtain ⟨old, before, rfl⟩ := changes.found found
    rw [changes.kind_eq]
    rcases superclass _ old _ before linked with kept | new
    · exact (stands.superclass_of before kept).imp_left fun h => ⟨h.1, changes.sees h.2⟩
    · exact .inl ⟨new.1, changes.sees new.2⟩
  include_of found mem := by
    obtain ⟨old, before, rfl⟩ := changes.found found
    apply changes.sees
    rcases included _ old _ mem with kept | new
    · exact stands.include_of before kept
    · exact new

theorem KeepsSuperclasses.change {change : String → DeclaredNamespace → DeclaredNamespace}
    (keeps : d.KeepsSuperclasses r) (changes : Changes change d d')
    (superclass : ∀ n ns S, d.get? n = some ns → ns.superclass = some S →
      (change n ns).superclass = some S) : d'.KeepsSuperclasses r := by
  intro n ns info S found registered linked
  obtain ⟨old, before, rfl⟩ := changes.found found
  exact superclass n old S before (keeps n old info S before registered linked)

/-- A change adds only superclasses and mixins that the unit sees, and replaces no superclass. -/
structure Links (r : Registry) (d : Declared)
    (change : String → DeclaredNamespace → DeclaredNamespace) : Prop where
  kept : ∀ n ns S, d.get? n = some ns → ns.superclass = some S → (change n ns).superclass = some S
  superclass : ∀ n ns S, d.get? n = some ns → (change n ns).superclass = some S →
    ns.superclass = some S ∨ (ns.kind = .class ∧ d.Sees r S .class)
  included : ∀ n ns M, .include M ∈ (change n ns).contributions →
    .include M ∈ ns.contributions ∨ d.Sees r M .mixin

theorem changes_modify_contributions (fullName : String)
    {f : DeclaredNamespace → DeclaredNamespace}
    (same : ∀ ns, (f ns).fullName = ns.fullName ∧ (f ns).kind = ns.kind ∧
      (f ns).registered = ns.registered) (sameSuperclass : ∀ ns, (f ns).superclass = ns.superclass)
    (includes : ∀ ns M, .include M ∈ (f ns).contributions →
      .include M ∈ ns.contributions ∨ d.Sees r M .mixin) :
    ∃ change, Changes change d (d.modify fullName f) ∧ d.Links r change := by
  refine ⟨_, changes_modify d fullName same, ?_, ?_, ?_⟩
  · intro n old S found linked
    split
    · exact (sameSuperclass old).trans linked
    · exact linked
  · intro n old S found linked
    split at linked
    · exact .inl ((sameSuperclass old).symm.trans linked)
    · exact .inl linked
  · intro n old M mem
    split at mem
    · exact includes old M mem
    · exact .inl mem

theorem LinkStep.changes (step : LinkStep r d d') :
    ∃ change, Changes change d d' ∧ d.Links r change := by
  cases step with
  | @superclass fullName S ns span declared isClass unlinked seen =>
    refine ⟨_, changes_modify d fullName, ?_, ?_, ?_⟩
    · intro n old T found linked
      split
      · rename_i same
        subst same
        cases declared.symm.trans found
        rw [unlinked] at linked
        cases linked
      · exact linked
    · intro n old T found linked
      split at linked
      · rename_i same
        subst same
        cases declared.symm.trans found
        cases linked
        exact .inr ⟨isClass, seen⟩
      · exact .inl linked
    · intro n old M mem
      split at mem <;> exact .inl mem
  | @mixin fullName M seen =>
    refine changes_modify_contributions fullName (fun _ => ⟨rfl, rfl, rfl⟩)
      (fun _ => rfl) fun ns M' mem => ?_
    rcases List.mem_append.1 mem with kept | new
    · exact .inl kept
    · cases List.mem_singleton.1 new
      exact .inr seen
  | ivars fullName names span =>
    refine changes_modify_contributions fullName (fun _ => ⟨rfl, rfl, rfl⟩)
      (fun _ => rfl) fun ns M mem => ?_
    rcases List.mem_append.1 mem with kept | new
    · exact .inl kept
    · simp at new
  | singletonIvars fullName names span =>
    exact changes_modify_contributions fullName (fun _ => ⟨rfl, rfl, rfl⟩)
      (fun _ => rfl) fun ns M mem => .inl mem

/-- **Steps of linking keep a unit over its registry, and the superclasses that are registered.** -/
theorem Over.steps (stands : d.Over r) (keeps : d.KeepsSuperclasses r)
    (steps : LinkSteps r d d') : d'.Over r ∧ d'.KeepsSuperclasses r := by
  induction steps with
  | refl => exact ⟨stands, keeps⟩
  | tail _ step ih =>
    obtain ⟨change, changes, links⟩ := LinkStep.changes step
    exact ⟨ih.1.change changes links.superclass links.included, ih.2.change changes links.kept⟩

end Declared

end StackCode
