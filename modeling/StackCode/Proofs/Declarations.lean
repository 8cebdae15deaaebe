import StackCode.Proofs.Legality

/-!
# What a unit declares, seen over its registry

Two things are said about a unit that is collected and linked against a registry.

* `Declared.Over`: every namespace of the unit is filed under its own name, agrees with the
  registry, and names only superclasses and mixins that the unit can see.
* `Declared.KeepsSuperclasses`: a superclass that is registered is not replaced.

Here they are proved of what is collected, where each namespace is `Fresh`.
-/

namespace StackCode

/-! ## Failures -/

/-- Some issue keeps a unit from being compiled. -/
def Failed (issues : Array Issue) : Prop := issues.any (·.problem.isFailure) = true

instance (issues : Array Issue) : Decidable (Failed issues) :=
  inferInstanceAs (Decidable (_ = true))

theorem Failed.push {issues : Array Issue} (failed : Failed issues) (issue : Issue) :
    Failed (issues.push issue) := by
  unfold Failed at *
  rw [Array.any_push, failed, Bool.true_or]

theorem failed_push_failure (issues : Array Issue) (f : Failure) (span : Span) :
    Failed (issues.push (.failure f span)) := by
  unfold Failed
  rw [Array.any_push]
  exact Bool.or_true _

theorem Continues.failed {issues issues' : Array Issue} (continues : Continues issues issues')
    (failed : Failed issues) : Failed issues' := by
  induction continues with
  | refl => exact failed
  | push _ _ ih => exact ih.push _

/-! ## Look-ups -/

namespace Registry

theorem constant?_eq_namespace {r : Registry} {n : String} {kind : NamespaceKind} :
    r.constant? n = some (.namespace kind) ↔ ∃ info, r.get? n = some info ∧ info.kind = kind := by
  unfold constant?
  cases found : r.get? n with
  | some info => simp
  | none =>
    simp only [reduceCtorEq, false_and, exists_false, iff_false]
    intro value
    simp only [Option.bind_eq_bind, Option.bind_eq_some_iff] at value
    obtain ⟨_, -, _, -, member⟩ := value
    split at member <;> simp at member

theorem get?_eq_none_of_constant? {r : Registry} {n : String} (missing : r.constant? n = none) :
    r.get? n = none := by
  cases found : r.get? n with
  | none => rfl
  | some info =>
    have := constant?_eq_namespace.2 ⟨info, found, rfl⟩
    rw [missing] at this
    cases this

end Registry

namespace Declared

/-- A unit sees a namespace of some kind: one of its own, or else one of the registry's. -/
def Sees (r : Registry) (d : Declared) (n : String) (kind : NamespaceKind) : Prop :=
  (∃ ns, d.get? n = some ns ∧ ns.kind = kind) ∨
    (d.get? n = none ∧ ∃ info, r.get? n = some info ∧ info.kind = kind)

theorem sees_of_lookup {d : Declared} {r : Registry} {n : String} {kind : NamespaceKind}
    (found : d.lookup r n = some (.namespace kind)) : d.Sees r n kind := by
  unfold lookup at found
  cases declared : d.get? n with
  | some ns =>
    rw [declared] at found
    exact .inl ⟨ns, declared, by simpa using found⟩
  | none =>
    rw [declared] at found
    dsimp only at found
    split at found
    · cases found
    · exact .inr ⟨declared, Registry.constant?_eq_namespace.1 found⟩

theorem get?_modify (d : Declared) (fullName n : String)
    (f : DeclaredNamespace → DeclaredNamespace) :
    (d.modify fullName f).get? n = if fullName = n then (d.get? n).map f else d.get? n :=
  OrderedMap.get?_modify _ _ _ _

theorem get?_modify_self {d : Declared} {n : String} {ns : DeclaredNamespace}
    (found : d.get? n = some ns) (f : DeclaredNamespace → DeclaredNamespace) :
    (d.modify n f).get? n = some (f ns) := by
  rw [get?_modify, if_pos rfl, found]
  rfl

/-- The namespaces of a unit are those of another, each changed in a way that leaves its name,
its kind and whether it is registered alone. -/
structure Changes (change : String → DeclaredNamespace → DeclaredNamespace) (d d' : Declared) :
    Prop where
  get?_eq : ∀ n, d'.get? n = (d.get? n).map (change n)
  fullName_eq : ∀ n ns, (change n ns).fullName = ns.fullName
  kind_eq : ∀ n ns, (change n ns).kind = ns.kind
  registered_eq : ∀ n ns, (change n ns).registered = ns.registered

theorem changes_modify (d : Declared) (fullName : String)
    {f : DeclaredNamespace → DeclaredNamespace}
    (same : ∀ ns, (f ns).fullName = ns.fullName ∧ (f ns).kind = ns.kind ∧
      (f ns).registered = ns.registered := by exact fun _ => ⟨rfl, rfl, rfl⟩) :
    Changes (fun n ns => if fullName = n then f ns else ns) d (d.modify fullName f) where
  get?_eq n := by
    rw [get?_modify]
    split <;> simp
  fullName_eq n ns := by split <;> simp [same]
  kind_eq n ns := by split <;> simp [same]
  registered_eq n ns := by split <;> simp [same]

section

variable {change : String → DeclaredNamespace → DeclaredNamespace} {d d' : Declared}
  (changes : Changes change d d')

include changes

theorem Changes.found {n : String} {ns : DeclaredNamespace}
    (found : d'.get? n = some ns) : ∃ old, d.get? n = some old ∧ change n old = ns :=
  Option.map_eq_some_iff.1 (changes.get?_eq n ▸ found)

theorem Changes.sees {r : Registry} {n : String} {kind : NamespaceKind}
    (seen : d.Sees r n kind) : d'.Sees r n kind := by
  unfold Sees
  rw [changes.get?_eq]
  rcases seen with ⟨ns, declared, nsKind⟩ | ⟨undeclared, registered⟩
  · exact .inl ⟨change n ns, by rw [declared]; rfl, by rw [changes.kind_eq, nsKind]⟩
  · exact .inr ⟨by rw [undeclared]; rfl, registered⟩

end

/-! ## Units over registries -/

/-- What a unit declares fits the registry that it was compiled against. -/
structure Over (r : Registry) (d : Declared) : Prop where
  /-- A namespace is filed under its full name. -/
  fullName_eq : ∀ {n ns}, d.get? n = some ns → ns.fullName = n
  /-- A namespace is marked as registered when it is. -/
  registered_iff : ∀ {n ns}, d.get? n = some ns →
    (ns.registered = true ↔ ∃ info, r.get? n = some info)
  /-- A registered namespace is reopened as what it is. -/
  kind_eq : ∀ {n ns info}, d.get? n = some ns → r.get? n = some info → ns.kind = info.kind
  /-- A superclass is a class that the unit sees, unless the registry gives it. -/
  superclass_of : ∀ {n ns S}, d.get? n = some ns → ns.superclass = some S →
    (ns.kind = .class ∧ d.Sees r S .class) ∨
      ∃ info, r.get? n = some info ∧ info.superclass = some S
  /-- What is included is a mixin that the unit sees. -/
  include_of : ∀ {n ns M}, d.get? n = some ns → .include M ∈ ns.contributions →
    d.Sees r M .mixin

/-- No registered superclass is replaced. -/
def KeepsSuperclasses (r : Registry) (d : Declared) : Prop :=
  ∀ n ns info S, d.get? n = some ns → r.get? n = some info → info.superclass = some S →
    ns.superclass = some S

end Declared

/-! ## Collection -/

/-- A namespace as it is first recorded. -/
structure DeclaredNamespace.Fresh (r : Registry) (n : String) (ns : DeclaredNamespace) : Prop where
  fullName_eq : ns.fullName = n
  contributions_eq : ns.contributions = []
  registered_eq : ns.registered = (r.get? n).isSome
  kind_eq : ∀ info, r.get? n = some info → ns.kind = info.kind
  superclass_eq : ns.superclass = (r.get? n).bind NamespaceInfo.superclass
  name_eq : ns.name = ((splitMember? n).map Prod.snd).getD n
  unlinked : ns.setsSuperclass = false
  mixins_eq : ns.mixins = []

namespace Collection

/-- Every namespace of a collection is as it was first recorded. -/
def Clean (r : Registry) (c : Collection) : Prop :=
  ∀ n ns, c.declared.get? n = some ns → ns.Fresh r n

theorem clean_empty (r : Registry) : Clean r ⟨.empty, #[]⟩ := by
  intro n ns found
  simp [Declared.get?, Declared.empty] at found

/-- A collection has all that another one has and only adds namespaces as they are first recorded.
It takes no issue back, and says nothing of where declarations stand. -/
structure Grows (r : Registry) (c c' : Collection) : Prop where
  get?_eq : ∀ n ns, c.declared.get? n = some ns → c'.declared.get? n = some ns
  clean : c.Clean r → c'.Clean r
  issues : Continues c.issues c'.issues

section Grows

variable {r : Registry} {c c' c'' : Collection}

theorem Grows.refl (c : Collection) : Grows r c c := ⟨fun _ _ => id, id, .refl⟩

theorem Grows.trans (first : Grows r c c') (second : Grows r c' c'') :
    Grows r c c'' :=
  ⟨fun n ns found => second.get?_eq n ns (first.get?_eq n ns found),
    fun clean => second.clean (first.clean clean), first.issues.trans second.issues⟩

theorem Grows.failed (grows : Grows r c c') : Failed c.issues → Failed c'.issues :=
  grows.issues.failed

theorem Grows.fail {failure : Failure} (legal : failure.isIllegal = false) (span : Span) :
    Grows r c (c.fail failure span) :=
  ⟨fun _ _ => id, id, .push .refl legal⟩

variable {kind : NamespaceKind} {parent fullName : String} {registered : Bool}
  {superclass : Option String} {span : Span}

theorem get?_record_of_ne {n : String} (other : n ≠ fullName) :
    (c.record kind parent fullName registered superclass span).declared.get? n =
      c.declared.get? n :=
  (OrderedMap.get?_insert _ _ _ _).trans (if_neg (Ne.symm other))

theorem exists_get?_record : ∃ ns, ns.kind = kind ∧
    (c.record kind parent fullName registered superclass span).declared.get? fullName = some ns :=
  ⟨_, rfl, (OrderedMap.get?_insert _ _ _ _).trans (if_pos rfl)⟩

theorem Grows.record (new : c.declared.get? fullName = none)
    (isRegistered : registered = (r.get? fullName).isSome)
    (sameKind : ∀ info, r.get? fullName = some info → kind = info.kind)
    (sameSuperclass : superclass = (r.get? fullName).bind NamespaceInfo.superclass) :
    Grows r c (c.record kind parent fullName registered superclass span) where
  get?_eq n ns found := by
    rw [get?_record_of_ne, found]
    rintro rfl
    rw [new] at found
    cases found
  clean clean n ns found := by
    simp only [Collection.record, Declared.get?, OrderedMap.get?_insert] at found
    split at found
    · rename_i same
      subst same
      cases found
      exact ⟨rfl, rfl, isRegistered, sameKind, sameSuperclass, rfl, rfl, rfl⟩
    · exact clean n ns found
  issues := .refl

end Grows

/-- What a declaration of a namespace does to a collection: it reports a failure, or there is
the namespace at its place. -/
theorem openNamespace_cases (r : Registry) (nesting : List String) (kind : NamespaceKind)
    (path : Path) (span : Span) (c : Collection) :
    (∃ failure, failure.isIllegal = false ∧
        c.openNamespace r nesting kind path span = (c.fail failure span, none)) ∨
      ∃ parent fullName inner ns, c.openNamespace r nesting kind path span =
          (inner, some fullName) ∧
        declarationTarget nesting (c.declared.lookup r) path = .ok (parent, fullName) ∧
        Grows r c inner ∧ inner.declared.get? fullName = some ns ∧ ns.kind = kind ∧
        ∀ n, n ≠ fullName → inner.declared.get? n = c.declared.get? n := by
  unfold openNamespace
  split
  · rename_i failed
    exact .inl ⟨_, legal_declarationTarget _ _ _ _ failed, rfl⟩
  · rename_i parent fullName target
    split
    · exact .inl ⟨_, rfl, rfl⟩
    · rename_i existing seen
      split
      · exact .inl ⟨_, rfl, rfl⟩
      · rename_i same
        have sameKind : existing = kind := Decidable.not_not.1 same
        rcases Declared.sees_of_lookup seen with ⟨ns, found, isKind⟩ | ⟨new, info, found, infoKind⟩
        · rw [if_pos (by rw [found]; rfl)]
          exact .inr ⟨parent, fullName, c, ns, rfl, target, .refl c, found, isKind.trans sameKind,
            fun _ _ => rfl⟩
        · rw [if_neg (by simp [new])]
          obtain ⟨ns, isKind, here⟩ := exists_get?_record
          refine .inr ⟨parent, fullName, _, ns, rfl, target,
            .record new (by simp [found]) ?_ (by simp),
            here, isKind, fun n => get?_record_of_ne⟩
          intro other isOther
          rw [found] at isOther
          cases isOther
          rw [infoKind, sameKind]
    · rename_i unseen
      -- Nothing of the name is declared or registered.
      have new : c.declared.get? fullName = none := by
        cases found : c.declared.get? fullName with
        | none => rfl
        | some ns =>
          rw [Declared.lookup, found] at unseen
          cases unseen
      have missing : r.get? fullName = none := by
        apply Registry.get?_eq_none_of_constant?
        rw [Declared.lookup, new] at unseen
        dsimp only at unseen
        split at unseen
        · cases unseen
        · exact unseen
      have grows : Grows r c (c.record kind parent fullName false none span) :=
        .record new (by simp [missing]) (by simp [missing]) (by simp [missing])
      obtain ⟨ns, isKind, here⟩ := exists_get?_record
      dsimp only
      split
      · exact .inr ⟨parent, fullName, _, ns, rfl, target,
          ⟨grows.get?_eq, grows.clean, grows.issues⟩,
          here, isKind, fun n => get?_record_of_ne⟩
      · exact .inr ⟨parent, fullName, _, ns, rfl, target, grows, here, isKind,
          fun n => get?_record_of_ne⟩

end Collection

open Collection

mutual

theorem collectStmt_grows (r : Registry) (nesting : List String) (stmt : Stmt)
    (c : Collection) : c.Grows r (collectStmt r nesting stmt c) := by
  cases stmt with
  | «namespace» span kind path _ body =>
    rw [collectStmt]
    rcases openNamespace_cases r nesting kind path span c with
      ⟨failure, legal, isFailure⟩ | ⟨parent, fullName, inner, ns, isInner, -, grows, -⟩
    · rw [isFailure]
      exact .fail legal span
    · rw [isInner]
      exact grows.trans (collectBody_grows r (fullName :: nesting) body inner)
  | constant span name =>
    rw [collectStmt, Collection.constant]
    dsimp only
    split
    · exact .fail rfl span
    · exact ⟨fun _ _ => id, id, .refl⟩
  | _ => exact .refl c

theorem collectBody_grows (r : Registry) (nesting : List String) :
    ∀ (body : List Stmt) (c : Collection), c.Grows r (collectBody r nesting body c)
  | [], c => .refl c
  | stmt :: rest, c =>
    (collectStmt_grows r nesting stmt c).trans (collectBody_grows r nesting rest _)

end

/-- **What is collected from a unit is as it was first recorded.** -/
theorem clean_collect (r : Registry) (statements : List Stmt) :
    (collect r statements).Clean r :=
  (collectBody_grows r [rootName] statements _).clean (Collection.clean_empty r)

theorem Collection.Clean.stands {r : Registry} {c : Collection} (clean : c.Clean r) :
    c.declared.Over r where
  fullName_eq found := (clean _ _ found).fullName_eq
  registered_iff found := by
    rw [(clean _ _ found).registered_eq, Option.isSome_iff_exists]
  kind_eq found registered := (clean _ _ found).kind_eq _ registered
  superclass_of found superclass := by
    rw [(clean _ _ found).superclass_eq, Option.bind_eq_some_iff] at superclass
    exact .inr superclass
  include_of found included := by
    rw [(clean _ _ found).contributions_eq] at included
    cases included

theorem Collection.Clean.keepsSuperclasses {r : Registry} {c : Collection}
    (clean : c.Clean r) : c.declared.KeepsSuperclasses r := by
  intro n ns info S found registered superclass
  rw [(clean n ns found).superclass_eq, registered]
  exact superclass

end StackCode
