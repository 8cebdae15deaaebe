import StackCode.Proofs.DeclarationPlaces
import StackCode.Proofs.Growth

/-!
# Steps of collection

What is collected from a unit grows by a constant, by a registered namespace that is opened again,
or by a new namespace (`CollectStep`). A constant and a new namespace are put under a full name that
the unit sees nothing under, and they are listed as members of a namespace that it knows. What that
means for the collection as a whole is said by `Declared.Filed`. Linking changes namespaces only.
-/

namespace StackCode

open List Option Declared NameTable

variable (r : Registry) (program : Program)

/-! ## The text -/

mutual

/-- The names of the constants that a statement declares. -/
def Stmt.declaredConstants : Stmt → List String
  | .namespace _ _ _ _ body => Stmt.allDeclaredConstants body
  | .constant _ name _ _ => [name]
  | .expression _ _ => []
  | .ret _ _ => []
  | .loop _ _ _ => []
  | .variable _ _ _ _ _ => []
  | .patternVariable _ _ _ _ => []
  | .singleton _ _ => []
  | .method _ _ _ _ => []
  | .signature _ _ _ => []
  | .attribute _ _ _ => []
  | .aliases _ _ => []
  | .ivar _ _ _ => []
  | .include _ _ => []
  | .using _ _ => []

/-- Those of some statements. -/
def Stmt.allDeclaredConstants : List Stmt → List String
  | [] => []
  | stmt :: rest => stmt.declaredConstants ++ Stmt.allDeclaredConstants rest

end

/-- The names of the constants that a unit declares. -/
def Program.declaredConstants (program : Program) : List String :=
  Stmt.allDeclaredConstants program.statements

/-- The names of the namespaces that a unit declares: the last segments of their paths. -/
def Program.declaredNamespaces (program : Program) : List String :=
  program.declaredPaths.filterMap Path.last?

/-! ## What a unit knows and adds -/

namespace Declared

variable {r : Registry} {d d' : Declared} {n x : String}

/-- A unit knows a namespace: the root, one of its own, or a registered one. -/
def Knows (r : Registry) (d : Declared) (n : String) : Prop :=
  n = rootName ∨ (d.get? n).isSome ∨ (r.get? n).isSome

/-- A member is added to a namespace. -/
def Adds (d : Declared) (n x : String) : Prop :=
  ∃ names, d.members.get? n = some names ∧ names.contains x = true

theorem adds_addMember {parent name : String} :
    (d.addMember parent name).Adds n x ↔ d.Adds n x ∨ parent = n ∧ x = name := by
  unfold Adds addMember
  simp only [OrderedMap.get?_insert]
  split
  · rename_i same
    subst same
    cases d.members.get? parent with
    | none => simp [contains_insert]
    | some names => simp [contains_insert, or_comm]
  · rename_i apart
    simp [apart]

@[simp] theorem get?_addMember (parent name : String) :
    (d.addMember parent name).get? n = d.get? n := rfl

@[simp] theorem constants_addMember (parent name : String) :
    (d.addMember parent name).constants = d.constants := rfl

theorem get?_insert_namespace (m : String) (ns : DeclaredNamespace) :
    ({ d with namespaces := d.namespaces.insert m ns } : Declared).get? n =
      if m = n then some ns else d.get? n :=
  OrderedMap.get?_insert _ _ _ _

theorem get?_eq_none_of_lookup (unseen : d.lookup r n = none) : d.get? n = none := by
  cases found : d.get? n with
  | none => rfl
  | some ns =>
    rw [lookup, found] at unseen
    cases unseen

theorem lookup_of_undeclared (undeclared : d.get? n = none) :
    d.lookup r n = if d.constants.contains n then some .value else r.constant? n := by
  rw [lookup, undeclared]

theorem lookup_eq_none : d.lookup r n = none ↔
    d.get? n = none ∧ d.constants.contains n = false ∧ r.constant? n = none := by
  constructor
  · intro unseen
    have undeclared := get?_eq_none_of_lookup unseen
    rw [lookup_of_undeclared undeclared] at unseen
    split at unseen
    · cases unseen
    · rename_i notConstant
      exact ⟨undeclared, Bool.eq_false_iff.2 notConstant, unseen⟩
  · rintro ⟨undeclared, notConstant, unregistered⟩
    rw [lookup_of_undeclared undeclared, notConstant, unregistered]
    rfl

end Declared

/-! ## Steps -/

/-- What collection does to the declarations of a unit whose constants and new namespaces have some
names. -/
inductive CollectStep (r : Registry) (names spaces : List String) : Declared → Declared → Prop where
  /-- A constant is declared in a namespace that is known. -/
  | constant {d : Declared} {parent name : String} (named : name ∈ names)
      (known : d.Knows r parent)
      (unseen : d.lookup r (memberName parent name) = none) :
      CollectStep r names spaces d
        ({ d with constants := d.constants.insert (memberName parent name) }.addMember parent name)
  /-- A registered namespace is opened again. -/
  | reopened {d : Declared} {n : String} (ns : DeclaredNamespace) (undeclared : d.get? n = none)
      (registered : (r.get? n).isSome) :
      CollectStep r names spaces d { d with namespaces := d.namespaces.insert n ns }
  /-- A namespace is declared in one that is known. -/
  | opened {d : Declared} {parent name : String} (ns : DeclaredNamespace) (named : name ∈ spaces)
      (known : d.Knows r parent)
      (unseen : d.lookup r (memberName parent name) = none) :
      CollectStep r names spaces d
        ({ d with namespaces := d.namespaces.insert (memberName parent name) ns }.addMember
          parent name)

/-- Any number of steps that collect declarations. -/
abbrev CollectSteps (r : Registry) (names spaces : List String) : Declared → Declared → Prop :=
  Relation.ReflTransGen (CollectStep r names spaces)

section Steps

variable {r : Registry} {names spaces : List String} {d d' : Declared} {n : String}

theorem CollectStep.isSome (step : CollectStep r names spaces d d') (there : (d.get? n).isSome) :
    (d'.get? n).isSome := by
  cases step with
  | constant => exact there
  | reopened ns =>
    rw [get?_insert_namespace]
    split
    · rfl
    · exact there
  | opened ns =>
    rw [get?_addMember, get?_insert_namespace]
    split
    · rfl
    · exact there

theorem Declared.Knows.step (known : d.Knows r n) (step : CollectStep r names spaces d d') :
    d'.Knows r n :=
  known.imp_right (Or.imp_left step.isSome)

theorem Declared.Knows.steps (known : d.Knows r n) (steps : CollectSteps r names spaces d d') :
    d'.Knows r n := by
  induction steps with
  | refl => exact known
  | tail _ step ih => exact ih.step step

theorem Collection.constant_steps {c : Collection} {nesting : List String} {name : String}
    (span : Span) (named : name ∈ names)
    (known : ∀ n ∈ nesting, c.declared.Knows r n) :
    CollectSteps r names spaces c.declared
      (c.constant r nesting name span).declared := by
  unfold Collection.constant
  dsimp only
  split
  · exact .refl
  · rename_i unseen
    refine .single (.constant named ?_ (not_isSome_iff_eq_none.1 unseen))
    cases nesting with
    | nil => exact .inl rfl
    | cons n rest => exact known n mem_cons_self

theorem Collection.openNamespace_steps {c : Collection} {nesting : List String}
    (kind : NamespaceKind) (path : Path) (span : Span)
    (named : ∀ name, path.last? = some name → name ∈ spaces)
    (known : ∀ n ∈ nesting, c.declared.Knows r n) :
    CollectSteps r names spaces c.declared
        (c.openNamespace r nesting kind path span).1.declared ∧
      ∀ n, (c.openNamespace r nesting kind path span).2 = some n →
        (c.openNamespace r nesting kind path span).1.declared.Knows r n := by
  have isKnown : ∀ n, (c.openNamespace r nesting kind path span).2 = some n →
      (c.openNamespace r nesting kind path span).1.declared.Knows r n := by
    intro n isName
    rcases openNamespace_cases r nesting kind path span c with
      ⟨failure, -, isFailure⟩ | ⟨parent, fullName, inner, ns, isInner, -, -, found, -⟩
    · rw [isFailure] at isName
      cases isName
    · rw [isInner] at isName ⊢
      cases isName
      exact .inr (.inl (by rw [found]; rfl))
  refine ⟨?_, isKnown⟩
  unfold openNamespace
  split
  · exact .refl
  · rename_i parent fullName target
    obtain ⟨⟨last, isLast, rfl⟩, around⟩ := declarationTarget_ok target
    have parentKnown : c.declared.Knows r parent := by
      rcases around with rfl | around | ⟨kind, seen⟩
      · exact .inl rfl
      · exact known parent around
      · rcases sees_of_lookup seen with ⟨ns, found, -⟩ | ⟨-, info, found, -⟩
        · exact .inr (.inl (by rw [found]; rfl))
        · exact .inr (.inr (by rw [found]; rfl))
    split
    · exact .refl
    · rename_i existing seen
      split
      · exact .refl
      · split
        · exact .refl
        · rename_i undeclared
          refine .single (.reopened _ (not_isSome_iff_eq_none.1 undeclared) ?_)
          rcases sees_of_lookup seen with ⟨ns, found, -⟩ | ⟨-, info, found, -⟩
          · rw [found] at undeclared
            exact absurd rfl undeclared
          · rw [found]
            rfl
    · rename_i unseen
      have isName : path.last? = some last := isLast
      rw [isName]
      exact .single (.opened _ (named last isName) parentKnown unseen)

mutual

theorem collectStmt_steps (nesting : List String) (stmt : Stmt) (c : Collection)
    (named : ∀ name ∈ stmt.declaredConstants, name ∈ names)
    (opens : ∀ name ∈ stmt.declaredPaths.filterMap Path.last?, name ∈ spaces)
    (known : ∀ n ∈ nesting, c.declared.Knows r n) :
    CollectSteps r names spaces c.declared
      (collectStmt r nesting stmt c).declared := by
  cases stmt with
  | «namespace» span kind path _ body =>
    rw [Stmt.declaredPaths] at opens
    obtain ⟨steps, isKnown⟩ := Collection.openNamespace_steps kind path span
      (fun name isLast => opens name (mem_filterMap.2 ⟨path, mem_cons_self, isLast⟩)) known
    have inside (name : String)
      (member : name ∈ (Stmt.allDeclaredPaths body).filterMap Path.last?) :
        name ∈ spaces :=
      opens name ((sublist_cons_self path _).filterMap _ |>.subset member)
    unfold collectStmt
    split
    · rename_i inner fullName isOpened
      rw [isOpened] at steps isKnown
      refine steps.trans (collectBody_steps (fullName :: nesting) body inner named inside
        fun n member => ?_)
      rcases mem_cons.1 member with rfl | around
      · exact isKnown n rfl
      · exact (known n around).steps steps
    · rename_i inner isOpened
      rw [isOpened] at steps
      exact steps
  | constant span name => exact Collection.constant_steps span (named name mem_cons_self) known
  | _ => exact .refl

/-- **Collecting from the statements of a body is a sequence of steps.** -/
theorem collectBody_steps (nesting : List String) : ∀ (body : List Stmt) (c : Collection),
    (∀ name ∈ Stmt.allDeclaredConstants body, name ∈ names) →
    (∀ name ∈ (Stmt.allDeclaredPaths body).filterMap Path.last?, name ∈ spaces) →
    (∀ n ∈ nesting, c.declared.Knows r n) →
    CollectSteps r names spaces c.declared (collectBody r nesting body c).declared
  | [], _, _, _, _ => .refl
  | stmt :: rest, c, named, opens, known => by
    rw [Stmt.allDeclaredPaths, filterMap_append] at opens
    have first := collectStmt_steps nesting stmt c
      (fun name member => named name (mem_append_left _ member))
      (fun name member => opens name (mem_append_left _ member)) known
    refine first.trans (collectBody_steps nesting rest _
      (fun name member => named name (mem_append_right _ member))
      (fun name member => opens name (mem_append_right _ member)) fun n around => ?_)
    exact (known n around).steps first

end

end Steps

/-! ## What the steps keep -/

/-- A full name is that of a member of a namespace that is known, and the unit adds it there. -/
def Declared.Placed (r : Registry) (d : Declared) (named : String → Prop) (n : String) : Prop :=
  ∃ parent name, n = memberName parent name ∧ named name ∧ d.Knows r parent ∧
    d.Adds parent name

/-- What holds of the declarations of a unit whose constants and new namespaces have some names.
They are under full names that stand for nothing in the registry. -/
structure Declared.Filed (r : Registry) (names spaces : List String) (d : Declared) : Prop where
  constant : ∀ f, d.constants.contains f = true →
    r.constant? f = none ∧ d.get? f = none ∧ d.Placed r (· ∈ names) f
  opened : ∀ n, (d.get? n).isSome → r.get? n = none →
    r.constant? n = none ∧ d.Placed r (· ∈ spaces) n
  /-- Only constants and namespaces are added to the members of namespaces. -/
  added : ∀ parent name, d.Adds parent name →
    d.constants.contains (memberName parent name) = true ∨ (d.get? (memberName parent name)).isSome
  /-- They are added to namespaces that are known. -/
  known : ∀ parent name, d.Adds parent name → d.Knows r parent

namespace Declared

variable {r : Registry} {names spaces : List String} {d d' : Declared}

theorem filed_empty : Filed r names spaces .empty where
  constant f listed := by simp [empty] at listed
  opened n there := by simp [get?, empty] at there
  added parent name adds := by simp [Adds, empty] at adds
  known parent name adds := by simp [Adds, empty] at adds

theorem Adds.step {n x : String} (adds : d.Adds n x) (step : CollectStep r names spaces d d') :
    d'.Adds n x := by
  cases step with
  | constant => exact adds_addMember.2 (.inl adds)
  | reopened => exact adds
  | opened => exact adds_addMember.2 (.inl adds)

theorem Adds.steps {n x : String} (adds : d.Adds n x) (steps : CollectSteps r names spaces d d') :
    d'.Adds n x := by
  induction steps with
  | refl => exact adds
  | tail _ step ih => exact ih.step step

theorem Placed.step {named : String → Prop} {n : String} (placed : d.Placed r named n)
    (step : CollectStep r names spaces d d') : d'.Placed r named n := by
  obtain ⟨parent, name, isName, holds, known, adds⟩ := placed
  exact ⟨parent, name, isName, holds, known.step step, adds.step step⟩

theorem Filed.step (filed : d.Filed r names spaces) (step : CollectStep r names spaces d d') :
    d'.Filed r names spaces := by
  have isStep := step
  cases step with
  | @constant parent name named known unseen =>
    obtain ⟨undeclared, -, unregistered⟩ := lookup_eq_none.1 unseen
    refine ⟨fun f listed => ?_, fun n there missing => ?_, fun m x adds => ?_, fun m x adds => ?_⟩
    · rcases contains_insert.1 listed with rfl | old
      · exact ⟨unregistered, undeclared, parent, name, rfl, named, known.step isStep,
          adds_addMember.2 (.inr ⟨rfl, rfl⟩)⟩
      · obtain ⟨unregistered, undeclared, placed⟩ := filed.constant f old
        exact ⟨unregistered, undeclared, placed.step isStep⟩
    · obtain ⟨unregistered, placed⟩ := filed.opened n there missing
      exact ⟨unregistered, placed.step isStep⟩
    · rcases adds_addMember.1 adds with old | ⟨rfl, rfl⟩
      · exact (filed.added m x old).imp_left fun listed => contains_insert.2 (.inr listed)
      · exact .inl (contains_insert.2 (.inl rfl))
    · rcases adds_addMember.1 adds with old | ⟨rfl, -⟩
      · exact (filed.known m x old).step isStep
      · exact known.step isStep
  | @reopened m ns undeclared registered =>
    refine ⟨fun f listed => ?_, fun n there missing => ?_, fun p x adds => ?_, fun p x adds => ?_⟩
    · obtain ⟨unregistered, undeclared, placed⟩ := filed.constant f listed
      refine ⟨unregistered, ?_, placed.step isStep⟩
      rw [get?_insert_namespace, if_neg, undeclared]
      rintro rfl
      rw [Registry.get?_eq_none_of_constant? unregistered] at registered
      cases registered
    · rw [get?_insert_namespace, if_neg] at there
      · obtain ⟨unregistered, placed⟩ := filed.opened n there missing
        exact ⟨unregistered, placed.step isStep⟩
      · rintro rfl
        rw [missing] at registered
        cases registered
    · exact (filed.added p x adds).imp_right isStep.isSome
    · exact (filed.known p x adds).step isStep
  | @opened parent name ns named known unseen =>
    obtain ⟨-, notConstant, unregistered⟩ := lookup_eq_none.1 unseen
    refine ⟨fun f listed => ?_, fun n there missing => ?_, fun m x adds => ?_, fun m x adds => ?_⟩
    · obtain ⟨unregistered, undeclared, placed⟩ := filed.constant f listed
      refine ⟨unregistered, ?_, placed.step isStep⟩
      rw [get?_addMember, get?_insert_namespace, if_neg, undeclared]
      rintro rfl
      exact absurd (notConstant.symm.trans listed) Bool.false_ne_true
    · rw [get?_addMember, get?_insert_namespace] at there
      split at there
      · rename_i same
        subst same
        exact ⟨unregistered, parent, name, rfl, named, known.step isStep,
          adds_addMember.2 (.inr ⟨rfl, rfl⟩)⟩
      · obtain ⟨unregistered, placed⟩ := filed.opened n there missing
        exact ⟨unregistered, placed.step isStep⟩
    · rcases adds_addMember.1 adds with old | ⟨rfl, rfl⟩
      · exact (filed.added m x old).imp_right isStep.isSome
      · exact .inr (by rw [get?_addMember, get?_insert_namespace, if_pos rfl]; rfl)
    · rcases adds_addMember.1 adds with old | ⟨rfl, -⟩
      · exact (filed.known m x old).step isStep
      · exact known.step isStep

theorem Filed.steps (filed : d.Filed r names spaces) (steps : CollectSteps r names spaces d d') :
    d'.Filed r names spaces := by
  induction steps with
  | refl => exact filed
  | tail _ step ih => exact ih.step step

end Declared

/-- **What is collected from a unit is filed.** -/
theorem filed_collect :
    (collect r program.statements).declared.Filed r program.declaredConstants
      program.declaredNamespaces := by
  refine filed_empty.steps (collectBody_steps [rootName] program.statements ⟨.empty, #[]⟩
    (fun _ => id) (fun _ => id) fun n around => ?_)
  exact .inl (mem_singleton.1 around)

/-! ## Linked units -/

section Link

variable {r : Registry} {d d' : Declared}

/-- The parts of a unit that linking leaves alone. -/
def Declared.SameMembers (d d' : Declared) : Prop :=
  d'.constants = d.constants ∧ d'.members = d.members

theorem LinkSteps.sameMembers (steps : LinkSteps r d d') : d.SameMembers d' := by
  induction steps with
  | refl => exact ⟨rfl, rfl⟩
  | tail _ step ih => cases step <;> exact ih

theorem foldl_cutCycle_sameMembers (names : List String) (l : Linking) :
    l.declared.SameMembers (names.foldl (cutCycle r) l).declared := by
  induction names generalizing l with
  | nil => exact ⟨rfl, rfl⟩
  | cons n rest ih =>
    have first : l.declared.SameMembers (cutCycle r l n).declared := by
      rcases cutCycle_cases r l n with ⟨same, -⟩ | ⟨-, cut⟩
      · rw [same]
        exact ⟨rfl, rfl⟩
      · rw [cut]
        exact ⟨rfl, rfl⟩
    exact ⟨(ih _).1.trans first.1, (ih _).2.trans first.2⟩

theorem link_sameMembers (r : Registry) (statements : List Stmt) (c : Collection) :
    c.declared.SameMembers (link r statements c).declared := by
  have walked : c.declared.SameMembers (linkWalk r statements c).declared :=
    (linkWalk_steps r statements c).sameMembers
  have cut : (linkWalk r statements c).declared.SameMembers
      (linkCut r statements c).declared := foldl_cutCycle_sameMembers _ _
  rw [link_eq]
  exact ⟨cut.1.trans walked.1, cut.2.trans walked.2⟩

end Link

theorem isSome_linked (n : String) :
    ((program.linked r).declared.get? n).isSome =
      ((collect r program.statements).declared.get? n).isSome := by
  have same := congrArg Option.isSome
    (link_kinds r program.statements (collect r program.statements) n)
  rwa [isSome_map, isSome_map] at same

theorem Declared.lookup_eq (d : Declared) (r : Registry) (n : String) :
    d.lookup r n = match (d.get? n).map DeclaredNamespace.kind with
      | some kind => some (.namespace kind)
      | none => if d.constants.contains n then some .value else r.constant? n := by
  rw [Declared.lookup]
  cases d.get? n <;> rfl

theorem Declared.lookup_congr {d d' : Declared}
    (kinds : ∀ n, (d'.get? n).map DeclaredNamespace.kind = (d.get? n).map DeclaredNamespace.kind)
    (constants : d'.constants = d.constants) :
    d'.lookup r = d.lookup r := by
  funext n
  rw [lookup_eq, lookup_eq, kinds, constants]

/-- **A linked unit sees what the collected one sees.** -/
theorem lookup_linked :
    (program.linked r).declared.lookup r =
      (collect r program.statements).declared.lookup r :=
  lookup_congr r
    (link_kinds r program.statements (collect r program.statements))
    (link_sameMembers r program.statements (collect r program.statements)).1

/-- **What a linked unit declares is filed.** -/
theorem Program.filed_linked :
    (program.linked r).declared.Filed r program.declaredConstants
      program.declaredNamespaces := by
  obtain ⟨constant, opened, added, known⟩ := filed_collect r program
  obtain ⟨sameConstants, sameMembers⟩ :=
    link_sameMembers r program.statements (collect r program.statements)
  have there := isSome_linked r program
  have adds (n x : String) : (program.linked r).declared.Adds n x ↔
      (collect r program.statements).declared.Adds n x := by
    rw [Declared.Adds, Program.linked, sameMembers]
    rfl
  have placed {named : String → Prop} {n : String}
      (place : (collect r program.statements).declared.Placed r named n) :
      (program.linked r).declared.Placed r named n := by
    obtain ⟨parent, name, isName, holds, known, isAdded⟩ := place
    refine ⟨parent, name, isName, holds, ?_, (adds parent name).2 isAdded⟩
    rwa [Declared.Knows, there]
  refine ⟨fun f listed => ?_, fun n isThere missing => ?_, fun parent name isAdded => ?_,
    fun parent name isAdded => ?_⟩
  · rw [Program.linked, sameConstants] at listed
    obtain ⟨unregistered, undeclared, place⟩ := constant f listed
    refine ⟨unregistered, ?_, placed place⟩
    rw [← not_isSome_iff_eq_none, there, undeclared]
    exact Bool.false_ne_true
  · obtain ⟨unregistered, place⟩ := opened n (there n ▸ isThere) missing
    exact ⟨unregistered, placed place⟩
  · rw [there, Program.linked, sameConstants]
    exact added parent name ((adds parent name).1 isAdded)
  · rw [Declared.Knows, there]
    exact known parent name ((adds parent name).1 isAdded)

end StackCode
