import StackCode.Proofs.Collecting
import StackCode.Proofs.GatheredTables

/-!
# What the text of a unit declares

A unit declares namespaces, constants, inclusions of mixins and instance variables. Here they are
read off its text (`Program.facts`), each for the namespace that the declaration around it is
collected as.

Namespaces and constants are always collected (`Stmt.collects_allFacts`). The others are recorded by
the walk that links the unit, if it finds the same places of declarations (`Stmt.notes_allFacts`).
-/

namespace StackCode

open List Option

/-- Something that is declared of a namespace. -/
inductive Fact where
  /-- It exists, and is of some kind. -/
  | «namespace» (n : String) (kind : NamespaceKind)
  /-- It has a constant. -/
  | constant (n x : String)
  /-- It includes a mixin. -/
  | mixin (n M : String)
  /-- Its instances, or the namespace itself, have an instance variable. -/
  | ivar (singleton : Bool) (n x : String)
deriving DecidableEq

/-- Whether a fact is about a name and not about its content. -/
def Fact.isName : Fact → Bool
  | .namespace _ _ => true
  | .constant _ _ => true
  | .mixin _ _ => false
  | .ivar _ _ _ => false

/-! ## The text -/

/-- The instance variables that a statement declares. -/
def Stmt.ivarNames : Stmt → List String
  | .ivar _ name _ => [name]
  | .attribute _ _ entries => entries.map Attribute.name
  | _ => []

/-- The imports behind a statement. -/
def Stmt.importsAfter (seen : Lookup) (nesting : List String) (imports : Imports) : Stmt → Imports
  | .using _ entries => (Imports.use nesting seen entries imports).1
  | _ => imports

namespace Owner

/-- Instance variables of the instances of the namespace around. -/
def ivarFacts (owner : Option Owner) (names : List String) : List Fact :=
  match owner with
  | some ⟨n, kind⟩ => if kind.holdsInstances then names.map (.ivar false n) else []
  | none => []

/-- Instance variables of the namespace around itself. -/
def singletonFacts (owner : Option Owner) (names : List String) : List Fact :=
  match owner with
  | some ⟨n, kind⟩ => if kind = .interface then [] else names.map (.ivar true n)
  | none => []

/-- The mixins that an owner includes. -/
def mixinFacts (seen : Lookup) (nesting : List String) (imports : Imports) (owner : Option Owner)
    (paths : List Path) : List Fact :=
  match owner with
  | some ⟨n, kind⟩ =>
    if kind.holdsInstances then paths.filterMap fun path =>
      match resolveNamespace imports nesting seen path with
      | .ok (M, .mixin) => some (.mixin n M)
      | _ => none
    else []
  | none => []

end Owner

mutual

/-- What a statement declares. Declarations are put where they are collected, behind what stands
before them. Mixins are looked up with all that is `seen` in the unit. -/
def Stmt.facts (r : Registry) (seen : Lookup) (nesting : List String) (owner : Option Owner)
    (imports : Imports) : Stmt → Collection → List Fact
  | .namespace span kind path _ body, c =>
    match c.openNamespace r nesting kind path span with
    | (inner, some fullName) =>
      .namespace fullName kind ::
        Stmt.allFacts r seen (fullName :: nesting) (some ⟨fullName, kind⟩) imports.push body inner
    | (_, none) => []
  | .constant _ name _ _, _ => [.constant (nesting.head?.getD rootName) name]
  | .include _ paths, _ => Owner.mixinFacts seen nesting imports owner paths
  | .ivar _ name _, _ => Owner.ivarFacts owner [name]
  | .attribute _ _ entries, _ => Owner.ivarFacts owner (entries.map Attribute.name)
  | .singleton _ body, _ => Owner.singletonFacts owner (body.flatMap Stmt.ivarNames)
  | .expression _ _, _ => []
  | .ret _ _, _ => []
  | .loop _ _ _, _ => []
  | .variable _ _ _ _ _, _ => []
  | .patternVariable _ _ _ _, _ => []
  | .method _ _ _ _, _ => []
  | .signature _ _ _, _ => []
  | .aliases _ _, _ => []
  | .using _ _, _ => []

/-- What the statements of a body declare. -/
def Stmt.allFacts (r : Registry) (seen : Lookup) (nesting : List String) (owner : Option Owner)
    (imports : Imports) : List Stmt → Collection → List Fact
  | [], _ => []
  | stmt :: rest, c =>
    stmt.facts r seen nesting owner imports c ++
      Stmt.allFacts r seen nesting owner (stmt.importsAfter seen nesting imports) rest
        (collectStmt r nesting stmt c)

end

/-- What the text of a unit declares. -/
def Program.facts (program : Program) (r : Registry) : List Fact :=
  Stmt.allFacts r ((program.linked r).declared.lookup r) [rootName] none .empty
    program.statements ⟨.empty, #[]⟩

/-! ## What is collected -/

section Collect

variable {r : Registry} {seen : Lookup}

/-- A namespace or constant is collected. -/
def Declared.Collects (d : Declared) : Fact → Prop
  | .namespace n kind => ∃ ns, d.get? n = some ns ∧ ns.kind = kind
  | .constant n x => d.Adds n x
  | .mixin _ _ => True
  | .ivar _ _ _ => True

theorem Declared.Collects.later {c c' : Collection} {names spaces : List String} {fact : Fact}
    (collects : c.declared.Collects fact) (grows : c.Grows r c')
    (steps : CollectSteps r names spaces c.declared c'.declared) :
    c'.declared.Collects fact := by
  cases fact with
  | «namespace» n kind =>
    obtain ⟨ns, found, isKind⟩ := collects
    exact ⟨ns, grows.get?_eq n ns found, isKind⟩
  | constant n x => exact Declared.Adds.steps collects steps
  | mixin => trivial
  | ivar => trivial

namespace Owner

variable {nesting : List String} {imports : Imports} {owner : Option Owner} {names : List String}
  {paths : List Path} {fact : Fact}

theorem exists_of_mem_ivarFacts (member : fact ∈ ivarFacts owner names) :
    ∃ n kind x, owner = some ⟨n, kind⟩ ∧ kind.holdsInstances = true ∧ x ∈ names ∧
      fact = .ivar false n x := by
  unfold ivarFacts at member
  split at member
  · rename_i n kind
    split at member
    · rename_i holds
      obtain ⟨x, isName, rfl⟩ := List.mem_map.1 member
      exact ⟨n, kind, x, rfl, holds, isName, rfl⟩
    · cases member
  · cases member

theorem exists_of_mem_singletonFacts (member : fact ∈ singletonFacts owner names) :
    ∃ n kind x, owner = some ⟨n, kind⟩ ∧ kind ≠ .interface ∧ x ∈ names ∧ fact = .ivar true n x := by
  unfold singletonFacts at member
  split at member
  · rename_i n kind
    split at member
    · cases member
    · rename_i ownTable
      obtain ⟨x, isName, rfl⟩ := List.mem_map.1 member
      exact ⟨n, kind, x, rfl, ownTable, isName, rfl⟩
  · cases member

theorem exists_of_mem_mixinFacts (member : fact ∈ mixinFacts seen nesting imports owner paths) :
    ∃ n kind, owner = some ⟨n, kind⟩ ∧ kind.holdsInstances = true ∧ ∃ path ∈ paths, ∃ M,
      resolveNamespace imports nesting seen path = .ok (M, .mixin) ∧ fact = .mixin n M := by
  unfold mixinFacts at member
  split at member
  · rename_i n kind
    split at member
    · rename_i holds
      obtain ⟨path, isPath, isFact⟩ := mem_filterMap.1 member
      split at isFact
      · rename_i M resolved
        cases isFact
        exact ⟨n, kind, rfl, holds, path, isPath, M, resolved, rfl⟩
      · cases isFact
    · cases member
  · cases member

end Owner

mutual

theorem Stmt.collects_facts (nesting : List String) (owner : Option Owner) (imports : Imports)
    (stmt : Stmt) (c : Collection) (unfailed : ¬Failed (collectStmt r nesting stmt c).issues)
    (known : ∀ n ∈ nesting, c.declared.Knows r n) (fact : Fact)
    (member : fact ∈ stmt.facts r seen nesting owner imports c) :
    (collectStmt r nesting stmt c).declared.Collects fact := by
  cases stmt with
  | «namespace» span kind path _ body =>
    rw [collectStmt] at unfailed ⊢
    rw [Stmt.facts] at member
    have steps := @Collection.openNamespace_steps r (Stmt.allDeclaredConstants body)
      path.last?.toList c nesting kind path span (fun name isLast =>
        Option.mem_toList.2 isLast) known
    rcases Collection.openNamespace_cases r nesting kind path span c with
      ⟨failure, -, isFailure⟩ | ⟨parent, fullName, inner, ns, isInner, -, -, found, isKind, -⟩
    · rw [isFailure] at member
      cases member
    · rw [isInner] at unfailed member steps ⊢
      dsimp only at unfailed member steps ⊢
      have isKnown : ∀ n ∈ fullName :: nesting, inner.declared.Knows r n := by
        intro n around
        rcases mem_cons.1 around with rfl | around
        · exact steps.2 n rfl
        · exact (known n around).steps steps.1
      rcases mem_cons.1 member with rfl | inside
      · have here : inner.declared.Collects (.namespace fullName kind) := ⟨ns, found, isKind⟩
        exact here.later (collectBody_grows r _ body inner)
          (collectBody_steps _ body inner (fun _ => id) (fun _ => id) isKnown)
      · exact Stmt.collects_allFacts (fullName :: nesting) _ _ body inner unfailed isKnown
          fact inside
  | constant span name =>
    rw [collectStmt, Collection.constant] at unfailed ⊢
    cases mem_singleton.1 member
    dsimp only at unfailed ⊢
    split at unfailed
    · exact (unfailed (failed_push_failure _ _ _)).elim
    · rename_i unseen
      rw [if_neg unseen]
      exact Declared.adds_addMember.2 (.inr ⟨rfl, rfl⟩)
  | «include» =>
    obtain ⟨n, kind, -, -, path, -, M, -, rfl⟩ := Owner.exists_of_mem_mixinFacts member
    trivial
  | ivar =>
    obtain ⟨n, kind, x, -, -, -, rfl⟩ := Owner.exists_of_mem_ivarFacts member
    trivial
  | «attribute» =>
    obtain ⟨n, kind, x, -, -, -, rfl⟩ := Owner.exists_of_mem_ivarFacts member
    trivial
  | singleton =>
    obtain ⟨n, kind, x, -, -, -, rfl⟩ := Owner.exists_of_mem_singletonFacts member
    trivial
  | _ => cases member

/-- **The namespaces and constants of a body are collected**, if nothing fails. -/
theorem Stmt.collects_allFacts (nesting : List String) (owner : Option Owner) (imports : Imports) :
    ∀ (body : List Stmt) (c : Collection), ¬Failed (collectBody r nesting body c).issues →
      (∀ n ∈ nesting, c.declared.Knows r n) →
      ∀ fact ∈ Stmt.allFacts r seen nesting owner imports body c,
        (collectBody r nesting body c).declared.Collects fact
  | [], _, _, _, _, member => nomatch member
  | stmt :: rest, c, unfailed, known, fact, member => by
    rw [collectBody] at unfailed ⊢
    have grows := collectBody_grows r nesting rest (collectStmt r nesting stmt c)
    have isKnown : ∀ n ∈ nesting,
        (collectStmt r nesting stmt c).declared.Knows r n := fun n around =>
      (known n around).steps (collectStmt_steps nesting stmt c (fun _ => id) (fun _ => id) known)
    rw [Stmt.allFacts] at member
    rcases mem_append.1 member with here | later
    · exact (Stmt.collects_facts nesting owner imports stmt c
        (fun failed => unfailed (grows.failed failed)) known fact here).later grows
        (collectBody_steps nesting rest _ (fun _ => id) (fun _ => id) isKnown)
    · exact Stmt.collects_allFacts nesting owner _ rest _ unfailed isKnown fact later

end

end Collect

/-! ## What is linked -/

section Link

variable {r : Registry} {seen : Lookup} {d d' : Declared}
variable {l : Linking} {nesting : List String} {fact : Fact}

/-- A fact that no full name stands for is recorded. -/
def Declared.Notes (d : Declared) : Fact → Prop
  | .namespace _ _ => True
  | .constant _ _ => True
  | .mixin n M => ∃ ns, d.get? n = some ns ∧ M ∈ ns.mixins
  | .ivar singleton n x => ∃ ns span, d.get? n = some ns ∧ ns.hasTable singleton = true ∧
      .declare x span ∈ ns.contributionsTo singleton

theorem Declared.Notes.mono (notes : d.Notes fact)
    (found : ∀ {n ns}, d.get? n = some ns → ∃ ns', d'.get? n = some ns' ∧ ns'.kind = ns.kind ∧
      ns.mixins ⊆ ns'.mixins ∧
      ∀ singleton, ns.contributionsTo singleton ⊆ ns'.contributionsTo singleton) :
    d'.Notes fact := by
  cases fact with
  | «namespace» => trivial
  | constant => trivial
  | mixin n M =>
    obtain ⟨ns, isFound, member⟩ := notes
    obtain ⟨ns', isFound', -, more, -⟩ := found isFound
    exact ⟨ns', isFound', more member⟩
  | ivar singleton n x =>
    obtain ⟨ns, span, isFound, has, member⟩ := notes
    obtain ⟨ns', isFound', kind, -, more⟩ := found isFound
    refine ⟨ns', span, isFound', ?_, more singleton member⟩
    rwa [DeclaredNamespace.hasTable, kind]

theorem Declared.Notes.modify (notes : d.Notes fact) (fullName : String)
    {f : DeclaredNamespace → DeclaredNamespace} (sameKind : ∀ ns, (f ns).kind = ns.kind)
    (mixins : ∀ ns, ns.mixins ⊆ (f ns).mixins)
    (contributions : ∀ ns singleton,
      ns.contributionsTo singleton ⊆ (f ns).contributionsTo singleton) :
    (d.modify fullName f).Notes fact := by
  refine notes.mono fun {n ns} isFound => ?_
  rw [get?_modify, isFound]
  split
  · exact ⟨f ns, rfl, sameKind ns, mixins ns, contributions ns⟩
  · exact ⟨ns, rfl, rfl, List.Subset.refl _, fun _ => List.Subset.refl _⟩

theorem LinkStep.notes (step : LinkStep r d d') {fact : Fact} (notes : d.Notes fact) :
    d'.Notes fact := by
  have keeps (names : List Contribution) (ns : DeclaredNamespace) (singleton : Bool) :
      ns.contributionsTo singleton ⊆
        DeclaredNamespace.contributionsTo { ns with contributions := ns.contributions ++ names }
          singleton := by
    cases singleton with
    | false => exact subset_append_left _ _
    | true => exact List.Subset.refl _
  cases step with
  | superclass =>
    exact notes.modify _ (fun _ => rfl) (fun _ => List.Subset.refl _) fun _ _ => List.Subset.refl _
  | @mixin n M =>
    refine notes.modify n (fun _ => rfl) (fun ns => ?_) fun ns => keeps [.include M] ns
    dsimp only
    split
    · exact List.Subset.refl _
    · exact subset_append_left _ _
  | ivars n names span =>
    exact notes.modify n (fun _ => rfl) (fun _ => List.Subset.refl _) (keeps _)
  | singletonIvars n names span =>
    refine notes.modify n (fun _ => rfl) (fun _ => List.Subset.refl _) fun ns singleton => ?_
    cases singleton with
    | false => exact List.Subset.refl _
    | true =>
      refine map_subset _ ?_
      exact subset_append_left _ _

theorem LinkSteps.notes (steps : LinkSteps r d d') {fact : Fact} (notes : d.Notes fact) :
    d'.Notes fact := by
  induction steps with
  | refl => exact notes
  | tail _ step ih => exact step.notes ih

theorem Declared.Notes.link {statements : List Stmt} {c : Collection}
    (notes : (linkWalk r statements c).declared.Notes fact) :
    (link r statements c).declared.Notes fact := by
  refine notes.mono fun {n ns} isFound => ?_
  have kinds := (link_kinds r statements c n).trans
    ((linkWalk_steps r statements c).kinds n).symm
  have sources := link_sources r statements c n
  rw [isFound] at kinds sources
  obtain ⟨ns', isFound', sameKind⟩ := map_eq_some_iff.1 kinds
  rw [isFound'] at sources
  obtain ⟨mixins, instances, singletons⟩ : ns'.mixins = ns.mixins ∧
      ns'.contributions = ns.contributions ∧ ns'.singletonIvars = ns.singletonIvars := by
    simpa [DeclaredNamespace.sources] using sources
  refine ⟨ns', isFound', sameKind, mixins ▸ List.Subset.refl _, fun singleton => ?_⟩
  rw [DeclaredNamespace.contributionsTo, DeclaredNamespace.contributionsTo, instances, singletons]
  exact List.Subset.refl _

theorem LinkSteps.lookup_eq (steps : LinkSteps r d d') :
    d'.lookup r = d.lookup r :=
  Declared.lookup_congr r steps.kinds steps.sameMembers.1

/-! ### One statement -/

namespace Linking

variable {l : Linking} {nesting : List String} {n : String}
variable (path : Path) {names : List String} {kind : NamespaceKind} {ns : DeclaredNamespace}
  {x : String} (span : Span) (paths : List Path)

theorem includeMixin_imports (path : Path) :
    (includeMixin r nesting n span l path).imports = l.imports := by
  unfold includeMixin
  split <;> rfl

theorem includeMixins_imports :
    (paths.foldl (includeMixin r nesting n span) l).imports = l.imports := by
  induction paths generalizing l with
  | nil => rfl
  | cons path rest ih => exact ih.trans (includeMixin_imports span path)

theorem superclass_imports :
    (l.superclass r nesting n kind path span).imports = l.imports := by
  unfold superclass
  split
  · rfl
  · split
    · rfl
    · unfold setSuperclass
      split
      · rfl
      · split
        · rfl
        · split <;> rfl
    · rfl

theorem includeMixins_notes (there : (l.declared.get? n).isSome) {path : Path}
    (member : path ∈ paths) {M : String}
    (resolved : resolveNamespace l.imports nesting (l.declared.lookup r) path =
      .ok (M, .mixin)) :
    (paths.foldl (includeMixin r nesting n span) l).declared.Notes (.mixin n M) := by
  induction paths generalizing l with
  | nil => cases member
  | cons first rest ih =>
    have step : LinkSteps r l.declared
        (includeMixin r nesting n span l first).declared :=
      (includeMixin_goes nesting n span l first).steps
    rcases mem_cons.1 member with rfl | later
    · refine (Goes.foldl (includeMixin_goes nesting n span) rest _).steps.notes ?_
      obtain ⟨ns, found⟩ := isSome_iff_exists.1 there
      rw [includeMixin, resolved]
      dsimp only
      refine ⟨_, Declared.get?_modify_self found _, ?_⟩
      dsimp only
      split
      · rename_i listed
        exact contains_iff_mem.1 listed
      · exact mem_append_right _ (mem_singleton_self M)
    · refine ih ?_ later ?_
      · have same := congrArg Option.isSome (step.kinds n)
        rw [isSome_map, isSome_map] at same
        exact same.trans there
      · rw [includeMixin_imports, step.lookup_eq]
        exact resolved

theorem declareIvars_notes (found : l.declared.get? n = some ns)
    (holds : ns.kind.holdsInstances = true) (member : x ∈ names) :
    (l.declareIvars n names span).declared.Notes (.ivar false n x) := by
  refine ⟨_, span, Declared.get?_modify_self found _, holds, ?_⟩
  exact mem_append_right _ (List.mem_map_of_mem member)

theorem declareSingletonIvars_notes (found : l.declared.get? n = some ns)
    (ownTable : ns.kind ≠ .interface) (member : x ∈ names) :
    (l.declareSingletonIvars n names span).declared.Notes (.ivar true n x) := by
  refine ⟨_, span, Declared.get?_modify_self found _, decide_eq_true ownTable, ?_⟩
  refine List.mem_map.2 ⟨(x, span), mem_append_right _ ?_, rfl⟩
  exact List.mem_map_of_mem member

theorem singleton_notes (body : List Stmt)
    (declared : (l.declared.get? n).map DeclaredNamespace.kind = some kind)
    (ownTable : kind ≠ .interface) (member : x ∈ body.flatMap Stmt.ivarNames) :
    (l.singleton r nesting n body).declared.Notes (.ivar true n x) := by
  have walk : ∀ inside : Linking,
      (inside.declared.get? n).map DeclaredNamespace.kind = some kind →
        (body.foldl (singletonStmt r nesting n) inside).declared.Notes (.ivar true n x) := by
    induction body with
    | nil => cases member
    | cons stmt rest ih =>
      intro inside isDeclared
      have first : Goes r inside (singletonStmt r nesting n inside stmt) :=
        singletonStmt_goes nesting n inside stmt
      rw [flatMap_cons] at member
      rcases mem_append.1 member with here | later
      · refine (Goes.foldl (singletonStmt_goes nesting n) rest _).steps.notes ?_
        obtain ⟨ns, found, rfl⟩ := map_eq_some_iff.1 isDeclared
        unfold Stmt.ivarNames at here
        split at here
        · exact declareSingletonIvars_notes _ found ownTable here
        · exact declareSingletonIvars_notes _ found ownTable here
        · cases here
      · exact ih later _ ((first.steps.kinds n).trans isDeclared)
  exact walk _ declared

end Linking

/-- Linking a declaration goes on with its body, behind the superclass. -/
theorem linkStmt_namespace (owner : Option Owner) (span : Span) {kind : NamespaceKind} {path : Path}
    (superclass : Option Path) (body : List Stmt) {parent fullName : String}
    (target : declarationTarget nesting (l.declared.lookup r) path = .ok (parent, fullName))
    (declared : (l.declared.get? fullName).map DeclaredNamespace.kind = some kind) :
    ∃ l', LinkSteps r l.declared l'.declared ∧ l'.imports = l.imports.push ∧
      (linkStmt r nesting owner (.namespace span kind path superclass body) l).declared =
        (linkBody r (fullName :: nesting) (some ⟨fullName, kind⟩) body l').declared := by
  rw [linkStmt, target]
  dsimp only
  rw [if_pos declared]
  cases superclass with
  | none => exact ⟨{ l with imports := l.imports.push }, .refl, rfl, rfl⟩
  | some above =>
    let linked := l.superclass r nesting fullName kind above span
    refine ⟨{ linked with imports := linked.imports.push },
      (Linking.superclass_goes l nesting above span declared).steps, ?_, rfl⟩
    exact congrArg Imports.push (Linking.superclass_imports above span)

theorem linkStmt_imports (nesting : List String) (owner : Option Owner) (stmt : Stmt)
    (l : Linking) :
    (linkStmt r nesting owner stmt l).imports =
      stmt.importsAfter (l.declared.lookup r) nesting l.imports := by
  cases stmt with
  | «namespace» span kind path superclass body =>
    unfold linkStmt
    split
    · rfl
    · split
      · cases superclass with
        | none => rfl
        | some above => exact Linking.superclass_imports above span
      · rfl
  | «include» span paths =>
    unfold linkStmt
    split
    · split
      · exact Linking.includeMixins_imports span paths
      · rfl
    · rfl
  | ivar =>
    unfold linkStmt
    split
    · split <;> rfl
    · rfl
  | «attribute» =>
    unfold linkStmt
    split
    · split <;> rfl
    · rfl
  | singleton =>
    unfold linkStmt
    split
    · split <;> rfl
    · rfl
  | _ => rfl

/-! ### All statements -/

/-- A unit has what is collected. -/
def Declared.Has (d : Declared) (c : Collection) : Prop :=
  ∀ n ns, c.declared.get? n = some ns → (d.get? n).map DeclaredNamespace.kind = some ns.kind

theorem Declared.Has.of_grows {c c' : Collection} (has : d.Has c') (grows : c.Grows r c') :
    d.Has c :=
  fun n ns found => has n ns (grows.get?_eq n ns found)

theorem Declared.Has.steps {c : Collection} (has : d.Has c) (steps : LinkSteps r d d') :
    d'.Has c :=
  fun n ns found => (steps.kinds n).trans (has n ns found)

/-- A unit has the namespace around. -/
def Declared.HasOwner (d : Declared) (owner : Option Owner) : Prop :=
  ∀ n kind, owner = some ⟨n, kind⟩ → (d.get? n).map DeclaredNamespace.kind = some kind

theorem Declared.HasOwner.steps {owner : Option Owner} (has : d.HasOwner owner)
    (steps : LinkSteps r d d') : d'.HasOwner owner :=
  fun n kind isOwner => (steps.kinds n).trans (has n kind isOwner)

theorem notes_ivarFacts {owner : Option Owner} {stmt : Stmt} {names : List String} (span : Span)
    (linked : ∀ n kind, owner = some ⟨n, kind⟩ → kind.holdsInstances = true →
      linkStmt r nesting owner stmt l = l.declareIvars n names span)
    (has : l.declared.HasOwner owner) (member : fact ∈ Owner.ivarFacts owner names) :
    (linkStmt r nesting owner stmt l).declared.Notes fact := by
  obtain ⟨n, kind, x, rfl, holds, isName, rfl⟩ := Owner.exists_of_mem_ivarFacts member
  obtain ⟨ns, found, rfl⟩ := map_eq_some_iff.1 (has n kind rfl)
  rw [linked n _ rfl holds]
  exact Linking.declareIvars_notes span found holds isName

mutual

theorem Stmt.notes_facts (nesting : List String) (owner : Option Owner) (stmt : Stmt)
    (c : Collection) (l : Linking) (lookup : l.declared.lookup r = seen)
    (keeps : stmt.keepsPlaces r seen nesting c = true)
    (has : l.declared.Has (collectStmt r nesting stmt c))
    (hasOwner : l.declared.HasOwner owner) (fact : Fact)
    (member : fact ∈ stmt.facts r seen nesting owner l.imports c) :
    (linkStmt r nesting owner stmt l).declared.Notes fact := by
  cases stmt with
  | «namespace» span kind path superclass body =>
    rw [collectStmt] at has
    rw [Stmt.keepsPlaces, Bool.and_eq_true, beq_iff_eq] at keeps
    rw [Stmt.facts] at member
    rcases Collection.openNamespace_cases r nesting kind path span c with
      ⟨failure, -, isFailure⟩ | ⟨parent, fullName, inner, ns, isInner, target, -, found, isKind, -⟩
    · rw [isFailure] at member
      cases member
    · rw [isInner] at has keeps member
      dsimp only at has keeps member
      obtain ⟨samePlace, keepsInside⟩ := keeps
      rw [target] at samePlace
      replace samePlace := Except.eq_ok_of_toOption samePlace
      rw [← lookup] at samePlace
      have declared : (l.declared.get? fullName).map DeclaredNamespace.kind = some kind :=
        isKind ▸ has.of_grows (collectBody_grows r _ body inner) fullName ns found
      obtain ⟨l', steps, imports, same⟩ :=
        linkStmt_namespace owner span superclass body samePlace declared
      rw [same]
      rcases mem_cons.1 member with rfl | inside
      · trivial
      · rw [← imports] at inside
        refine Stmt.notes_allFacts (fullName :: nesting) (some ⟨fullName, kind⟩) body inner l'
          (steps.lookup_eq.trans lookup) keepsInside (has.steps steps) ?_ fact inside
        rintro n other ⟨⟩
        exact (steps.kinds fullName).trans declared
  | «include» span paths =>
    obtain ⟨n, kind, rfl, holds, path, isPath, M, resolved, rfl⟩ :=
      Owner.exists_of_mem_mixinFacts member
    rw [linkStmt, if_pos holds]
    refine Linking.includeMixins_notes span paths ?_ isPath (lookup ▸ resolved)
    rw [← isSome_map, hasOwner n kind rfl]
    rfl
  | ivar span name =>
    exact notes_ivarFacts span (by rintro n kind rfl holds; rw [linkStmt, if_pos holds])
      hasOwner member
  | «attribute» span _ entries =>
    exact notes_ivarFacts span (by rintro n kind rfl holds; rw [linkStmt, if_pos holds])
      hasOwner member
  | singleton _ body =>
    obtain ⟨n, kind, x, rfl, ownTable, isName, rfl⟩ := Owner.exists_of_mem_singletonFacts member
    rw [linkStmt, if_neg ownTable]
    exact Linking.singleton_notes body (hasOwner n kind rfl) ownTable isName
  | constant =>
    cases mem_singleton.1 member
    trivial
  | _ => cases member

/-- **The inclusions and instance variables of a body are recorded**, if its declarations keep their
places. -/
theorem Stmt.notes_allFacts (nesting : List String) (owner : Option Owner) :
    ∀ (body : List Stmt) (c : Collection) (l : Linking), l.declared.lookup r = seen →
      Stmt.allKeepPlaces r seen nesting body c = true →
      l.declared.Has (collectBody r nesting body c) → l.declared.HasOwner owner →
      ∀ fact ∈ Stmt.allFacts r seen nesting owner l.imports body c,
        (linkBody r nesting owner body l).declared.Notes fact
  | [], _, _, _, _, _, _, _, member => nomatch member
  | stmt :: rest, c, l, lookup, keeps, has, hasOwner, fact, member => by
    rw [collectBody] at has
    rw [Stmt.allKeepPlaces, Bool.and_eq_true] at keeps
    rw [Stmt.allFacts, ← lookup, ← linkStmt_imports nesting owner, lookup] at member
    have steps : LinkSteps r l.declared (linkStmt r nesting owner stmt l).declared :=
      (linkStmt_goes nesting owner stmt l).steps
    rw [linkBody]
    rcases mem_append.1 member with here | later
    · exact (linkBody_goes nesting owner rest _).steps.notes
        (Stmt.notes_facts nesting owner stmt c l
        lookup keeps.1 (has.of_grows (collectBody_grows r nesting rest _)) hasOwner fact here)
    · exact Stmt.notes_allFacts nesting owner rest _ _ (steps.lookup_eq.trans lookup) keeps.2
        (has.steps steps) (hasOwner.steps steps) fact later

end

end Link

end StackCode
