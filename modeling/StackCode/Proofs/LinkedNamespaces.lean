import StackCode.Namespace.Layout
import StackCode.Proofs.Ancestry

/-!
# What a linked unit says of its namespaces

A unit files every namespace under its full name, calls it by what stands behind the last separator
of that name, agrees with the registry about its kind, and links it only to namespaces that the unit
sees (`link_stated`). Nothing is asked of the registry for that.
-/

namespace StackCode

variable (names : List String) (l : Linking) (n : String) {statements : List Stmt} {c : Collection}

/-- A namespace is as its declarations say. -/
structure DeclaredNamespace.Stated (r : Registry) (d : Declared) (n : String)
    (ns : DeclaredNamespace) : Prop where
  fullName_eq : ns.fullName = n
  name_eq : ns.name = ((splitMember? n).map Prod.snd).getD n
  kind_eq : ∀ info, r.get? n = some info → ns.kind = info.kind
  superclass : ns.setsSuperclass = true → ∃ S, ns.superclass = some S ∧ d.Sees r S .class
  mixins : ∀ M ∈ ns.mixins, d.Sees r M .mixin

/-- What a unit says of all its namespaces. -/
def Declared.Stated (r : Registry) (d : Declared) : Prop :=
  ∀ n ns, d.get? n = some ns → ns.Stated r d n

variable {r : Registry} {d d' : Declared}

theorem Collection.Clean.stated (clean : c.Clean r) : c.declared.Stated r := by
  intro n ns found
  have fresh := clean n ns found
  refine ⟨fresh.fullName_eq, fresh.name_eq, fresh.kind_eq, fun sets => ?_, fun M member => ?_⟩
  · rw [fresh.unlinked] at sets
    cases sets
  · rw [fresh.mixins_eq] at member
    cases member

theorem Declared.Stated.change {change : String → DeclaredNamespace → DeclaredNamespace}
    (stated : d.Stated r) (changes : Declared.Changes change d d')
    (each : ∀ n ns, d.get? n = some ns → ns.Stated r d n →
      (change n ns).Stated r d n) : d'.Stated r := by
  intro n ns found
  obtain ⟨before, foundBefore, rfl⟩ := changes.found found
  have kept := each n before foundBefore (stated n before foundBefore)
  refine ⟨kept.fullName_eq, kept.name_eq, kept.kind_eq, fun sets => ?_, fun M member =>
    changes.sees (kept.mixins M member)⟩
  obtain ⟨S, linked, seen⟩ := kept.superclass sets
  exact ⟨S, linked, changes.sees seen⟩

theorem Declared.Stated.modify (stated : d.Stated r) (fullName : String)
    {f : DeclaredNamespace → DeclaredNamespace}
    (each : ∀ ns, ns.Stated r d fullName → (f ns).Stated r d fullName)
    (same : ∀ ns, (f ns).fullName = ns.fullName ∧ (f ns).kind = ns.kind ∧
      (f ns).registered = ns.registered := by exact fun _ => ⟨rfl, rfl, rfl⟩) :
    (d.modify fullName f).Stated r := by
  refine stated.change (Declared.changes_modify d fullName same) ?_
  intro n ns _ said
  split
  · rename_i same
    subst same
    exact each ns said
  · exact said

theorem LinkStep.stated (step : LinkStep r d d') (stated : d.Stated r) :
    d'.Stated r := by
  cases step with
  | @superclass n S ns span declared isClass unlinked seen =>
    exact stated.modify n fun ns said =>
      { said with superclass := fun _ => ⟨S, rfl, seen⟩ }
  | @mixin n M seen =>
    refine stated.modify n fun ns said =>
      { said with mixins := fun other member => ?_ }
    dsimp only at member
    split at member
    · exact said.mixins other member
    · rcases List.mem_append.1 member with old | new
      · exact said.mixins other old
      · rwa [List.mem_singleton.1 new]
  | ivars n names span =>
    exact stated.modify n fun ns said => { said with }
  | singletonIvars n names span =>
    exact stated.modify n fun ns said => { said with }

theorem LinkSteps.stated (steps : LinkSteps r d d') (stated : d.Stated r) :
    d'.Stated r := by
  induction steps with
  | refl => exact stated
  | tail _ step ih => exact step.stated ih

theorem cutCycle_stated (stated : l.declared.Stated r) :
    (cutCycle r l n).declared.Stated r := by
  rcases cutCycle_cases r l n with ⟨same, -⟩ | ⟨-, cut⟩
  · rwa [same]
  · rw [cut]
    exact stated.modify n fun ns said => { said with superclass := nofun }

theorem foldl_cutCycle_stated (stated : l.declared.Stated r) :
    (names.foldl (cutCycle r) l).declared.Stated r := by
  induction names generalizing l with
  | nil => exact stated
  | cons n rest ih => exact ih _ (cutCycle_stated l n stated)

/-- **A linked unit says of every namespace what it has to.** -/
theorem link_stated (clean : c.Clean r) :
    (link r statements c).declared.Stated r := by
  have walked : (linkWalk r statements c).declared.Stated r :=
    (linkWalk_steps r statements c).stated clean.stated
  have cut : (linkCut r statements c).declared.Stated r := foldl_cutCycle_stated _ _ walked
  rw [link_eq]
  refine cut.change (Declared.changes_default _) fun n ns _ said => ?_
  rcases ns.withDefaultSuperclass_cases with ⟨same, -⟩ | ⟨-, none, default⟩
  · rwa [same]
  · rw [default]
    refine ⟨said.fullName_eq, said.name_eq, said.kind_eq, fun sets => ?_, said.mixins⟩
    obtain ⟨S, linked, -⟩ := said.superclass sets
    rw [none] at linked
    cases linked

/-! ## Kinds -/

theorem Declared.Changes.map {change : String → DeclaredNamespace → DeclaredNamespace} {α : Type}
    {view : DeclaredNamespace → α} (changes : Declared.Changes change d d')
    (same : ∀ n ns, view (change n ns) = view ns) (n : String) :
    (d'.get? n).map view = (d.get? n).map view := by
  rw [changes.get?_eq, Option.map_map]
  cases d.get? n with
  | none => rfl
  | some ns => exact congrArg some (same n ns)

theorem Declared.Changes.kinds {change : String → DeclaredNamespace → DeclaredNamespace}
    (changes : Declared.Changes change d d') (n : String) :
    (d'.get? n).map DeclaredNamespace.kind = (d.get? n).map DeclaredNamespace.kind :=
  changes.map changes.kind_eq n

theorem LinkSteps.kinds (steps : LinkSteps r d d') (n : String) :
    (d'.get? n).map DeclaredNamespace.kind = (d.get? n).map DeclaredNamespace.kind := by
  induction steps with
  | refl => rfl
  | tail _ step ih =>
    obtain ⟨change, changes, -⟩ := Declared.LinkStep.changes step
    exact (changes.kinds n).trans ih

theorem foldl_cutCycle_map {α : Type} {view : DeclaredNamespace → α}
    (same : ∀ ns : DeclaredNamespace,
      view { ns with superclass := some objectName, setsSuperclass := false } = view ns) :
    ((names.foldl (cutCycle r) l).declared.get? n).map view = (l.declared.get? n).map view := by
  induction names generalizing l with
  | nil => rfl
  | cons first rest ih =>
    refine (ih _).trans ?_
    rcases cutCycle_cases r l first with ⟨unchanged, -⟩ | ⟨-, cut⟩
    · rw [unchanged]
    · rw [cut]
      refine Declared.Changes.map (Declared.changes_modify l.declared first) (fun m ns => ?_) n
      split
      · exact same ns
      · rfl

/-- **Linking neither adds a namespace nor changes the kind of one.** -/
theorem link_kinds (r : Registry) (statements : List Stmt) (c : Collection) (n : String) :
    ((link r statements c).declared.get? n).map DeclaredNamespace.kind =
      (c.declared.get? n).map DeclaredNamespace.kind := by
  rw [link_eq]
  exact ((Declared.changes_default _).kinds n).trans
    ((foldl_cutCycle_map _ _ n fun _ => rfl).trans ((linkWalk_steps r statements c).kinds n))

/-! ## Failures -/

/-- **Linking takes no issue back, and says nothing of where declarations stand.** -/
theorem continues_link : Continues c.issues (link r statements c).issues := by
  rw [link_eq]
  have walked : Linking.Goes r ⟨c.declared, c.issues, .empty⟩ _ :=
    linkBody_goes [rootName] none statements _
  exact walked.issues.trans (continues_foldl_cutCycle _ _)

end StackCode
