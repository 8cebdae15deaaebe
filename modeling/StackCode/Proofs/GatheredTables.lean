import StackCode.Proofs.Growth

/-!
# What a table gathers

A table begins with what its namespace starts from. Here is which names come after that:
every instance variable that the unit declares for the namespace, and every name that an included
mixin has, unless the mixin comes back to the namespace. What is included is what linking has
recorded as a mixin (`link_mixin_iff`).
-/

namespace StackCode

open List Option Declared NameTable

section Tables

variable {declared : Declared} {r : Registry} {singleton : Bool} {tables : Tables} {n x : String}
  {start table : NameTable} {contributions : List Contribution}

theorem Gathers.contains_declared {span : Span}
    (makes : Gathers declared r singleton tables n start contributions table)
    (member : .declare x span ∈ contributions) : table.contains x = true := by
  induction makes with
  | nil => cases member
  | declare _ later ih =>
    cases member with
    | head => exact contains_of_le later.le (contains_insert.2 (.inl rfl))
    | tail _ member => exact ih member
  | «include» _ _ ih =>
    cases member with
    | tail _ member => exact ih member

theorem Gathers.contains_included {M : String}
    (makes : Gathers declared r singleton tables n start contributions table)
    (member : .include M ∈ contributions) (straight : ¬declared.Reaches M n) :
    ∃ other, SeenIn declared r singleton tables M other ∧
      ∀ x, other.contains x = true → table.contains x = true := by
  induction makes with
  | nil => cases member
  | declare _ _ ih =>
    cases member with
    | tail _ member => exact ih member
  | «include» given later ih =>
    cases member with
    | head =>
      exact ⟨_, given.resolve_left straight, fun x listed =>
        contains_of_le later.le (contains_append.2 (.inr listed))⟩
    | tail _ member => exact ih member

end Tables

/-! ## What linking records -/

/-- What is recorded of a namespace that its tables and its mixins depend on. -/
def DeclaredNamespace.sources (ns : DeclaredNamespace) :
    List String × List Contribution × List (String × Span) :=
  (ns.mixins, ns.contributions, ns.singletonIvars)

section Link

variable {r : Registry} {d d' : Declared}

theorem link_sources (r : Registry) (statements : List Stmt) (c : Collection) (n : String) :
    ((link r statements c).declared.get? n).map DeclaredNamespace.sources =
      ((linkWalk r statements c).declared.get? n).map DeclaredNamespace.sources := by
  rw [link_eq]
  refine ((changes_default _).map (fun m ns => ?_) n).trans
    (foldl_cutCycle_map _ _ n fun _ => rfl)
  rcases ns.withDefaultSuperclass_cases with ⟨same, -⟩ | ⟨-, -, default⟩
  · rw [same]
  · rw [default]
    rfl

/-- The mixins of a namespace are those that contribute to it. -/
def DeclaredNamespace.Mixed (ns : DeclaredNamespace) : Prop :=
  ∀ M, M ∈ ns.mixins ↔ .include M ∈ ns.contributions

theorem Declared.forall_modify {holds : DeclaredNamespace → Prop} {fullName : String}
    {f : DeclaredNamespace → DeclaredNamespace} (all : ∀ n ns, d.get? n = some ns → holds ns)
    (each : ∀ ns, holds ns → holds (f ns)) :
    ∀ n ns, (d.modify fullName f).get? n = some ns → holds ns := by
  intro n ns found
  rw [Declared.get?_modify] at found
  split at found
  · obtain ⟨before, foundBefore, rfl⟩ := map_eq_some_iff.1 found
    exact each before (all _ before foundBefore)
  · exact all n ns found

theorem LinkStep.mixed (step : LinkStep r d d')
    (mixed : ∀ n ns, d.get? n = some ns → ns.Mixed) : ∀ n ns, d'.get? n = some ns → ns.Mixed := by
  cases step with
  | superclass => exact forall_modify mixed fun ns isMixed => isMixed
  | @mixin n M seen =>
    refine forall_modify mixed fun ns isMixed other => ?_
    dsimp only
    rw [mem_append, mem_singleton, ← isMixed other, Contribution.include.injEq]
    split
    · rename_i listed
      rw [contains_iff_mem] at listed
      refine ⟨.inl, ?_⟩
      rintro (old | rfl)
      · exact old
      · exact listed
    · rw [mem_append, mem_singleton]
  | ivars n names span =>
    refine forall_modify mixed fun ns isMixed other => ?_
    simp [isMixed other]
  | singletonIvars => exact forall_modify mixed fun ns isMixed => isMixed

theorem LinkSteps.mixed (steps : LinkSteps r d d')
    (mixed : ∀ n ns, d.get? n = some ns → ns.Mixed) : ∀ n ns, d'.get? n = some ns → ns.Mixed := by
  induction steps with
  | refl => exact mixed
  | tail _ step ih => exact step.mixed ih

/-- **The mixins of a linked namespace are those that contribute to it.** -/
theorem link_mixin_iff {statements : List Stmt} {c : Collection} (clean : c.Clean r)
    {n : String} {ns : DeclaredNamespace}
    (found : (link r statements c).declared.get? n = some ns) (M : String) :
    M ∈ ns.mixins ↔ .include M ∈ ns.contributions := by
  have same := link_sources r statements c n
  rw [found] at same
  obtain ⟨walked, foundWalked, isSame⟩ := map_eq_some_iff.1 same.symm
  have mixed : walked.Mixed := by
    refine (linkWalk_steps r statements c).mixed (fun m fresh foundFresh other => ?_) n walked
      foundWalked
    have isFresh := clean m fresh foundFresh
    rw [isFresh.mixins_eq, isFresh.contributions_eq]
    simp
  obtain ⟨sameMixins, sameContributions, -⟩ : walked.mixins = ns.mixins ∧
      walked.contributions = ns.contributions ∧ walked.singletonIvars = ns.singletonIvars := by
    simpa [DeclaredNamespace.sources] using isSame
  rw [← sameMixins, ← sameContributions]
  exact mixed M

end Link

end StackCode
