import StackCode.Proofs.FixedSlots
import StackCode.Proofs.GatheredTables

/-!
# Instance variables of mixins

The methods of a mixin address instance variables by name, so a class should have, in its own table,
all names that are in the tables of the mixins that it includes (`Registry.MixesIn`). When a mixin
is included, its names are copied. That leaves two ways in which a name may be missing.

* The mixin was included by an earlier unit, and is reopened. What it is given now reaches only
  those that include it anew (`Outgrows`).
* Mixins of one unit include each other. The names of one that is not complete are not copied
  (`GoesRound`).

There is no third way.
-/

namespace StackCode

/-- Every class or mixin has the instance variables of the mixins that it includes. -/
def Registry.MixesIn (r : Registry) : Prop :=
  ∀ C info, r.get? C = some info → info.kind.holdsInstances = true → ∀ M ∈ info.mixins, ∀ x,
    (r.tableOf M false).contains x = true → info.ivars.contains x = true

/-- A mixin that is reopened gets an instance variable, and a registered namespace that includes it
does not. -/
def Outgrows (r : Registry) (d : Declared) (layouts : Layouts) : Prop :=
  ∃ C info M x, r.get? C = some info ∧ info.kind.holdsInstances = true ∧ M ∈ info.mixins ∧
    (d.get? M).isSome ∧ (r.tableOf M false).contains x = false ∧
    (seenTable r layouts M false).contains x = true ∧
    (seenTable r layouts C false).contains x = false

/-- A mixin comes back, by inclusions, to a namespace that includes it, and has an instance variable
that the namespace does not have. -/
def GoesRound (r : Registry) (d : Declared) (layouts : Layouts) : Prop :=
  ∃ C ns M x, d.get? C = some ns ∧ ns.kind.holdsInstances = true ∧ M ∈ ns.mixins ∧
    d.Reaches M C ∧ (seenTable r layouts M false).contains x = true ∧
    (seenTable r layouts C false).contains x = false

/-! ## Tables as a unit sees them -/

section Seen

variable {base : Registry} {d : Declared} {layouts : Layouts} {n : String} {singleton : Bool}

theorem Fits.seenTable_eq (fits : Fits base d layouts) {table : NameTable}
    (seen : SeenIn d base singleton (layouts.tablesOf singleton) n table) :
    seenTable base layouts n singleton = table := by
  unfold SeenIn at seen
  unfold seenTable
  split at seen
  · rename_i undeclared
    cases laidOut : layouts.table? n singleton with
    | none => exact seen.symm
    | some other =>
      obtain ⟨ns, found⟩ := fits.declared_of_table laidOut
      rw [undeclared] at found
      cases found
  · rw [Layouts.table?_eq, seen]
    rfl

theorem Fits.declared_of_seenTable (fits : Fits base d layouts) {x : String}
    (old : (base.tableOf n singleton).contains x = false)
    (new : (seenTable base layouts n singleton).contains x = true) : (d.get? n).isSome := by
  unfold seenTable at new
  cases laidOut : layouts.table? n singleton with
  | none =>
    rw [laidOut, Option.getD_none, old] at new
    cases new
  | some table =>
    obtain ⟨ns, found⟩ := fits.declared_of_table laidOut
    rw [found]
    rfl

/-- **A unit sees the names of a mixin in the tables of the namespaces that include it**, unless it
comes back to them. -/
theorem Fits.contains_included (fits : Fits base d layouts) {ns : DeclaredNamespace}
    (found : d.get? n = some ns) (holds : ns.kind.holdsInstances = true) {M x : String}
    (included : .include M ∈ ns.contributions) (straight : ¬d.Reaches M n)
    (listed : (seenTable base layouts M false).contains x = true) :
    (seenTable base layouts n false).contains x = true := by
  have hasTable : ns.hasTable false = true := holds
  obtain ⟨table, laidOut, -⟩ := fits.laidOut found hasTable
  have present := laidOut
  rw [Layouts.table?_eq] at present
  obtain ⟨_, _, foundToo, -, makes⟩ := (fits.complete false).made present
  cases found.symm.trans foundToo
  obtain ⟨other, seen, more⟩ := makes.contains_included included straight
  rw [fits.seenTable_eq seen] at listed
  rw [seenTable, laidOut]
  exact more x listed

end Seen

/-! ## One unit -/

namespace Publishable

variable {r : Registry} {d : Declared} {layouts : Layouts}

theorem ivars_eq (pub : Publishable r r d layouts) {n : String} {info : NamespaceInfo}
    (found : (publishInto r r d layouts).get? n = some info) :
    info.ivars = seenTable r layouts n false := by
  rw [← pub.tableOf_self, Registry.tableOf_of_some found]
  rfl

/-- **A unit that does neither keeps the names of mixins in place.** -/
theorem mixesIn_publishInto (pub : Publishable r r d layouts)
    (mixed : ∀ n ns, d.get? n = some ns → ns.Mixed) (mixesIn : r.MixesIn)
    (contained : ¬Outgrows r d layouts) (straight : ¬GoesRound r d layouts) :
    (publishInto r r d layouts).MixesIn := by
  intro C info found holds M member x listed
  have stands := pub.fits.stands
  rw [pub.tableOf_self] at listed
  rw [pub.ivars_eq found]
  by_contra unlisted
  rw [Bool.not_eq_true] at unlisted
  rw [← Registry.mixinsOf_of_some found, mixinsOf_publishInto stands, mem_addMixins] at member
  rcases member with old | new
  · -- The mixin was included before, so what it had was copied before.
    cases before : r.get? C with
    | none => simp [Registry.mixinsOf, before] at old
    | some oldInfo =>
      rw [Registry.mixinsOf_of_some before] at old
      obtain ⟨after, foundAfter, grown⟩ := pub.grown_publishInto C oldInfo before
      cases found.symm.trans foundAfter
      have holdsBefore : oldInfo.kind.holdsInstances = true := grown.kind ▸ holds
      cases known : (r.tableOf M false).contains x with
      | false =>
        have reopened := pub.fits.declared_of_seenTable known listed
        exact contained ⟨C, oldInfo, M, x, before, holdsBefore, old, reopened, known, listed,
          unlisted⟩
      | true =>
        have copied := grown.tables false x (mixesIn C oldInfo before holdsBefore M old x known)
        rw [← pub.ivars_eq found] at unlisted
        exact Bool.false_ne_true (unlisted.symm.trans copied)
  · cases isDeclared : d.get? C with
    | none => simp [Declared.mixinsOf, isDeclared] at new
    | some ns =>
      have member : M ∈ ns.mixins := by
        rw [Declared.mixinsOf, isDeclared] at new
        exact new
      obtain ⟨after, foundAfter, kind⟩ := pub.get?_declared isDeclared
      cases found.symm.trans foundAfter
      rw [kind] at holds
      by_cases round : d.Reaches M C
      · exact straight ⟨C, ns, M, x, isDeclared, holds, member, round, listed, unlisted⟩
      · have copied := pub.fits.contains_included isDeclared holds
          ((mixed C ns isDeclared M).1 member) round listed
        exact Bool.false_ne_true (unlisted.symm.trans copied)

theorem not_mixesIn_publishInto (pub : Publishable r r d layouts)
    (displaces : Outgrows r d layouts ∨ GoesRound r d layouts) :
    ¬(publishInto r r d layouts).MixesIn := by
  intro mixesIn
  have stands := pub.fits.stands
  rcases displaces with ⟨C, old, M, x, before, holds, member, -, -, listed, unlisted⟩ |
    ⟨C, ns, M, x, isDeclared, holds, member, -, listed, unlisted⟩
  · obtain ⟨info, found, grown⟩ := pub.grown_publishInto C old before
    rw [← pub.tableOf_self] at listed
    have copied := mixesIn C info found (grown.kind.symm ▸ holds) M
      (grown.mixins.subset member) x listed
    rw [← pub.ivars_eq found] at unlisted
    exact Bool.false_ne_true (unlisted.symm.trans copied)
  · obtain ⟨info, found, kind⟩ := pub.get?_declared isDeclared
    have included : M ∈ info.mixins := by
      rw [← Registry.mixinsOf_of_some found, mixinsOf_publishInto stands, mem_addMixins,
        Declared.mixinsOf, isDeclared]
      exact .inr member
    rw [← pub.tableOf_self] at listed
    have copied := mixesIn C info found (kind ▸ holds) M included x listed
    rw [← pub.ivars_eq found] at unlisted
    exact Bool.false_ne_true (unlisted.symm.trans copied)

end Publishable

/-! ## Units one after the other -/

namespace Registry

variable {r : Registry}

/-- A unit is compiled without failures, and displaces a name of a mixin. -/
def Displaces (r : Registry) (unit : Options × Program) : Prop :=
  (compile unit.1 r unit.2).1.function.isSome ∧
    (Outgrows r (unit.2.linked r).declared (unit.2.laidOut r).layouts ∨
      GoesRound r (unit.2.linked r).declared (unit.2.laidOut r).layouts)

theorem Steady.mixesIn_compile (steady : r.Steady) (mixesIn : r.MixesIn) {unit : Options × Program}
    (kept : ¬r.Displaces unit) : (StackCode.compile unit.1 r unit.2).2.MixesIn := by
  rcases steady.compile_cases unit.1 unit.2 with ⟨-, same⟩ | ⟨-, pub, function, live⟩
  · rw [same]
    exact mixesIn
  · have compiled : (StackCode.compile unit.1 r unit.2).1.function.isSome := by
      rw [function]
      rfl
    rw [live]
    refine pub.mixesIn_publishInto
      (fun n ns found => link_mixin_iff (clean_collect r unit.2.statements) found) mixesIn
      (fun outgrows => kept ⟨compiled, .inl outgrows⟩) fun round => kept ⟨compiled, .inr round⟩

theorem Steady.not_mixesIn_compile (steady : r.Steady) {unit : Options × Program}
    (displaces : r.Displaces unit) : ¬(StackCode.compile unit.1 r unit.2).2.MixesIn := by
  rcases steady.compile_cases unit.1 unit.2 with ⟨none, -⟩ | ⟨-, pub, -, live⟩
  · have compiled := displaces.1
    rw [none] at compiled
    cases compiled
  · rw [live]
    exact pub.not_mixesIn_publishInto displaces.2

theorem Steady.mixesIn_after (steady : r.Steady) (mixesIn : r.MixesIn)
    (units : List (Options × Program))
    (kept : ∀ before unit, before ++ [unit] <+: units → ¬(r.after before).Displaces unit) :
    (r.after units).MixesIn := by
  induction units generalizing r with
  | nil => exact mixesIn
  | cons unit rest ih =>
    rw [after_cons]
    refine ih (steady.compile unit.1 unit.2).1
      (steady.mixesIn_compile mixesIn (kept [] unit ⟨rest, rfl⟩)) fun before next earlier => ?_
    rw [← after_cons]
    exact kept (unit :: before) next (List.cons_prefix_cons.2 ⟨rfl, earlier⟩)

theorem mixesIn_prelude : prelude.MixesIn := by
  have without : ∀ n ∈ prelude.namespaces.keys, prelude.mixinsOf n = [] := by decide +kernel
  intro C info found _ M member
  rw [← mixinsOf_of_some found, without C] at member
  · cases member
  · rw [Std.ExtTreeMap.mem_keys, Std.ExtTreeMap.mem_iff_isSome_getElem?]
    exact Option.isSome_of_eq_some found

/-- **The names of mixins are found exactly as long as no unit displaces one**: at all times all
classes and mixins have the instance variables of the mixins that they include, iff no unit gives a
mixin that is included already a name that it does not give to all that include it, and no unit
leaves out a name where mixins include each other. -/
theorem mixesIn_after_iff (units : List (Options × Program)) :
    (∀ early, early <+: units → (prelude.after early).MixesIn) ↔
      ∀ before unit, before ++ [unit] <+: units → ¬(prelude.after before).Displaces unit := by
  constructor
  · intro mixesIn before unit earlier displaces
    have after := mixesIn (before ++ [unit]) earlier
    rw [after_append] at after
    exact (steady_prelude.after before).1.not_mixesIn_compile displaces after
  · intro kept early inside
    exact steady_prelude.mixesIn_after mixesIn_prelude early fun before unit earlier =>
      kept before unit (earlier.trans inside)

/-- Names of mixins do get displaced: a class includes a mixin, and a later unit gives the mixin one
more instance variable. -/
theorem not_always_mixesIn : ¬∀ units, (prelude.after units).MixesIn := by
  intro mixesIn
  let including : Program := .ofStatements [
    .namespace .zero .mixin ⟨["M"], false⟩ none [.ivar .zero "a" none],
    .namespace .zero .class ⟨["C"], false⟩ none [.include .zero [⟨["M"], false⟩]]]
  let reopening : Program := .ofStatements [
    .namespace .zero .mixin ⟨["M"], false⟩ none [.ivar .zero "b" none]]
  let units := [(Options.forFile "including", including), (.forFile "reopening", reopening)]
  have shape : ((prelude.after units).get? "Root::C").map (fun info =>
      (info.kind, info.mixins, info.ivars.contains "b")) = some (.class, ["Root::M"], false) := by
    decide +kernel
  obtain ⟨info, found, isShape⟩ := Option.map_eq_some_iff.1 shape
  obtain ⟨isClass, mixins, unlisted⟩ : info.kind = .class ∧ info.mixins = ["Root::M"] ∧
      info.ivars.contains "b" = false := by simpa using isShape
  have listed := mixesIn units "Root::C" info found (by rw [isClass]; rfl) "Root::M"
    (by rw [mixins]; exact List.mem_singleton_self _) "b" (by decide +kernel)
  exact Bool.false_ne_true (unlisted.symm.trans listed)

end Registry

end StackCode
