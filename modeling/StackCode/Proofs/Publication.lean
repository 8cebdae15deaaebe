import StackCode.Proofs.Layouts
import StackCode.Proofs.UnitCode

/-!
# Publication

`Fits base declared layouts` collects what is known of a unit that was compiled without failures
against `base`. The registry that it is published to may be another one. `publishInto_declared` and
`publishInto_undeclared` say what becomes of a namespace there, and `Publishable.unclashing` what it
means that there was no conflict.
-/

namespace StackCode

open List Option Declared NameTable Registry

variable {n : String} {info : NamespaceInfo} {r : Registry}

/-! ## What holds of a unit without failures -/

/-- What a unit declares and lays out fits the registry that it was compiled against. -/
structure Fits (base : Registry) (d : Declared) (layouts : Layouts) : Prop where
  stands : d.Over base
  keeps : d.KeepsSuperclasses base
  linked : ∀ {n ns}, d.get? n = some ns → ns.kind = .class → ∃ S, ns.superclass = some S
  complete : ∀ singleton, Complete d base singleton (layouts.tablesOf singleton)
  laidOut : ∀ {n ns singleton}, d.get? n = some ns → ns.hasTable singleton = true →
    ∃ table, layouts.table? n singleton = some table ∧
      (ns.registered = true → (base.tableOf n singleton).size < table.size → base.subclasses n = [])

section Unit

variable {options : Options} {base : Registry} {p : Program} {info : NamespaceInfo}

section

variable (object : base.get? objectName = some info) (objectKind : info.kind = .class)

include object objectKind

theorem linked_settled :
    (p.linked base).declared.Over base ∧
      (∀ singleton, Complete (p.linked base).declared base singleton
        ((p.laidOut base).layouts.tablesOf singleton)) ∧
      (Failed (p.linked base).issues → Failed (p.laidOut base).issues) ∧
      ∀ {n ns singleton}, (p.linked base).declared.get? n = some ns →
        ns.hasTable singleton = true → Settled base (p.laidOut base) ns singleton := by
  have collected := clean_collect base p.statements
  have stands : (p.linked base).declared.Over base := link_over collected object objectKind
  obtain ⟨rank, le_size, descends⟩ : ∃ rank : String → Nat,
      (∀ n, rank n ≤ (p.linked base).declared.namespaces.size) ∧
      ∀ n S, (p.linked base).declared.parent? n = some S → rank S < rank n :=
        link_ranked collected object
  exact ⟨stands, layOut_settled stands ⟨le_size, descends⟩ (p.linked base).issues⟩

theorem linked_unfailed (clean : ¬Failed (compileUnit options base p).issues) :
    ¬Failed (p.linked base).issues := by
  obtain ⟨-, -, failedBefore, -⟩ := linked_settled object objectKind
  exact fun failed => clean (compileUnit_failed (failedBefore failed))

theorem compileUnit_fits (clean : ¬Failed (compileUnit options base p).issues) :
    Fits base (p.linked base).declared (p.laidOut base).layouts := by
  obtain ⟨stands, complete, -, settled⟩ := linked_settled object objectKind
  refine ⟨stands, link_keepsSuperclasses (clean_collect base p.statements)
    (linked_unfailed object objectKind clean), link_superclass, complete,
    fun {n ns singleton} found has => ?_⟩
  obtain ⟨table, laidOut, frozen⟩ := settled found has
  rw [stands.fullName_eq found] at laidOut frozen
  exact ⟨table, laidOut, fun old grew => (frozen old grew).resolve_left fun failed =>
    clean (compileUnit_failed failed)⟩

end

end Unit

/-- A table as the unit sees it. -/
def seenTable (base : Registry) (layouts : Layouts) (n : String) (singleton : Bool) : NameTable :=
  (layouts.table? n singleton).getD (base.tableOf n singleton)

theorem Registry.tableOf_of_none (missing : r.get? n = none) (singleton : Bool) :
    r.tableOf n singleton = .empty := by
  rw [tableOf, missing]
  rfl

theorem Registry.tableOf_of_some (found : r.get? n = some info) (singleton : Bool) :
    r.tableOf n singleton = info.table singleton := by
  rw [tableOf, found]
  rfl

theorem Registry.mem_subclasses {S : String} (found : r.get? n = some info)
    (linked : info.superclass = some S) :
    n ∈ r.subclasses S := by
  unfold subclasses
  refine mem_filterMap.2 ⟨(n, info), ?_, if_pos linked⟩
  exact Std.ExtTreeMap.mem_toList_iff_getElem?_eq_some.2 found

namespace Fits

variable {base : Registry} {d : Declared} {layouts : Layouts} {n S : String}
    {ns : DeclaredNamespace}
  {table : NameTable} {singleton : Bool}

section

variable (fits : Fits base d layouts)

include fits

theorem declared_of_table (laidOut : layouts.table? n singleton = some table) :
    ∃ ns, d.get? n = some ns := by
  rw [Layouts.table?_eq] at laidOut
  obtain ⟨ns, -, found, -⟩ := (fits.complete singleton).made laidOut
  exact ⟨ns, found⟩

theorem missing_of_new (found : d.get? n = some ns)
    (new : ns.registered = false) : base.get? n = none := by
  cases registered : base.get? n with
  | none => rfl
  | some info =>
    rw [(fits.stands.registered_iff found).2 ⟨info, registered⟩] at new
    cases new

theorem new_of_missing (found : d.get? n = some ns)
    (missing : base.get? n = none) : ns.registered = false := by
  cases registered : ns.registered with
  | false => rfl
  | true =>
    obtain ⟨info, present⟩ := (fits.stands.registered_iff found).1 registered
    rw [missing] at present
    cases present

/-- **Every table of a unit extends the registered one.** -/
theorem le_table (laidOut : layouts.table? n singleton = some table) :
    base.tableOf n singleton ≤ table := by
  rw [Layouts.table?_eq] at laidOut
  obtain ⟨ns, start, found, starts, makes⟩ := (fits.complete singleton).made laidOut
  cases starts with
  | registered => exact makes.le
  | superclass new =>
    rw [tableOf_of_none (fits.missing_of_new found new)]
    exact empty_le table
  | nothing new =>
    rw [tableOf_of_none (fits.missing_of_new found new)]
    exact empty_le table

theorem kind_of_new (found : d.get? n = some ns)
    (missing : base.get? n = none) (linked : ns.superclass = some S) : ns.kind = .class := by
  rcases fits.stands.superclass_of found linked with ⟨isClass, -⟩ | ⟨info, registered, -⟩
  · exact isClass
  · rw [missing] at registered
    cases registered

/-- **The table of a new class extends that of its superclass**, as the unit sees it. -/
theorem superclass_le (found : d.get? n = some ns)
    (missing : base.get? n = none) (linked : ns.superclass = some S) (singleton : Bool) :
    ∃ table, layouts.table? n singleton = some table ∧
      seenTable base layouts S singleton ≤ table := by
  have isClass := fits.kind_of_new found missing linked
  have has : ns.hasTable singleton = true := by
    unfold DeclaredNamespace.hasTable
    rw [isClass]
    cases singleton <;> rfl
  obtain ⟨table, laidOut, -⟩ := fits.laidOut found has
  refine ⟨table, laidOut, ?_⟩
  rw [Layouts.table?_eq] at laidOut
  obtain ⟨ns', start, found', starts, makes⟩ := (fits.complete singleton).made laidOut
  cases found.symm.trans found'
  have new := fits.new_of_missing found missing
  cases starts with
  | registered old => rw [new] at old; cases old
  | nothing _ unlinked => rw [unlinked isClass] at linked; cases linked
  | @superclass S' _ _ _ linked' seen =>
    cases linked.symm.trans linked'
    refine le_trans (le_of_eq ?_) makes.le
    unfold SeenIn at seen
    unfold seenTable
    split at seen
    · rename_i undeclared
      cases other : layouts.table? S singleton with
      | none => exact seen.symm
      | some table =>
        obtain ⟨ns, there⟩ := fits.declared_of_table other
        rw [undeclared] at there
        cases there
    · rw [Layouts.table?_eq, seen]
      rfl

/-- **The table of a class with subclasses does not grow.** -/
theorem eq_of_subclass {info subclass : NamespaceInfo} {D : String}
    (registered : base.get? S = some info)
    (isClass : info.kind = .class) (sub : base.get? D = some subclass)
    (linked : subclass.superclass = some S) (laidOut : layouts.table? S singleton = some table) :
    table = base.tableOf S singleton := by
  obtain ⟨ns, found⟩ := fits.declared_of_table laidOut
  have has : ns.hasTable singleton = true := by
    unfold DeclaredNamespace.hasTable
    rw [fits.stands.kind_eq found registered, isClass]
    cases singleton <;> rfl
  obtain ⟨table', laidOut', frozen⟩ := fits.laidOut found has
  cases laidOut.symm.trans laidOut'
  refine (eq_of_le_of_size (fits.le_table laidOut) (Nat.le_of_not_lt fun grew => ?_)).symm
  have none := frozen ((fits.stands.registered_iff found).2 ⟨info, registered⟩) grew
  have some := mem_subclasses sub linked
  rw [none] at some
  cases some

end

end Fits

/-! ## What publication writes -/

theorem publishedTable_idem (ours : Option NameTable) (before now : NameTable) :
    publishedTable ours before (publishedTable ours before now) =
      publishedTable ours before now := by
  unfold publishedTable
  cases ours with
  | none => rfl
  | some ours =>
    dsimp only
    split <;> rfl

/-- What is said of a namespace except for its mixins and its members. -/
@[ext] structure Outline where
  kind : NamespaceKind
  superclass : Option String
  table : Bool → NameTable

/-- The outline of a registered namespace. -/
def NamespaceInfo.outline (info : NamespaceInfo) : Outline :=
  ⟨info.kind, info.superclass, info.table⟩

/-- The outline of a name. -/
def Registry.outline? (r : Registry) (n : String) : Option Outline :=
  (r.get? n).map NamespaceInfo.outline

section Publish

variable {base current : Registry} {d : Declared} {layouts : Layouts} {n : String}
variable {rest : List DeclaredNamespace} (r : Registry) {ns : DeclaredNamespace}

/-- What a new namespace is published as. -/
def publishedOutline (base current : Registry) (layouts : Layouts) (ns : DeclaredNamespace) :
    Outline where
  kind := ns.kind
  superclass := ns.superclass
  table singleton :=
    publishedTable (layouts.table? ns.fullName singleton) (base.tableOf ns.fullName singleton)
      (current.tableOf ns.fullName singleton)

theorem outline?_addMembers (fullName : String) (names : NameTable) (n : String) :
    (r.addMembers fullName names).outline? n = r.outline? n := by
  unfold Registry.outline?
  rw [get?_addMembers]
  split
  · rw [Option.map_map]
    rfl
  · rfl

theorem outline?_publishNamespace (ns : DeclaredNamespace) (n : String) :
    (publishNamespace base layouts r ns).outline? n =
      if ns.fullName = n then some (publishedOutline base r layouts ns) else r.outline? n := by
  unfold Registry.outline? publishNamespace
  rw [Registry.get?_insert]
  split
  · rename_i same
    refine congrArg some (Outline.ext rfl rfl (funext fun singleton => ?_))
    have now : r.tableOf ns.fullName singleton =
        ((r.get? ns.fullName).getD (.bare ns.kind none)).table singleton := by
      rw [Registry.tableOf]
      cases r.get? ns.fullName <;> cases singleton <;> rfl
    show NamespaceInfo.table _ singleton = publishedTable _ _ (r.tableOf ns.fullName singleton)
    rw [now]
    cases singleton <;> rfl
  · rfl

theorem outline?_foldl_addMembers (members : List (String × NameTable))
    (r : Registry) (n : String) :
    (members.foldl (fun r (fullName, names) => r.addMembers fullName names) r).outline? n =
      r.outline? n := by
  induction members generalizing r with
  | nil => rfl
  | cons first rest ih => rw [foldl_cons, ih, outline?_addMembers]

theorem outline?_foldl_publishNamespace_of_notMem (others : ∀ ns ∈ rest, ns.fullName ≠ n) :
    (rest.foldl (publishNamespace base layouts) r).outline? n = r.outline? n := by
  induction rest generalizing r with
  | nil => rfl
  | cons first rest ih =>
    rw [foldl_cons, ih _ fun ns member => others ns (mem_cons_of_mem _ member),
      outline?_publishNamespace, if_neg (others first mem_cons_self)]

theorem Registry.tableOf_eq_outline (n : String) (singleton : Bool) :
    r.tableOf n singleton = ((r.outline? n).map (·.table singleton)).getD .empty := by
  rw [tableOf, outline?, Option.map_map]
  rfl

theorem Registry.tableOf_congr {r r' : Registry} (same : r.outline? n = r'.outline? n)
    (singleton : Bool) :
    r.tableOf n singleton = r'.tableOf n singleton := by
  rw [tableOf_eq_outline, same, ← tableOf_eq_outline]

theorem publishedOutline_congr {r r' : Registry}
    (same : r.outline? ns.fullName = r'.outline? ns.fullName) :
    publishedOutline base r layouts ns = publishedOutline base r' layouts ns := by
  simp only [publishedOutline, tableOf_congr same]

theorem publishedOutline_idem {r : Registry}
    (published : r.outline? ns.fullName = some (publishedOutline base current layouts ns)) :
    publishedOutline base r layouts ns = publishedOutline base current layouts ns := by
  refine Outline.ext rfl rfl (funext fun singleton => ?_)
  have now : r.tableOf ns.fullName singleton =
      (publishedOutline base current layouts ns).table singleton := by
    rw [tableOf_eq_outline, published]
    rfl
  show publishedTable _ _ (r.tableOf ns.fullName singleton) = _
  rw [now]
  exact publishedTable_idem _ _ _

theorem outline?_foldl_publishNamespace_of_mem (member : ns ∈ rest)
    (only : ∀ other ∈ rest, other.fullName = ns.fullName → other = ns) (r : Registry) :
    (rest.foldl (publishNamespace base layouts) r).outline? ns.fullName =
      some (publishedOutline base r layouts ns) := by
  induction rest generalizing r with
  | nil => cases member
  | cons first rest ih =>
    have onlyLater : ∀ other ∈ rest, other.fullName = ns.fullName → other = ns := fun other later =>
      only other (mem_cons_of_mem _ later)
    have step : (publishNamespace base layouts r first).outline? ns.fullName = _ :=
      outline?_publishNamespace r first ns.fullName
    rw [foldl_cons]
    by_cases named : first.fullName = ns.fullName
    · cases only first mem_cons_self named
      rw [if_pos rfl] at step
      -- A namespace that is published twice is as it was after the first time.
      by_cases again : ns ∈ rest
      · rw [ih again onlyLater, publishedOutline_idem step]
      · rw [outline?_foldl_publishNamespace_of_notMem _ fun other later same =>
          again (onlyLater other later same ▸ later), step]
    · rw [if_neg named] at step
      rcases mem_cons.1 member with rfl | later
      · exact absurd rfl named
      · rw [ih later onlyLater, publishedOutline_congr step]

theorem publishInto_declared (stands : d.Over base) (found : d.get? n = some ns) :
    (publishInto base current d layouts).outline? n =
      some (publishedOutline base current layouts ns) := by
  obtain rfl := stands.fullName_eq found
  unfold publishInto
  rw [outline?_foldl_addMembers]
  refine outline?_foldl_publishNamespace_of_mem ((mem_toValues stands).2 found) ?_ current
  intro other member named
  have foundOther := (mem_toValues stands).1 member
  rw [named, found] at foundOther
  exact (Option.some.inj foundOther).symm

theorem publishInto_undeclared (stands : d.Over base) (undeclared : d.get? n = none) :
    (publishInto base current d layouts).outline? n = current.outline? n := by
  unfold publishInto
  rw [outline?_foldl_addMembers]
  refine outline?_foldl_publishNamespace_of_notMem current fun ns member named => ?_
  have found := (mem_toValues stands).1 member
  rw [named, undeclared] at found
  cases found

end Publish

/-! ## Registries that units are published to -/

namespace Registry

theorem outline?_eq_some {r : Registry} {n : String} {o : Outline} :
    r.outline? n = some o ↔ ∃ info, r.get? n = some info ∧ info.outline = o :=
  map_eq_some_iff

theorem outline?_eq_none {r : Registry} {n : String} : r.outline? n = none ↔ r.get? n = none :=
  map_eq_none_iff

/-- What holds of the superclasses in every registry that units are published to. -/
structure Sound (r : Registry) : Prop where
  object : ∃ o, r.outline? objectName = some o ∧ o.kind = .class
  /-- Only classes have a superclass, and it is a registered class. -/
  superclass : ∀ {n o S}, r.outline? n = some o → o.superclass = some S →
    o.kind = .class ∧ ∃ above, r.outline? S = some above ∧ above.kind = .class
  /-- A class that was not there from the start has a superclass. -/
  linked : ∀ {n o}, r.outline? n = some o → prelude.get? n = none → o.kind = .class →
    ∃ S, o.superclass = some S

theorem sound_prelude : prelude.Sound := by
  -- The prelude is finite, so the superclasses in it are checked one by one.
  have listed : ∀ {n o}, prelude.outline? n = some o →
      ∃ info, (n, info) ∈ prelude.namespaces.toList ∧ info.outline = o := by
    intro n o found
    obtain ⟨info, registered, outline⟩ := outline?_eq_some.1 found
    exact ⟨info, Std.ExtTreeMap.mem_toList_iff_getElem?_eq_some.2 registered, outline⟩
  have superclasses : ∀ entry ∈ prelude.namespaces.toList, ∀ S ∈ entry.2.superclass,
      entry.2.kind = .class ∧ (prelude.outline? S).map Outline.kind = some .class := by
    decide +kernel
  refine ⟨?_, fun {n o S} found linked => ?_, fun {n o} found new => ?_⟩
  · have object : (prelude.outline? objectName).map Outline.kind = some .class := by decide +kernel
    exact map_eq_some_iff.1 object
  · obtain ⟨info, member, rfl⟩ := listed found
    obtain ⟨isClass, above⟩ := superclasses (n, info) member S linked
    exact ⟨isClass, map_eq_some_iff.1 above⟩
  · rw [outline?_eq_none.2 new] at found
    cases found

/-- Every namespace is still registered, as a namespace of its kind and with its superclass. -/
def Keeps (r r' : Registry) : Prop :=
  ∀ n o, r.outline? n = some o → ∃ o', r'.outline? n = some o' ∧ o'.kind = o.kind ∧
    ∀ S, o.superclass = some S → o'.superclass = some S

theorem Keeps.refl (r : Registry) : r.Keeps r :=
  fun _ o found => ⟨o, found, rfl, fun _ => id⟩

theorem Keeps.trans {r r' r'' : Registry} (first : r.Keeps r') (second : r'.Keeps r'') :
    r.Keeps r'' := by
  intro n o found
  obtain ⟨o', found', kind', superclass'⟩ := first n o found
  obtain ⟨o'', found'', kind'', superclass''⟩ := second n o' found'
  exact ⟨o'', found'', kind''.trans kind', fun S linked => superclass'' S (superclass' S linked)⟩

end Registry

/-- A unit that was compiled without failures, and that may be published to a registry. -/
structure Publishable (base live : Registry) (d : Declared) (layouts : Layouts) : Prop where
  fits : Fits base d layouts
  baseSound : base.Sound
  liveSound : live.Sound
  keeps : base.Keeps live
  agreed : publishConflicts base live d layouts = []

namespace Publishable

variable {base live : Registry} {d : Declared} {layouts : Layouts} {n : String}
    {ns : DeclaredNamespace}

theorem of_compileUnit {options : Options} {p : Program}
    (clean : ¬Failed (compileUnit options base p).issues)
    (agreed : publishConflicts base live (p.linked base).declared
      (p.laidOut base).layouts = [])
    (baseSound : base.Sound) (liveSound : live.Sound) (keeps : base.Keeps live) :
    Publishable base live (p.linked base).declared (p.laidOut base).layouts := by
  obtain ⟨o, object, objectKind⟩ := baseSound.object
  obtain ⟨info, registered, rfl⟩ := outline?_eq_some.1 object
  exact ⟨compileUnit_fits registered objectKind clean, baseSound, liveSound, keeps, agreed⟩

section

variable (pub : Publishable base live d layouts)

include pub

/-- What it means that there is no conflict over a namespace. -/
theorem unclashing (found : d.get? n = some ns) {now : NamespaceInfo}
    (registered : live.get? n = some now) :
    (∃ before, base.get? n = some before ∧ before.same now = true) ∨
      now.kind = ns.kind ∧ (∀ S S', ns.superclass = some S → now.superclass = some S' → S = S') ∧
        ∀ singleton, tableClashes (layouts.table? n singleton) (base.tableOf n singleton)
          (now.table singleton) =
          false := by
  obtain rfl := pub.fits.stands.fullName_eq found
  have agreed : namespaceConflict? base live layouts ns = none :=
    filterMap_eq_nil_iff.1 pub.agreed ns
      ((mem_toValues pub.fits.stands).2 found)
  unfold namespaceConflict? at agreed
  rw [registered] at agreed
  dsimp only at agreed
  split at agreed
  · rename_i same
    exact .inl ((Option.any_eq_true _ _).1 same)
  · split at agreed
    · cases agreed
    · rename_i sameKind
      refine .inr ⟨Decidable.not_not.1 sameKind, ?_⟩
      -- Both tables are compared wherever the superclasses do not differ.
      have clashless : ∀ {issue : Issue}, (if tableClashes (layouts.table? ns.fullName false)
          (base.tableOf ns.fullName false) (now.table false) || tableClashes
            (layouts.table? ns.fullName true)
          (base.tableOf ns.fullName true) (now.table true) then some issue else none) = none →
          ∀ singleton, tableClashes (layouts.table? ns.fullName singleton)
            (base.tableOf ns.fullName singleton)
            (now.table singleton) = false := by
        intro issue compared singleton
        simp only [ite_eq_right_iff, reduceCtorEq, imp_false, Bool.not_eq_true,
          Bool.or_eq_false_iff] at compared
        cases singleton
        · exact compared.1
        · exact compared.2
      split at agreed
      · rename_i ours theirs oursLinked theirsLinked
        split at agreed
        · rename_i sameSuperclass
          refine ⟨fun S S' linked linked' => ?_, clashless agreed⟩
          cases oursLinked.symm.trans linked
          cases theirsLinked.symm.trans linked'
          exact sameSuperclass
        · cases agreed
      · rename_i unlinked
        exact ⟨fun S S' linked linked' => (unlinked S S' linked linked').elim, clashless agreed⟩

theorem kind_eq (found : d.get? n = some ns) {now : Outline}
    (registered : live.outline? n = some now) :
    ns.kind = now.kind := by
  obtain ⟨info, liveFound, rfl⟩ := outline?_eq_some.1 registered
  cases before : base.get? n with
  | some info' =>
    obtain ⟨kept, keptFound, sameKind, -⟩ :=
      pub.keeps n _ (outline?_eq_some.2 ⟨info', before, rfl⟩)
    cases registered.symm.trans keptFound
    exact (pub.fits.stands.kind_eq found before).trans sameKind.symm
  | none =>
    rcases pub.unclashing found liveFound with ⟨_, present, -⟩ | ⟨sameKind, -⟩
    · rw [before] at present
      cases present
    · exact sameKind.symm

theorem superclass_eq (found : d.get? n = some ns) {now : Outline}
    (registered : live.outline? n = some now)
    {S : String} (linked : now.superclass = some S) :
    ns.superclass = some S := by
  have isClass := (pub.liveSound.superclass registered linked).1
  obtain ⟨S', linked'⟩ :=
    pub.fits.linked found ((pub.kind_eq found registered).trans isClass)
  obtain ⟨info, liveFound, rfl⟩ := outline?_eq_some.1 registered
  rcases pub.unclashing found liveFound with ⟨before, present, same⟩
    | ⟨-, sameSuperclass, -⟩
  · have linkedBefore : before.superclass = info.superclass := by
      simp only [NamespaceInfo.same, Bool.and_eq_true, beq_iff_eq] at same
      exact same.1.1.1.1.2
    exact pub.fits.keeps n ns before S found present (linkedBefore.trans linked)
  · rw [linked', sameSuperclass S' S linked' linked]

/-- **Publication keeps what is registered.** -/
theorem keeps_publishInto :
    live.Keeps (publishInto base live d layouts) := by
  intro n o registered
  cases found : d.get? n with
  | none =>
    exact ⟨o, (publishInto_undeclared pub.fits.stands found).trans registered,
      rfl, fun _ => id⟩
  | some ns =>
    exact ⟨_, publishInto_declared pub.fits.stands found,
      pub.kind_eq found registered, fun S linked =>
        pub.superclass_eq found registered linked⟩

theorem sees_publishInto {S : String}
    (seen : d.Sees base S .class) :
    ∃ o, (publishInto base live d layouts).outline? S = some o ∧ o.kind = .class := by
  rcases seen with ⟨ns, found, isClass⟩ | ⟨-, info, found, isClass⟩
  · exact ⟨_, publishInto_declared pub.fits.stands found, isClass⟩
  · obtain ⟨o, kept, kind, -⟩ := (pub.keeps.trans pub.keeps_publishInto) S _
      (outline?_eq_some.2 ⟨info, found, rfl⟩)
    exact ⟨o, kept, kind.trans isClass⟩

/-- **Publication leaves a sound registry.** -/
theorem sound_publishInto :
    (publishInto base live d layouts).Sound where
  object := by
    obtain ⟨o, found, isClass⟩ := pub.liveSound.object
    obtain ⟨o', kept, kind, -⟩ := pub.keeps_publishInto _ o found
    exact ⟨o', kept, kind.trans isClass⟩
  superclass {n o S} registered linked := by
    have kept := pub.keeps.trans pub.keeps_publishInto
    cases found : d.get? n with
    | none =>
      rw [publishInto_undeclared pub.fits.stands found] at registered
      obtain ⟨isClass, above, aboveFound, aboveClass⟩ :=
        pub.liveSound.superclass registered linked
      obtain ⟨above', keptAbove, kind, -⟩ := pub.keeps_publishInto S above aboveFound
      exact ⟨isClass, above', keptAbove, kind.trans aboveClass⟩
    | some ns =>
      rw [publishInto_declared pub.fits.stands found] at registered
      cases registered
      -- The superclass is one that the unit sees, or one that was registered in the base.
      rcases pub.fits.stands.superclass_of found linked with ⟨isClass, seen⟩
        | ⟨info, before, linkedBefore⟩
      · exact ⟨isClass, pub.sees_publishInto seen⟩
      · obtain ⟨isClass, above, aboveFound, aboveClass⟩ := pub.baseSound.superclass
          (outline?_eq_some.2 ⟨info, before, rfl⟩) linkedBefore
        obtain ⟨above', keptAbove, kind, -⟩ := kept S above aboveFound
        exact ⟨(pub.fits.stands.kind_eq found before).trans isClass, above', keptAbove,
          kind.trans aboveClass⟩
  linked {n o} registered new isClass := by
    cases found : d.get? n with
    | none =>
      rw [publishInto_undeclared pub.fits.stands found] at registered
      exact pub.liveSound.linked registered new isClass
    | some ns =>
      rw [publishInto_declared pub.fits.stands found] at registered
      cases registered
      exact pub.fits.linked found isClass

end

end Publishable

end StackCode
