import StackCode.Proofs.Publication

/-!
# What publication does to tables

A unit registers the tables that it changed with a view to its base. So there are two ways in which
a table may go wrong.

* Its slots may move. Two units may list the same new names in different orders, and that counts as
  no conflict (`Reorders`). Otherwise a published table extends the one that was there.
* It may cease to extend the table of a superclass, where the base of a unit does not show all that
  is registered (`Breaks`). If it breaks none, all of them stay right (`extends_publishInto`).
-/

namespace StackCode

open NameTable Registry

namespace Publishable

variable {base live : Registry} {d : Declared} {layouts : Layouts} {n : String}
  {singleton : Bool} {table : NameTable} (pub : Publishable base live d layouts)

include pub

theorem tableOf_publishInto (n : String) (singleton : Bool) :
    (publishInto base live d layouts).tableOf n singleton =
      publishedTable (layouts.table? n singleton) (base.tableOf n singleton)
        (live.tableOf n singleton) := by
  rw [tableOf_eq_outline]
  cases found : d.get? n with
  | none =>
    have none : layouts.table? n singleton = none := by
      refine Option.eq_none_iff_forall_ne_some.2 fun table laidOut => ?_
      obtain ⟨ns, there⟩ := pub.fits.declared_of_table laidOut
      rw [found] at there
      cases there
    rw [publishInto_undeclared pub.fits.stands found, ← tableOf_eq_outline, none]
    rfl
  | some ns =>
    obtain rfl := pub.fits.stands.fullName_eq found
    rw [publishInto_declared pub.fits.stands found]
    rfl

theorem sameNames_base_iff (laidOut : layouts.table? n singleton = some table) :
    table.sameNames (base.tableOf n singleton) = true ↔ table = base.tableOf n singleton := by
  constructor
  · exact fun same =>
      (eq_of_le_of_sameNames (pub.fits.le_table laidOut) same).symm
  · rintro rfl
    exact sameNames_rfl _

/-- Where the unit changed a table, no other unit did, or it added the same names. -/
theorem sameNames_live (laidOut : layouts.table? n singleton = some table)
    (changed : table ≠ base.tableOf n singleton) :
    table.sameNames (live.tableOf n singleton) = true ∨
      (base.tableOf n singleton).sameNames (live.tableOf n singleton) = true := by
  obtain ⟨ns, found⟩ := pub.fits.declared_of_table laidOut
  cases registered : live.get? n with
  | none =>
    have missing : base.get? n = none := by
      refine Option.eq_none_iff_forall_ne_some.2 fun info before => ?_
      obtain ⟨o, kept, -⟩ := pub.keeps n _ (outline?_eq_some.2 ⟨info, before, rfl⟩)
      rw [outline?_eq_none.2 registered] at kept
      cases kept
    rw [tableOf_of_none registered, tableOf_of_none missing]
    exact .inr (sameNames_rfl _)
  | some now =>
    rw [tableOf_of_some registered]
    -- Either nothing about the namespace has changed since the base, or the tables were compared.
    rcases pub.unclashing found registered with ⟨before, present, same⟩ | ⟨-, -, clashless⟩
    · rw [tableOf_of_some present]
      simp only [NamespaceInfo.same, Bool.and_eq_true] at same
      cases singleton
      · exact .inr same.1.1.2
      · exact .inr same.1.2
    · have differs : table.sameNames (base.tableOf n singleton) = false := by
        rw [← Bool.not_eq_true, pub.sameNames_base_iff laidOut]
        exact changed
      have := clashless singleton
      simp only [laidOut, tableClashes, differs, Bool.not_false, Bool.true_and,
        Bool.and_eq_false_iff] at this
      simpa using this

/-- **A published table is the live one if the unit left it alone, and the unit's own if not.** -/
theorem tableOf_cases (n : String) (singleton : Bool) :
    seenTable base layouts n singleton = base.tableOf n singleton ∧
        (publishInto base live d layouts).tableOf n singleton = live.tableOf n singleton ∨
      ∃ table, layouts.table? n singleton = some table ∧ table ≠ base.tableOf n singleton ∧
        seenTable base layouts n singleton = table ∧
        (publishInto base live d layouts).tableOf n singleton = table := by
  rw [pub.tableOf_publishInto, seenTable]
  cases laidOut : layouts.table? n singleton with
  | none => exact .inl ⟨rfl, rfl⟩
  | some table =>
    have same := pub.sameNames_base_iff laidOut
    by_cases changed : table = base.tableOf n singleton
    · exact .inl ⟨changed, by rw [publishedTable, if_pos (same.2 changed)]⟩
    · exact .inr ⟨table, rfl, changed, rfl,
        by rw [publishedTable, if_neg fun equal => changed (same.1 equal)]⟩

theorem tableOf_changed (laidOut : layouts.table? n singleton = some table)
    (changed : table ≠ base.tableOf n singleton) :
    (publishInto base live d layouts).tableOf n singleton = table := by
  rcases pub.tableOf_cases n singleton with ⟨seen, -⟩ | ⟨table', laidOut', -, -, now⟩
  · rw [seenTable, laidOut] at seen
    exact absurd seen changed
  · cases laidOut.symm.trans laidOut'
    exact now

theorem tableOf_unchanged
    (unchanged : seenTable base layouts n singleton = base.tableOf n singleton) :
    (publishInto base live d layouts).tableOf n singleton = live.tableOf n singleton := by
  rcases pub.tableOf_cases n singleton with ⟨-, same⟩ | ⟨table, -, changed, seen, -⟩
  · exact same
  · exact absurd (seen.symm.trans unchanged) changed

end Publishable

/-! ## Slots -/

/-- A unit registers names that are registered already, but in another order. -/
def Reorders (base live : Registry) (layouts : Layouts) : Prop :=
  ∃ n singleton table, layouts.table? n singleton = some table ∧ table ≠ base.tableOf n singleton ∧
    table.sameNames (live.tableOf n singleton) = true ∧ table ≠ live.tableOf n singleton

namespace Publishable

variable {base live : Registry} {d : Declared} {layouts : Layouts}
  (pub : Publishable base live d layouts)

include pub

/-- **Unless it reorders one, a publication extends every table**, if no slot has moved since
the base. -/
theorem le_publishInto
    (ordered : ∀ n singleton, base.tableOf n singleton ≤ live.tableOf n singleton)
    (keepsOrder : ¬Reorders base live layouts) (n : String) (singleton : Bool) :
    live.tableOf n singleton ≤ (publishInto base live d layouts).tableOf n singleton := by
  rcases pub.tableOf_cases n singleton with ⟨-, same⟩ | ⟨table, laidOut, changed, -, now⟩
  · exact le_of_eq same.symm
  · rw [now]
    rcases pub.sameNames_live laidOut changed with ours | theirs
    · by_cases same : table = live.tableOf n singleton
      · exact le_of_eq same.symm
      · exact absurd ⟨n, singleton, table, laidOut, changed, ours, same⟩ keepsOrder
    -- No other unit changed the table, so the live one is that of the base.
    · rw [← eq_of_le_of_sameNames (ordered n singleton) (sameNames_symm theirs)]
      exact pub.fits.le_table laidOut

theorem not_le_publishInto (reorders : Reorders base live layouts) :
    ∃ n singleton,
      ¬live.tableOf n singleton ≤ (publishInto base live d layouts).tableOf n singleton := by
  obtain ⟨n, singleton, table, laidOut, changed, same, differs⟩ := reorders
  refine ⟨n, singleton, fun extends_ => ?_⟩
  rw [pub.tableOf_changed laidOut changed] at extends_
  exact differs (eq_of_le_of_sameNames extends_ same).symm

end Publishable

/-! ## Links -/

/-- A class and its superclass, neither of which was there from the start. -/
def Registry.Links (r : Registry) (D S : String) : Prop :=
  prelude.get? D = none ∧ prelude.get? S = none ∧
    ∃ info, r.get? D = some info ∧ info.superclass = some S

/-- Every name in the table of a superclass has the same slot in that of the class. -/
def Registry.ExtendsSuperclasses (r : Registry) : Prop :=
  ∀ D S, r.Links D S → ∀ singleton x slot, (r.tableOf S singleton).index? x = some slot →
    (r.tableOf D singleton).index? x = some slot

theorem Registry.extendsSuperclasses_iff {r : Registry} :
    r.ExtendsSuperclasses ↔
      ∀ D S, r.Links D S → ∀ singleton, r.tableOf S singleton ≤ r.tableOf D singleton := by
  simp only [ExtendsSuperclasses, le_iff_index?]

theorem Registry.extendsSuperclasses_prelude : prelude.ExtendsSuperclasses := by
  rintro D S ⟨new, -, info, registered, -⟩
  cases new.symm.trans registered

theorem Registry.Links.of_keeps {r r' : Registry} {D S : String} (links : r'.Links D S)
    (keeps : r.Keeps r') (sound : r.Sound) (sound' : r'.Sound) {info : NamespaceInfo}
    (registered : r.get? D = some info) : info.superclass = some S := by
  obtain ⟨new, -, info', registered', linked'⟩ := links
  have found := outline?_eq_some.2 ⟨info, registered, rfl⟩
  have found' := outline?_eq_some.2 ⟨info', registered', rfl⟩
  obtain ⟨o, kept, kind, superclass⟩ := keeps D _ found
  cases found'.symm.trans kept
  -- The class had a superclass from the beginning, and superclasses are kept.
  obtain ⟨S', linked⟩ :=
    sound.linked found new (kind.symm.trans (sound'.superclass found' linked').1)
  cases linked'.symm.trans (superclass S' linked)
  exact linked

/-- The ways in which a publication breaks a link between a class and its superclass. In each of
them the unit does not know, or does not go by, the table that is registered at the other end of
the link. -/
inductive Breaks (base live : Registry) (d : Declared) (layouts : Layouts) (D S : String)
    (singleton : Bool) : Prop where
  /-- The unit declares a class below one whose table has grown since the base. -/
  | staleSuperclass (new : base.get? D = none) {ns : DeclaredNamespace}
      (declares : d.get? D = some ns) (linked : ns.superclass = some S)
      (unchanged : seenTable base layouts S singleton = base.tableOf S singleton)
      {table : NameTable} (laidOut : layouts.table? D singleton = some table)
      (registers : live.get? D = none ∨ table ≠ .empty)
      (apart : ¬live.tableOf S singleton ≤ table)
  /-- The unit changes the table of a class below which another unit has declared one since the
  base. -/
  | unseenSubclass (unseen : base.get? D = none) (undeclared : d.get? D = none)
      {info : NamespaceInfo} (registered : live.get? D = some info)
      (linked : info.superclass = some S) {table : NameTable}
      (laidOut : layouts.table? S singleton = some table)
      (changed : table ≠ base.tableOf S singleton) (apart : ¬table ≤ live.tableOf D singleton)
  /-- The unit changes the table of a class, and does not keep the slots that it has by now. -/
  | movedSubclass {info : NamespaceInfo} (registered : base.get? D = some info)
      (linked : info.superclass = some S) {table : NameTable}
      (laidOut : layouts.table? D singleton = some table)
      (changed : table ≠ base.tableOf D singleton) (apart : ¬live.tableOf S singleton ≤ table)

/-- A publication breaks a link between classes that were not there from the start. -/
def Splits (base live : Registry) (d : Declared) (layouts : Layouts) : Prop :=
  ∃ D S singleton, Registry.prelude.get? D = none ∧ Registry.prelude.get? S = none ∧
    Breaks base live d layouts D S singleton

namespace Publishable

variable {base live : Registry} {d : Declared} {layouts : Layouts} {D S : String}
  (pub : Publishable base live d layouts)
variable {info : NamespaceInfo} {singleton : Bool}

include pub

theorem tableOf_superclass (singleton : Bool)
    (registered : base.get? D = some info) (linked : info.superclass = some S) :
    (publishInto base live d layouts).tableOf S singleton = live.tableOf S singleton := by
  obtain ⟨-, above, aboveFound, aboveClass⟩ := pub.baseSound.superclass
    (outline?_eq_some.2 ⟨info, registered, rfl⟩) linked
  obtain ⟨aboveInfo, aboveRegistered, rfl⟩ := outline?_eq_some.1 aboveFound
  rcases pub.tableOf_cases S singleton with ⟨-, same⟩ | ⟨table, laidOut, changed, -⟩
  · exact same
  · have same := pub.fits.eq_of_subclass aboveRegistered aboveClass registered
      linked laidOut
    exact absurd same changed

/-- The table of a class that is new to the unit is registered as the unit has it, unless it is
without names. -/
theorem tableOf_new {n : String} (new : base.get? n = none) {table : NameTable}
    (laidOut : layouts.table? n singleton = some table)
    (registers : live.get? n = none ∨ table ≠ .empty) :
    (publishInto base live d layouts).tableOf n singleton = table := by
  by_cases isEmpty : table = .empty
  · have unchanged : seenTable base layouts n singleton = base.tableOf n singleton := by
      rw [seenTable, laidOut, tableOf_of_none new]
      exact isEmpty
    rw [pub.tableOf_unchanged unchanged, isEmpty]
    exact tableOf_of_none (registers.resolve_right fun named => named isEmpty) singleton
  · rw [← tableOf_of_none new singleton] at isEmpty
    exact pub.tableOf_changed laidOut isEmpty

/-- **A link that a publication breaks is wrong.** -/
theorem not_le_of_breaks
    (breaks : Breaks base live d layouts D S singleton) :
    ¬(publishInto base live d layouts).tableOf S singleton ≤
      (publishInto base live d layouts).tableOf D singleton := by
  cases breaks with
  | staleSuperclass new _ _ unchanged laidOut registers apart =>
    rwa [pub.tableOf_unchanged unchanged, pub.tableOf_new new laidOut registers]
  | unseenSubclass _ undeclared _ _ laidOut changed apart =>
    rwa [pub.tableOf_changed laidOut changed,
      tableOf_congr (publishInto_undeclared pub.fits.stands undeclared) singleton]
  | movedSubclass registered linked laidOut changed apart =>
    rwa [pub.tableOf_superclass singleton registered linked,
      pub.tableOf_changed laidOut changed]

theorem superclass_of_breaks
    (breaks : Breaks base live d layouts D S singleton) :
    ∃ info, (publishInto base live d layouts).get? D = some info ∧
      info.superclass = some S := by
  suffices ∃ o, (publishInto base live d layouts).outline? D = some o ∧
      o.superclass = some S by
    obtain ⟨o, found, linked⟩ := this
    obtain ⟨info, registered, rfl⟩ := outline?_eq_some.1 found
    exact ⟨info, registered, linked⟩
  cases breaks with
  | staleSuperclass _ declares linked =>
    exact ⟨_, publishInto_declared pub.fits.stands declares, linked⟩
  | unseenSubclass _ _ registered linked =>
    obtain ⟨o, kept, -, superclass⟩ := pub.keeps_publishInto D _
      (outline?_eq_some.2 ⟨_, registered, rfl⟩)
    exact ⟨o, kept, superclass S linked⟩
  | movedSubclass registered linked =>
    obtain ⟨o, kept, -, superclass⟩ := pub.keeps.trans pub.keeps_publishInto D _
      (outline?_eq_some.2 ⟨_, registered, rfl⟩)
    exact ⟨o, kept, superclass S linked⟩

theorem not_extends_publishInto (splits : Splits base live d layouts) :
    ¬(publishInto base live d layouts).ExtendsSuperclasses := by
  obtain ⟨D, S, singleton, new, newAbove, breaks⟩ := splits
  rw [extendsSuperclasses_iff]
  intro extends_
  exact pub.not_le_of_breaks breaks
    (extends_ D S ⟨new, newAbove, pub.superclass_of_breaks breaks⟩ singleton)

/-- A class that the unit saw in its base: the table above it stays, and its own may change. -/
theorem le_of_registered (singleton : Bool)
    (registered : base.get? D = some info) (linked : info.superclass = some S)
    (whole : ¬Breaks base live d layouts D S singleton)
    (right : live.tableOf S singleton ≤ live.tableOf D singleton) :
    (publishInto base live d layouts).tableOf S singleton ≤
      (publishInto base live d layouts).tableOf D singleton := by
  by_contra apart
  rw [pub.tableOf_superclass singleton registered linked] at apart
  rcases pub.tableOf_cases D singleton with ⟨-, same⟩ | ⟨table, laidOut, changed, -, now⟩
  · exact apart (same ▸ right)
  · exact whole (.movedSubclass registered linked laidOut changed (now ▸ apart))

/-- A class that the unit does not know: its table stays, and the one above it may change. -/
theorem le_of_unseen (singleton : Bool) (unseen : base.get? D = none)
    (undeclared : d.get? D = none)
    (registered : live.get? D = some info) (linked : info.superclass = some S)
    (whole : ¬Breaks base live d layouts D S singleton)
    (right : live.tableOf S singleton ≤ live.tableOf D singleton) :
    (publishInto base live d layouts).tableOf S singleton ≤
      (publishInto base live d layouts).tableOf D singleton := by
  by_contra apart
  rw [tableOf_congr (publishInto_undeclared pub.fits.stands undeclared) singleton] at apart
  rcases pub.tableOf_cases S singleton with ⟨-, same⟩ | ⟨table, laidOut, changed, -, now⟩
  · exact apart (same ▸ right)
  · exact whole (.unseenSubclass unseen undeclared registered linked laidOut changed (now ▸ apart))

/-- A class that the unit declares: its table extends what the unit saw above it. -/
theorem le_of_declared (singleton : Bool) (new : base.get? D = none) {ns : DeclaredNamespace}
    (found : d.get? D = some ns)
    (linked : ns.superclass = some S) (whole : ¬Breaks base live d layouts D S singleton)
    (right : ∀ info, live.get? D = some info →
      live.tableOf S singleton ≤ live.tableOf D singleton) :
    (publishInto base live d layouts).tableOf S singleton ≤
      (publishInto base live d layouts).tableOf D singleton := by
  obtain ⟨table, laidOut, seen⟩ := pub.fits.superclass_le found new linked singleton
  by_cases registers : live.get? D = none ∨ table ≠ .empty
  · rw [pub.tableOf_new new laidOut registers]
    rcases pub.tableOf_cases S singleton with ⟨unchanged, same⟩ | ⟨above, -, -, isSeen, now⟩
    · rw [same]
      by_contra apart
      exact whole (.staleSuperclass new found linked unchanged laidOut registers apart)
    · rwa [now, ← isSeen]
  · -- Another unit has declared the class too, and this one has no names for it.
    obtain ⟨known, isEmpty⟩ := not_or.1 registers
    rw [not_ne_iff.1 isEmpty] at laidOut seen
    have unchanged : seenTable base layouts D singleton = base.tableOf D singleton := by
      rw [seenTable, laidOut, tableOf_of_none new]
      rfl
    rw [pub.tableOf_unchanged unchanged]
    rcases pub.tableOf_cases S singleton with ⟨-, same⟩ | ⟨above, -, -, isSeen, now⟩
    · obtain ⟨info, registered⟩ := Option.ne_none_iff_exists'.1 known
      rw [same]
      exact right info registered
    · rw [now, ← isSeen]
      exact seen.trans (empty_le _)

/-- **A publication that breaks no link leaves every one right**, if all were right before. -/
theorem extends_publishInto
    (before : live.ExtendsSuperclasses) (whole : ¬Splits base live d layouts) :
    (publishInto base live d layouts).ExtendsSuperclasses := by
  rw [extendsSuperclasses_iff] at before ⊢
  intro D S links singleton
  have unbroken : ¬Breaks base live d layouts D S singleton := fun breaks =>
    whole ⟨D, S, singleton, links.1, links.2.1, breaks⟩
  have old : ∀ info, live.get? D = some info →
      info.superclass = some S ∧ live.tableOf S singleton ≤ live.tableOf D singleton := by
    intro info registered
    have linked := links.of_keeps pub.keeps_publishInto pub.liveSound
      pub.sound_publishInto registered
    exact ⟨linked, before D S ⟨links.1, links.2.1, info, registered, linked⟩ singleton⟩
  -- The class is known to the base, only to others, or is declared by the unit.
  cases inBase : base.get? D with
  | some info =>
    have linked := links.of_keeps (pub.keeps.trans pub.keeps_publishInto)
      pub.baseSound pub.sound_publishInto inBase
    obtain ⟨o, kept, -⟩ := pub.keeps D _ (outline?_eq_some.2 ⟨info, inBase, rfl⟩)
    obtain ⟨now, registered, -⟩ := outline?_eq_some.1 kept
    exact pub.le_of_registered singleton inBase linked unbroken (old now registered).2
  | none =>
    obtain ⟨-, -, info, registeredAfter, linked⟩ := links
    have after := outline?_eq_some.2 ⟨info, registeredAfter, rfl⟩
    cases found : d.get? D with
    | none =>
      rw [publishInto_undeclared pub.fits.stands found] at after
      obtain ⟨now, registered, -⟩ := outline?_eq_some.1 after
      obtain ⟨linkedBefore, right⟩ := old now registered
      exact pub.le_of_unseen singleton inBase found registered linkedBefore unbroken right
    | some ns =>
      rw [publishInto_declared pub.fits.stands found] at after
      have linkedHere : ns.superclass = some S :=
        (congrArg Outline.superclass (Option.some.inj after)).trans linked
      exact pub.le_of_declared singleton inBase found linkedHere unbroken
        fun info registered => (old info registered).2

end Publishable

end StackCode
