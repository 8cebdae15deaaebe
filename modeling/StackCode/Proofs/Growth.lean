import StackCode.Proofs.CreatedNamespaces
import StackCode.Proofs.PublishedTables

/-!
# Registries that grow

A unit is published over whatever other units have published since it took its base, and nothing
gets lost on the way. The live registry has a place for every namespace that was there, and what is
said of it is at least what was said before (`Registry.Grown`). Publication adds the members that
the unit lists, and nothing else.
-/

namespace StackCode

open List NameTable OrderedMap Registry

/-! ## Names in tables -/

namespace NameTable

variable {t other : NameTable} {x : String}

theorem contains_append :
    (t.append other).contains x = true ↔ t.contains x = true ∨ other.contains x = true := by
  have all (names : List String) : ∀ t : NameTable,
      (names.foldl insert t).contains x = true ↔ t.contains x = true ∨ x ∈ names := by
    induction names with
    | nil => exact fun t => by simp
    | cons name rest ih =>
      intro t
      rw [foldl_cons, ih, contains_insert, mem_cons]
      tauto
  rw [append, ← Array.foldl_toList, all, contains_iff other]

theorem contains_of_le (extends_ : t ≤ other) (found : t.contains x = true) :
    other.contains x = true :=
  (contains_iff other x).2 ((le_iff.1 extends_).subset ((contains_iff t x).1 found))

theorem contains_iff_of_sameNames (same : t.sameNames other = true) :
    t.contains x = true ↔ other.contains x = true := by
  rw [contains_iff, contains_iff]
  exact (sameNames_iff_perm.1 same).mem_iff

end NameTable

theorem OrderedMap.mem_toList {α : Type} {m : OrderedMap α} {k : String} {v : α} :
    (k, v) ∈ m.toList ↔ m.get? k = some v := by
  rw [toList, mem_filterMap]
  constructor
  · rintro ⟨k', -, found⟩
    obtain ⟨v', isValue, same⟩ := Option.map_eq_some_iff.1 found
    cases same
    exact isValue
  · intro found
    exact ⟨k, (m.mem_keys_iff k).2 (by rw [found]; rfl), by rw [found]; rfl⟩

/-! ## Full names -/

theorem cutReversed_eq_some {text seen member owner : List Char}
    (cut : cutReversed text seen = some (member, owner)) :
    ∃ passed, text = passed ++ ':' :: ':' :: owner ∧ member = passed.reverse ++ seen := by
  fun_induction cutReversed text seen with
  | case1 => cases cut
  | case2 rest seen =>
    cases cut
    exact ⟨[], rfl, rfl⟩
  | case3 c rest seen _ ih =>
    obtain ⟨passed, rfl, rfl⟩ := ih cut
    exact ⟨c :: passed, rfl, by simp⟩

theorem eq_memberName_of_splitMember? {f n x : String} (cut : splitMember? f = some (n, x)) :
    f = memberName n x := by
  obtain ⟨⟨member, owner⟩, isCut, same⟩ := Option.map_eq_some_iff.1 cut
  cases same
  obtain ⟨passed, isText, rfl⟩ := cutReversed_eq_some isCut
  apply String.toList_inj.1
  rw [← reverse_reverse f.toList, isText]
  simp [memberName, separator]

/-! ## Members -/

namespace Registry

variable {r : Registry} {f n x : String}

/-- A registered namespace has a member. -/
def HasMember (r : Registry) (n x : String) : Prop :=
  ∃ info, r.get? n = some info ∧ info.members.contains x = true

theorem constant?_of_missing (missing : r.get? f = none) :
    r.constant? f = (splitMember? f).bind fun (n, x) =>
      (r.get? n).bind fun info => if info.members.contains x then some .value else none := by
  rw [constant?, missing]
  rfl

theorem constant?_eq_value : r.constant? f = some .value ↔
    r.get? f = none ∧ ∃ n x, splitMember? f = some (n, x) ∧ r.HasMember n x := by
  cases missing : r.get? f with
  | some info =>
    rw [constant?_eq_namespace.2 ⟨info, missing, rfl⟩]
    simp
  | none =>
    rw [constant?_of_missing missing]
    simp only [Option.bind_eq_some_iff, Option.ite_none_right_eq_some, and_true, true_and,
      Prod.exists, HasMember]

theorem constant?_eq_none : r.constant? f = none ↔
    r.get? f = none ∧ ∀ n x, splitMember? f = some (n, x) → ¬r.HasMember n x := by
  constructor
  · intro unseen
    refine ⟨get?_eq_none_of_constant? unseen, fun n x cut member => ?_⟩
    rw [constant?_eq_value.2 ⟨get?_eq_none_of_constant? unseen, n, x, cut, member⟩] at unseen
    cases unseen
  · rintro ⟨missing, memberless⟩
    cases seen : r.constant? f with
    | none => rfl
    | some kind =>
      cases kind with
      | «namespace» kind =>
        obtain ⟨info, found, -⟩ := constant?_eq_namespace.1 seen
        rw [missing] at found
        cases found
      | value =>
        obtain ⟨-, n, x, cut, member⟩ := constant?_eq_value.1 seen
        exact absurd member (memberless n x cut)

theorem hasMember_addMembers (r : Registry) (owner : String) (names : NameTable) (n x : String) :
    (r.addMembers owner names).HasMember n x ↔
      r.HasMember n x ∨ owner = n ∧ (r.get? n).isSome ∧ names.contains x = true := by
  unfold HasMember
  rw [get?_addMembers]
  split
  · rename_i same
    cases r.get? n with
    | none => simp
    | some info => simp [contains_append, same]
  · rename_i apart
    simp [apart]

theorem isSome_addMembers (r : Registry) (owner : String) (names : NameTable) (n : String) :
    ((r.addMembers owner names).get? n).isSome = (r.get? n).isSome := by
  rw [get?_addMembers]
  split
  · rw [Option.isSome_map]
  · rfl

theorem hasMember_foldl_addMembers (added : List (String × NameTable)) (r : Registry)
    (n x : String) :
    (added.foldl (fun r (owner, names) => r.addMembers owner names) r).HasMember n x ↔
      r.HasMember n x ∨ (r.get? n).isSome ∧ ∃ names, (n, names) ∈ added ∧
        names.contains x = true := by
  induction added generalizing r with
  | nil => simp
  | cons first rest ih =>
    rw [foldl_cons, ih, hasMember_addMembers, isSome_addMembers]
    constructor
    · rintro ((old | ⟨rfl, there, listed⟩) | ⟨there, names, member, listed⟩)
      · exact .inl old
      · exact .inr ⟨there, first.2, mem_cons_self, listed⟩
      · exact .inr ⟨there, names, mem_cons_of_mem first member, listed⟩
    · rintro (old | ⟨there, names, member, listed⟩)
      · exact .inl (.inl old)
      · rcases mem_cons.1 member with rfl | later
        · exact .inl (.inr ⟨rfl, there, listed⟩)
        · exact .inr ⟨there, names, later, listed⟩

end Registry

section Publish

variable {base current : Registry} {d : Declared} {layouts : Layouts}

theorem hasMember_publishNamespace (r : Registry) (ns : DeclaredNamespace) (n x : String) :
    (publishNamespace base layouts r ns).HasMember n x ↔ r.HasMember n x := by
  unfold Registry.HasMember publishNamespace
  rw [Registry.get?_insert]
  split
  · rename_i same
    subst same
    cases r.get? ns.fullName <;> simp [NamespaceInfo.bare]
  · exact Iff.rfl

theorem isSome_publishNamespace (r : Registry) (ns : DeclaredNamespace) (n : String) :
    ((publishNamespace base layouts r ns).get? n).isSome ↔ (r.get? n).isSome ∨ ns.fullName = n := by
  unfold publishNamespace
  rw [Registry.get?_insert]
  split <;> simp_all

/-- **The members after publication** are those that were there, and those that the unit lists. -/
theorem hasMember_publishInto (stands : d.Over base) (n x : String) :
    (publishInto base current d layouts).HasMember n x ↔ current.HasMember n x ∨
      ((current.get? n).isSome ∨ (d.get? n).isSome) ∧
        ∃ names, d.members.get? n = some names ∧ names.contains x = true := by
  have namespaces : ∀ (list : List DeclaredNamespace) (r : Registry),
      ((list.foldl (publishNamespace base layouts) r).HasMember n x ↔ r.HasMember n x) ∧
        (((list.foldl (publishNamespace base layouts) r).get? n).isSome ↔
          (r.get? n).isSome ∨ ∃ ns ∈ list, ns.fullName = n) := by
    intro list
    induction list with
    | nil => exact fun r => by simp
    | cons ns rest ih =>
      intro r
      rw [foldl_cons, (ih _).1, (ih _).2, hasMember_publishNamespace, isSome_publishNamespace]
      simp [or_assoc]
  have listed : (∃ ns ∈ d.namespaces.toValues, ns.fullName = n) ↔ (d.get? n).isSome := by
    constructor
    · rintro ⟨ns, member, rfl⟩
      rw [(Declared.mem_toValues stands).1 member]
      rfl
    · intro there
      obtain ⟨ns, found⟩ := Option.isSome_iff_exists.1 there
      obtain rfl := stands.fullName_eq found
      exact ⟨ns, (Declared.mem_toValues stands).2 found, rfl⟩
  unfold publishInto
  rw [hasMember_foldl_addMembers, (namespaces _ _).1, (namespaces _ _).2, listed]
  simp only [mem_toList]

end Publish

/-! ## Mixins -/

theorem mem_addMixins {mixins added : List String} {M : String} :
    M ∈ addMixins mixins added ↔ M ∈ mixins ∨ M ∈ added := by
  unfold addMixins
  induction added generalizing mixins with
  | nil => simp
  | cons first rest ih =>
    rw [foldl_cons, ih, mem_cons]
    split
    · rename_i listed
      rw [contains_iff_mem] at listed
      refine ⟨Or.imp_right .inr, ?_⟩
      rintro (old | rfl | new)
      · exact .inl old
      · exact .inl listed
      · exact .inr new
    · rw [mem_append, mem_singleton, or_assoc]

theorem prefix_addMixins (mixins added : List String) : mixins <+: addMixins mixins added := by
  unfold addMixins
  induction added generalizing mixins with
  | nil => exact prefix_rfl
  | cons first rest ih =>
    refine List.IsPrefix.trans ?_ (ih _)
    dsimp only
    split
    · exact prefix_rfl
    · exact prefix_append mixins [first]

/-- The mixins of a registered namespace. -/
def Registry.mixinsOf (r : Registry) (n : String) : List String :=
  ((r.get? n).map NamespaceInfo.mixins).getD []

/-- The mixins that a unit includes in a namespace. -/
def Declared.mixinsOf (d : Declared) (n : String) : List String :=
  ((d.get? n).map DeclaredNamespace.mixins).getD []

theorem Registry.mixinsOf_of_some {r : Registry} {n : String} {info : NamespaceInfo}
    (found : r.get? n = some info) : r.mixinsOf n = info.mixins := by
  rw [mixinsOf, found]
  rfl

theorem Registry.mixinsOf_eq_shape (r : Registry) (n : String) :
    r.mixinsOf n = ((r.shape? n).map Shape.mixins).getD [] := by
  rw [mixinsOf, shape?, Option.map_map]
  rfl

/-- **The mixins after publication** are those that were there, and then those that the unit
adds. -/
theorem mixinsOf_publishInto {base current : Registry} {d : Declared} {layouts : Layouts}
    (stands : d.Over base) (n : String) :
    (publishInto base current d layouts).mixinsOf n =
      addMixins (current.mixinsOf n) (d.mixinsOf n) := by
  have filed : ∀ k ns, d.namespaces.get? k = some ns → ns.fullName = k :=
    fun _ _ found => stands.fullName_eq found
  have distinct : (d.namespaces.toValues.map DeclaredNamespace.fullName).Nodup :=
    map_toValues filed ▸ OrderedMap.nodup_keys _
  rw [mixinsOf_eq_shape, mixinsOf_eq_shape, shape?_publishInto,
    updateEach_apply distinct, find?_toValues filed, Declared.mixinsOf, Declared.get?]
  cases d.namespaces.get? n <;> rfl

/-! ## Growth -/

/-- What is said of a namespace is at least what was said of it before. -/
structure NamespaceInfo.Grown (old new : NamespaceInfo) : Prop where
  kind : new.kind = old.kind
  superclass : ∀ S, old.superclass = some S → new.superclass = some S
  mixins : old.mixins <+: new.mixins
  members : ∀ x, old.members.contains x = true → new.members.contains x = true
  tables : ∀ singleton x, (old.table singleton).contains x = true →
    (new.table singleton).contains x = true

/-- All that is registered is kept. -/
def Registry.Grown (r r' : Registry) : Prop :=
  ∀ n old, r.get? n = some old → ∃ new, r'.get? n = some new ∧ old.Grown new

namespace Registry

variable {r r' r'' : Registry} {n x : String}

theorem Grown.refl (r : Registry) : r.Grown r := fun _ old found =>
  ⟨old, found, rfl, fun _ => id, prefix_rfl, fun _ => id, fun _ _ => id⟩

theorem Grown.trans (first : r.Grown r') (second : r'.Grown r'') : r.Grown r'' := by
  intro n old found
  obtain ⟨middle, foundMiddle, early⟩ := first n old found
  obtain ⟨new, foundNew, late⟩ := second n middle foundMiddle
  exact ⟨new, foundNew, late.kind.trans early.kind,
    fun S linked => late.superclass S (early.superclass S linked), early.mixins.trans late.mixins,
    fun x listed => late.members x (early.members x listed),
    fun singleton x listed => late.tables singleton x (early.tables singleton x listed)⟩

theorem Grown.hasMember (grown : r.Grown r') (member : r.HasMember n x) : r'.HasMember n x := by
  obtain ⟨old, found, listed⟩ := member
  obtain ⟨new, foundNew, more⟩ := grown n old found
  exact ⟨new, foundNew, more.members x listed⟩

theorem Grown.isSome (grown : r.Grown r') (there : (r.get? n).isSome) : (r'.get? n).isSome := by
  obtain ⟨old, found⟩ := Option.isSome_iff_exists.1 there
  obtain ⟨new, foundNew, -⟩ := grown n old found
  rw [foundNew]
  rfl

theorem Grown.contains_tableOf (grown : r.Grown r') {singleton : Bool}
    (listed : (r.tableOf n singleton).contains x = true) :
    (r'.tableOf n singleton).contains x = true := by
  cases found : r.get? n with
  | none => simp [tableOf_of_none found] at listed
  | some old =>
    obtain ⟨new, foundNew, more⟩ := grown n old found
    rw [tableOf_of_some found] at listed
    rw [tableOf_of_some foundNew]
    exact more.tables singleton x listed

end Registry

namespace Publishable

variable {base live : Registry} {d : Declared} {layouts : Layouts}

section

variable (pub : Publishable base live d layouts)

include pub

theorem get?_declared {n : String}
    {ns : DeclaredNamespace} (found : d.get? n = some ns) :
    ∃ info, (publishInto base live d layouts).get? n = some info ∧ info.kind = ns.kind := by
  have published : (publishInto base live d layouts).outline? n = _ :=
    publishInto_declared pub.fits.stands found
  obtain ⟨info, isInfo, outline⟩ := outline?_eq_some.1 published
  exact ⟨info, isInfo, congrArg Outline.kind outline⟩

/-- No name of a table gets lost: where the unit changed the table, no other unit did, or it added
the same names. -/
theorem contains_tableOf_publishInto {n x : String} {singleton : Bool}
    (listed : (live.tableOf n singleton).contains x = true) :
    ((publishInto base live d layouts).tableOf n singleton).contains x = true := by
  rcases pub.tableOf_cases n singleton with ⟨-, same⟩ | ⟨table, laidOut, changed, -, now⟩
  · rwa [same]
  · rw [now]
    rcases pub.sameNames_live laidOut changed with sameLive | sameBase
    · exact (contains_iff_of_sameNames sameLive).2 listed
    · exact contains_of_le (pub.fits.le_table laidOut)
        ((contains_iff_of_sameNames sameBase).2 listed)

/-- **Publication loses nothing.** -/
theorem grown_publishInto :
    live.Grown (publishInto base live d layouts) := by
  intro n old found
  obtain ⟨o, isOutline, kind, superclass⟩ :=
    pub.keeps_publishInto n _ (outline?_eq_some.2 ⟨old, found, rfl⟩)
  obtain ⟨new, foundNew, rfl⟩ := outline?_eq_some.1 isOutline
  have stands := pub.fits.stands
  refine ⟨new, foundNew, kind, superclass, ?_, fun x listed => ?_, fun singleton x listed => ?_⟩
  · rw [← mixinsOf_of_some found, ← mixinsOf_of_some foundNew,
      mixinsOf_publishInto stands]
    exact prefix_addMixins _ _
  · obtain ⟨info, isNew, more⟩ := (hasMember_publishInto stands n x).2 (.inl ⟨old, found, listed⟩)
    cases foundNew.symm.trans isNew
    exact more
  · rw [← tableOf_of_some found] at listed
    rw [← tableOf_of_some foundNew]
    exact pub.contains_tableOf_publishInto listed

end

end Publishable

end StackCode
