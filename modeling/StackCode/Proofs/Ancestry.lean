import Mathlib.Data.Finset.Card
import StackCode.Proofs.Linking

/-!
# Chains of superclasses in a unit

For laying out to come to an end, the classes of a unit must not go round in a circle. `cutCycle`
looks for a way back to a class within as many steps as there are namespaces. That is far enough: a
longer chain passes a class twice (`climb_eq_none`, by the pigeonhole principle).

The result is a rank that goes down along every link between new classes (`link_ranked`). A cut is
always reported, so a unit without failures keeps all registered superclasses
(`link_keepsSuperclasses`).
-/

namespace StackCode

open List Option Declared OrderedMap

/-! ## Climbing -/

/-- Go up so many steps. -/
def climb (parent? : String → Option String) : Nat → String → Option String
  | 0, n => some n
  | k + 1, n => (parent? n).bind (climb parent? k)

section Climb

variable {parent? : String → Option String}
variable {k : Nat} {n : String}

@[simp] theorem climb_zero (n : String) : climb parent? 0 n = some n := rfl

theorem climb_succ (k : Nat) (n : String) :
    climb parent? (k + 1) n = (parent? n).bind (climb parent? k) := rfl

theorem climb_add (i j : Nat) (n : String) :
    climb parent? (i + j) n = (climb parent? i n).bind (climb parent? j) := by
  induction i generalizing n with
  | zero => rw [Nat.zero_add, climb_zero, bind_some]
  | succ i ih =>
    rw [Nat.succ_add, climb_succ, climb_succ, bind_assoc]
    congr 1
    funext m
    exact ih m

theorem climb_mono {other? : String → Option String}
    (more : ∀ n m, parent? n = some m → other? n = some m) {m : String}
    (climbed : climb parent? k n = some m) : climb other? k n = some m := by
  induction k generalizing n with
  | zero => exact climbed
  | succ k ih =>
    rw [climb_succ] at climbed ⊢
    obtain ⟨p, first, rest⟩ := bind_eq_some_iff.1 climbed
    rw [more n p first, bind_some]
    exact ih rest

theorem reachesSuperclass_of_climb {target : String} {steps : Nat}
    (climbed : climb parent? (k + 1) n = some target) (near : k < steps) :
    reachesSuperclass parent? target steps (parent? n) = true := by
  induction k generalizing n steps with
  | zero =>
    obtain ⟨p, first, rest⟩ := bind_eq_some_iff.1 climbed
    cases rest
    obtain ⟨steps, rfl⟩ : ∃ m, steps = m + 1 := ⟨steps - 1, by omega⟩
    rw [first, reachesSuperclass, beq_self_eq_true, Bool.true_or]
  | succ k ih =>
    obtain ⟨p, first, rest⟩ := bind_eq_some_iff.1 climbed
    obtain ⟨steps, rfl⟩ : ∃ m, steps = m + 1 := ⟨steps - 1, by omega⟩
    rw [first, reachesSuperclass, ih rest (by omega), Bool.or_true]

/-- **A chain without short circles ends.** All classes of the chain that have a link are in
a list, so within one step more than the list is long the chain would come to one of them
twice. -/
theorem climb_eq_none {names : List String} (listed : ∀ n m, parent? n = some m → n ∈ names)
    (noCircle : ∀ n, ∀ k < names.length, climb parent? (k + 1) n ≠ some n) (n : String) :
    climb parent? (names.length + 1) n = none := by
  by_contra long
  obtain ⟨top, climbed⟩ := ne_none_iff_exists'.1 long
  have onTheWay : ∀ i ≤ names.length, ∃ m, climb parent? i n = some m ∧ m ∈ names := by
    intro i bound
    have split : names.length + 1 = i + (names.length - i + 1) := by omega
    rw [split, climb_add] at climbed
    obtain ⟨m, before, after⟩ := bind_eq_some_iff.1 climbed
    obtain ⟨next, link, -⟩ := bind_eq_some_iff.1 after
    exact ⟨m, before, listed m next link⟩
  choose! at_ reached member using onTheWay
  -- There are more positions on the way than classes in the list.
  have tooFew : names.toFinset.card < (Finset.range (names.length + 1)).card := by
    rw [Finset.card_range]
    exact Nat.lt_succ_of_le (toFinset_card_le names)
  obtain ⟨i, iRange, j, jRange, differ, same⟩ :=
    Finset.exists_ne_map_eq_of_card_lt_of_maps_to tooFew (f := at_) fun i iRange =>
      List.mem_toFinset.2 (member i (by simpa [Nat.lt_succ_iff] using iRange))
  -- Both positions hold one class; the way from the first of them to the other is the circle.
  have circle : ∀ {i j : Nat}, i < j → j ≤ names.length → at_ i ≠ at_ j := by
    intro i j before bound equal
    have split : j = i + (j - i - 1 + 1) := by omega
    have whole := reached j bound
    rw [split, climb_add, reached i (by omega), bind_some, ← split, ← equal] at whole
    exact noCircle (at_ i) (j - i - 1) (by omega) whole
  rw [Finset.mem_range] at iRange jRange
  rcases Nat.lt_or_gt_of_ne differ with before | after
  · exact circle before (by omega) same
  · exact circle after (by omega) same.symm

/-- The number of links above a class, of at most so many. -/
def linksAbove (parent? : String → Option String) : Nat → String → Nat
  | 0, _ => 0
  | k + 1, n =>
    match parent? n with
    | none => 0
    | some m => linksAbove parent? k m + 1

theorem linksAbove_lt_of_ended (ended : climb parent? k n = none) :
    linksAbove parent? k n < k := by
  induction k generalizing n with
  | zero => cases ended
  | succ k ih =>
    cases link : parent? n with
    | none => simp [linksAbove, link]
    | some m =>
      rw [climb_succ, link, bind_some] at ended
      simp only [linksAbove, link]
      exact Nat.succ_lt_succ (ih ended)

theorem linksAbove_succ (ended : climb parent? k n = none) :
    linksAbove parent? (k + 1) n = linksAbove parent? k n := by
  induction k generalizing n with
  | zero => cases ended
  | succ k ih =>
    cases link : parent? n with
    | none => simp [linksAbove, link]
    | some m =>
      rw [climb_succ, link, bind_some] at ended
      have rest := ih ended
      rw [linksAbove, link]
      dsimp only
      rw [rest]
      simp [linksAbove, link]

theorem linksAbove_lt {m : String} (ended : climb parent? (k + 1) n = none)
    (link : parent? n = some m) : linksAbove parent? (k + 1) m < linksAbove parent? (k + 1) n := by
  rw [climb_succ, link, bind_some] at ended
  rw [linksAbove_succ ended]
  simp [linksAbove, link]

end Climb

/-! ## Links between new classes -/

namespace Declared

/-- The new namespace of a unit that a new class of the unit is laid out on. -/
def parent? (d : Declared) (n : String) : Option String :=
  (d.get? n).bind fun ns =>
    if ns.registered = false ∧ ns.kind = .class then
      ns.superclass.filter fun S => (d.get? S).any fun base => !base.registered
    else none

theorem parent?_eq_some {d : Declared} {n S : String} :
    d.parent? n = some S ↔
      ∃ ns base, d.get? n = some ns ∧ ns.registered = false ∧ ns.kind = .class ∧
        ns.superclass = some S ∧ d.get? S = some base ∧ base.registered = false := by
  simp only [parent?, bind_eq_some_iff, ite_none_right_eq_some,
    filter_eq_some_iff, Option.any_eq_true, Bool.not_eq_eq_eq_not, Bool.not_true]
  constructor
  · rintro ⟨ns, found, ⟨new, isClass⟩, superclass, base, baseFound, baseNew⟩
    exact ⟨ns, base, found, new, isClass, superclass, baseFound, baseNew⟩
  · rintro ⟨ns, base, found, new, isClass, superclass, baseFound, baseNew⟩
    exact ⟨ns, found, ⟨new, isClass⟩, superclass, base, baseFound, baseNew⟩

/-- The class that classes inherit from is not new in the unit. -/
def ObjectIsOld (d : Declared) : Prop := ∀ ns, d.get? objectName = some ns → ns.registered = true

/-- No class comes back to itself within as many links as the unit has namespaces. -/
def Uncircled (d : Declared) (n : String) : Prop :=
  ∀ k < d.namespaces.size, climb d.parent? (k + 1) n ≠ some n

/-- A change of a unit's namespaces that makes some classes fall back on the default superclass. -/
structure FallsBack (d d' : Declared) : Prop where
  size_eq : d'.namespaces.size = d.namespaces.size
  changes : ∃ change, Changes change d d' ∧
    (∀ n ns, (change n ns).contributions = ns.contributions) ∧
    ∀ n ns, d.get? n = some ns →
      (change n ns).superclass = ns.superclass ∨
        (ns.kind = .class ∧ (change n ns).superclass = some objectName)

theorem FallsBack.refl (d : Declared) : FallsBack d d where
  size_eq := rfl
  changes := ⟨fun _ ns => ns, ⟨by simp, by simp, by simp, by simp⟩, by simp, by simp⟩

variable {d d' d'' : Declared}

theorem FallsBack.trans (first : FallsBack d d') (second : FallsBack d' d'') : FallsBack d d'' := by
  obtain ⟨size, change, changes, contributions, superclass⟩ := first
  obtain ⟨size', change', changes', contributions', superclass'⟩ := second
  refine ⟨size'.trans size, fun n ns => change' n (change n ns), ⟨?_, ?_, ?_, ?_⟩, ?_, ?_⟩
  · intro n
    rw [changes'.get?_eq, changes.get?_eq, Option.map_map]
    rfl
  · intro n ns
    rw [changes'.fullName_eq, changes.fullName_eq]
  · intro n ns
    rw [changes'.kind_eq, changes.kind_eq]
  · intro n ns
    rw [changes'.registered_eq, changes.registered_eq]
  · intro n ns
    rw [contributions', contributions]
  · intro n ns found
    have later := superclass' n (change n ns) (by rw [changes.get?_eq, found]; rfl)
    rw [changes.kind_eq] at later
    rcases superclass n ns found with same | ⟨isClass, object⟩
    · rwa [same] at later
    · exact .inr ⟨isClass, later.elim (·.trans object) (·.2)⟩

theorem FallsBack.objectIsOld (falls : FallsBack d d') (old : d.ObjectIsOld) : d'.ObjectIsOld := by
  obtain ⟨-, change, changes, -, -⟩ := falls
  intro ns found
  obtain ⟨before, foundBefore, rfl⟩ := changes.found found
  rw [changes.registered_eq, old before foundBefore]

theorem FallsBack.parent?_eq_some (falls : FallsBack d d') (old : d.ObjectIsOld) (n S : String)
    (link : d'.parent? n = some S) : d.parent? n = some S := by
  have oldAfter := falls.objectIsOld old
  obtain ⟨-, change, changes, -, superclass⟩ := falls
  obtain ⟨ns, base, found, new, isClass, linked, baseFound, baseNew⟩ :=
    Declared.parent?_eq_some.1 link
  obtain ⟨before, foundBefore, rfl⟩ := changes.found found
  have same : before.superclass = some S := by
    rcases superclass n before foundBefore with same | ⟨-, object⟩
    · rw [← same, linked]
    · cases linked.symm.trans object
      rw [oldAfter base baseFound] at baseNew
      cases baseNew
  rw [changes.get?_eq] at baseFound
  obtain ⟨baseBefore, baseFoundBefore, rfl⟩ := map_eq_some_iff.1 baseFound
  rw [changes.registered_eq] at new baseNew
  rw [changes.kind_eq] at isClass
  exact Declared.parent?_eq_some.2 ⟨before, baseBefore, foundBefore, new, isClass, same,
    baseFoundBefore, baseNew⟩

theorem FallsBack.uncircled (falls : FallsBack d d') (old : d.ObjectIsOld) {n : String}
    (uncircled : d.Uncircled n) : d'.Uncircled n := by
  intro k bound circle
  rw [falls.size_eq] at bound
  exact uncircled k bound (climb_mono (falls.parent?_eq_some old) circle)

theorem FallsBack.stands {r : Registry} {info : NamespaceInfo} (falls : FallsBack d d')
    (stands : d.Over r) (object : r.get? objectName = some info)
    (objectKind : info.kind = .class) :
    d'.Over r := by
  obtain ⟨-, change, changes, contributions, superclass⟩ := falls
  have objectSeen : d.Sees r objectName .class := by
    cases found : d.get? objectName with
    | some ns => exact .inl ⟨ns, found, (stands.kind_eq found object).trans objectKind⟩
    | none => exact .inr ⟨found, info, object, objectKind⟩
  refine stands.change changes ?_ ?_
  · intro n ns S found linked
    rcases superclass n ns found with same | ⟨isClass, default⟩
    · exact .inl (same.symm.trans linked)
    · cases default.symm.trans linked
      exact .inr ⟨isClass, objectSeen⟩
  · intro n ns M included
    rw [contributions] at included
    exact .inl included

end Declared

/-! ## Cutting circles -/

section Cut

variable {r : Registry} {l : Linking} {n : String}

/-- What a cut does: nothing to a class that does not come back to itself, and otherwise it
reports a failure and falls back on the default superclass. -/
theorem cutCycle_cases (r : Registry) (l : Linking) (n : String) :
    (cutCycle r l n = l ∧
      (∀ ns, l.declared.get? n = some ns → ∀ k ≤ l.declared.namespaces.size + r.size,
        climb (superclassOf? l.declared r) (k + 1) n ≠ some n)) ∨
    (Failed (cutCycle r l n).issues ∧
      (cutCycle r l n).declared = l.declared.modify n fun ns =>
        { ns with superclass := some objectName, setsSuperclass := false }) := by
  unfold cutCycle
  dsimp only
  split
  · rename_i missing
    refine .inl ⟨rfl, fun ns found => ?_⟩
    rw [missing] at found
    cases found
  · split
    · exact .inr ⟨failed_push_failure _ _ _, rfl⟩
    · rename_i unreached
      refine .inl ⟨rfl, fun _ _ k bound circle => unreached ?_⟩
      exact reachesSuperclass_of_climb circle (by omega)

theorem cutCycle_fallsBack (isClass : ∀ ns, l.declared.get? n = some ns → ns.kind = .class) :
    l.declared.FallsBack (cutCycle r l n).declared := by
  rcases cutCycle_cases r l n with ⟨same, -⟩ | ⟨-, cut⟩
  · rw [same]
    exact .refl _
  · rw [cut]
    refine ⟨rfl, _, changes_modify _ n, ?_, ?_⟩
    · intro m ns
      split <;> rfl
    · intro m ns found
      split
      · rename_i same
        subst same
        exact .inr ⟨isClass ns found, rfl⟩
      · exact .inl rfl

theorem Declared.superclassOf?_of_parent? {d : Declared} (n S : String)
    (link : d.parent? n = some S) :
    superclassOf? d r n = some S := by
  obtain ⟨ns, _, found, -, -, linked, -⟩ := Declared.parent?_eq_some.1 link
  rw [superclassOf?, found]
  exact linked

theorem cutCycle_uncircled (old : l.declared.ObjectIsOld)
    (isClass : ∀ ns, l.declared.get? n = some ns → ns.kind = .class) :
    (cutCycle r l n).declared.Uncircled n := by
  intro k bound circle
  have oldAfter : (cutCycle r l n).declared.ObjectIsOld :=
    (cutCycle_fallsBack isClass).objectIsOld old
  obtain ⟨S, link, -⟩ := bind_eq_some_iff.1 circle
  obtain ⟨ns, base, found, -, -, linked, baseFound, baseNew⟩ := Declared.parent?_eq_some.1 link
  rcases cutCycle_cases r l n with ⟨same, short⟩ | ⟨-, cut⟩
  · rw [same] at circle bound found
    exact short ns found k (by omega) (climb_mono superclassOf?_of_parent? circle)
  · rw [cut, Declared.get?_modify, if_pos rfl] at found
    obtain ⟨before, -, rfl⟩ := map_eq_some_iff.1 found
    cases linked
    rw [oldAfter base baseFound] at baseNew
    cases baseNew

theorem continues_foldl_cutCycle (names : List String) (l : Linking) :
    Continues l.issues (names.foldl (cutCycle r) l).issues := by
  induction names generalizing l with
  | nil => exact .refl
  | cons n rest ih =>
    refine Continues.trans ?_ (ih _)
    unfold cutCycle
    dsimp only
    split
    · exact .refl
    · split
      · exact .push .refl rfl
      · exact .refl

theorem foldl_cutCycle_eq (names : List String) (l : Linking)
    (clean : ¬Failed (names.foldl (cutCycle r) l).issues) :
    names.foldl (cutCycle r) l = l ∧
      ∀ n ∈ names, ∀ ns, l.declared.get? n = some ns →
        ∀ k ≤ l.declared.namespaces.size + r.size,
          climb (superclassOf? l.declared r) (k + 1) n ≠ some n := by
  induction names generalizing l with
  | nil => exact ⟨rfl, by simp⟩
  | cons n rest ih =>
    rw [foldl_cons] at clean ⊢
    rcases cutCycle_cases r l n with ⟨same, short⟩ | ⟨reported, -⟩
    · rw [same] at clean ⊢
      obtain ⟨uncut, shortLater⟩ := ih l clean
      exact ⟨uncut, forall_mem_cons.2 ⟨short, shortLater⟩⟩
    · exact absurd ((continues_foldl_cutCycle rest _).failed reported) clean

theorem foldl_cutCycle_uncircled (r : Registry) (names : List String) (l : Linking)
    (old : l.declared.ObjectIsOld)
    (areClasses : ∀ n ∈ names, ∀ ns, l.declared.get? n = some ns → ns.kind = .class) :
    l.declared.FallsBack (names.foldl (cutCycle r) l).declared ∧
      ∀ n ∈ names, (names.foldl (cutCycle r) l).declared.Uncircled n := by
  induction names generalizing l with
  | nil => exact ⟨.refl _, by simp⟩
  | cons n rest ih =>
    have isClass := areClasses n mem_cons_self
    have falls : l.declared.FallsBack (cutCycle r l n).declared := cutCycle_fallsBack isClass
    have restClasses : ∀ m ∈ rest, ∀ ns, (cutCycle r l n).declared.get? m = some ns →
        ns.kind = .class := by
      intro m member ns found
      obtain ⟨-, change, changes, -, -⟩ := falls
      obtain ⟨before, foundBefore, rfl⟩ := changes.found found
      rw [changes.kind_eq, areClasses m (mem_cons_of_mem n member) before foundBefore]
    obtain ⟨fallsRest, uncircledRest⟩ := ih _ (falls.objectIsOld old) restClasses
    refine ⟨falls.trans fallsRest, ?_⟩
    intro m member
    rcases mem_cons.1 member with rfl | later
    · exact fallsRest.uncircled (falls.objectIsOld old) (cutCycle_uncircled old isClass)
    · exact uncircledRest m later

end Cut

/-! ## Linked units -/

theorem DeclaredNamespace.withDefaultSuperclass_cases (ns : DeclaredNamespace) :
    (ns.withDefaultSuperclass = ns ∧ (ns.kind = .class → ∃ S, ns.superclass = some S)) ∨
      (ns.kind = .class ∧ ns.superclass = none ∧
        ns.withDefaultSuperclass = { ns with superclass := some objectName }) := by
  unfold withDefaultSuperclass
  split
  · rename_i unlinked
    exact .inr ⟨unlinked.1, unlinked.2, rfl⟩
  · rename_i linked
    refine .inl ⟨rfl, fun isClass => ne_none_iff_exists'.1 fun none =>
      linked ⟨isClass, none⟩⟩

theorem Declared.changes_default (d : Declared) :
    Changes (fun _ => DeclaredNamespace.withDefaultSuperclass) d
      { d with namespaces := d.namespaces.map DeclaredNamespace.withDefaultSuperclass } := by
  refine ⟨fun n => get?_map _ _ _, ?_, ?_, ?_⟩
  all_goals
    intro n ns
    rcases ns.withDefaultSuperclass_cases with ⟨same, -⟩ | ⟨-, -, default⟩
  · rw [same]
  · rw [default]
  · rw [same]
  · rw [default]
  · rw [same]
  · rw [default]

theorem Declared.fallsBack_default (d : Declared) :
    d.FallsBack { d with namespaces := d.namespaces.map DeclaredNamespace.withDefaultSuperclass }
    where
  size_eq := rfl
  changes := by
    refine ⟨_, d.changes_default, ?_, ?_⟩
    all_goals
      intro n ns
      rcases ns.withDefaultSuperclass_cases with ⟨same, -⟩ | ⟨isClass, -, default⟩
    · exact congrArg DeclaredNamespace.contributions same
    · simp only [default]
    · exact fun _ => .inl (congrArg DeclaredNamespace.superclass same)
    · exact fun _ => .inr ⟨isClass, congrArg DeclaredNamespace.superclass default⟩

section Link

variable {r : Registry} {statements : List Stmt} {c : Collection}

/-- The walk over the statements that a link begins with. -/
def linkWalk (r : Registry) (statements : List Stmt) (c : Collection) : Linking :=
  linkBody r [rootName] none statements ⟨c.declared, c.issues, .empty⟩

/-- The walk of a link, with circles cut. -/
def linkCut (r : Registry) (statements : List Stmt) (c : Collection) : Linking :=
  let walk := linkWalk r statements c
  ((walk.declared.namespaces.toValues.filter (·.kind = .class)).map
    DeclaredNamespace.fullName).foldl
    (cutCycle r) walk

theorem link_eq (r : Registry) (statements : List Stmt) (c : Collection) :
    link r statements c =
      { declared := { (linkCut r statements c).declared with
          namespaces := (linkCut r statements c).declared.namespaces.map
            DeclaredNamespace.withDefaultSuperclass }
        issues := (linkCut r statements c).issues } := rfl

theorem linkWalk_steps (r : Registry) (statements : List Stmt) (c : Collection) :
    LinkSteps r c.declared (linkWalk r statements c).declared :=
  (linkBody_goes [rootName] none statements ⟨c.declared, c.issues, .empty⟩).steps

theorem linkWalk_over (statements : List Stmt) (clean : c.Clean r) :
    (linkWalk r statements c).declared.Over r ∧
      (linkWalk r statements c).declared.KeepsSuperclasses r :=
  clean.stands.steps clean.keepsSuperclasses (linkWalk_steps r statements c)

theorem Declared.mem_toValues {d : Declared} {ns : DeclaredNamespace} (stands : d.Over r) :
    ns ∈ d.namespaces.toValues ↔ d.get? ns.fullName = some ns := by
  rw [OrderedMap.toValues, mem_filterMap]
  constructor
  · rintro ⟨n, -, found⟩
    rwa [stands.fullName_eq found]
  · intro found
    refine ⟨ns.fullName, (d.namespaces.mem_keys_iff _).2 ?_, found⟩
    rw [← Declared.get?, found]
    rfl

variable {info : NamespaceInfo}

theorem Declared.Over.objectIsOld {d : Declared} (stands : d.Over r)
    (object : r.get? objectName = some info) : d.ObjectIsOld :=
  fun _ found => (stands.registered_iff found).2 ⟨info, object⟩

theorem linkCut_uncircled (statements : List Stmt) (clean : c.Clean r)
    (object : r.get? objectName = some info) :
    (linkWalk r statements c).declared.FallsBack (linkCut r statements c).declared ∧
      ∀ n, (linkCut r statements c).declared.Uncircled n := by
  have stands := (linkWalk_over statements clean).1
  have old := stands.objectIsOld object
  obtain ⟨falls, uncircled⟩ := foldl_cutCycle_uncircled r
    (((linkWalk r statements c).declared.namespaces.toValues.filter (·.kind = .class)).map
      DeclaredNamespace.fullName) (linkWalk r statements c) old (by
    intro n member ns found
    obtain ⟨listed, listedMember, rfl⟩ := List.mem_map.1 member
    obtain ⟨declared, isClass⟩ := mem_filter.1 listedMember
    cases ((mem_toValues stands).1 declared).symm.trans found
    exact of_decide_eq_true isClass)
  refine ⟨falls, ?_⟩
  -- Only classes have links, and all classes of the walk are listed.
  intro n k bound circle
  have links := climb_mono (falls.parent?_eq_some old) circle
  obtain ⟨S, link, -⟩ := bind_eq_some_iff.1 links
  obtain ⟨ns, -, found, -, isClass, -⟩ := Declared.parent?_eq_some.1 link
  refine uncircled n (List.mem_map.2 ⟨ns, mem_filter.2 ⟨?_, decide_eq_true isClass⟩, ?_⟩) k
    bound circle
  · exact (mem_toValues stands).2 (stands.fullName_eq found ▸ found)
  · exact stands.fullName_eq found

theorem linkCut_fallsBack (r : Registry) (statements : List Stmt) (c : Collection) :
    (linkCut r statements c).declared.FallsBack (link r statements c).declared :=
  fallsBack_default _

theorem link_over (clean : c.Clean r) (object : r.get? objectName = some info)
    (objectKind : info.kind = .class) : (link r statements c).declared.Over r := by
  obtain ⟨falls, -⟩ := linkCut_uncircled statements clean object
  have stands := (linkWalk_over statements clean).1
  exact (falls.trans (linkCut_fallsBack r statements c)).stands stands object objectKind

/-- **A unit without failures keeps every registered superclass.** -/
theorem link_keepsSuperclasses (clean : c.Clean r)
    (unfailed : ¬Failed (link r statements c).issues) :
    (link r statements c).declared.KeepsSuperclasses r := by
  have uncut : linkCut r statements c = linkWalk r statements c :=
    (foldl_cutCycle_eq _ _ unfailed).1
  have keeps := (linkWalk_over statements clean).2
  rw [link_eq, uncut]
  intro n ns info S found registered linked
  obtain ⟨before, foundBefore, rfl⟩ := map_eq_some_iff.1 ((get?_map _ _ _).symm.trans found)
  have kept := keeps n before info S foundBefore registered linked
  rcases before.withDefaultSuperclass_cases with ⟨same, -⟩ | ⟨-, unlinked, -⟩
  · rw [same, kept]
  · cases unlinked.symm.trans kept

theorem link_superclass {n : String} {ns : DeclaredNamespace}
    (found : (link r statements c).declared.get? n = some ns) (isClass : ns.kind = .class) :
    ∃ S, ns.superclass = some S := by
  obtain ⟨before, -, rfl⟩ := map_eq_some_iff.1 ((get?_map _ _ _).symm.trans found)
  rcases before.withDefaultSuperclass_cases with ⟨same, linked⟩ | ⟨-, -, default⟩
  · rw [same] at isClass ⊢
    exact linked isClass
  · exact ⟨objectName, by rw [default]⟩

/-- **Links between the new classes of a unit go down in rank**, and there are no more ranks
than namespaces to climb. -/
theorem link_ranked (clean : c.Clean r) (object : r.get? objectName = some info) :
    ∃ rank : String → Nat,
      (∀ n, rank n ≤ (link r statements c).declared.namespaces.size) ∧
      ∀ n S, (link r statements c).declared.parent? n = some S → rank S < rank n := by
  obtain ⟨falls, uncircled⟩ := linkCut_uncircled statements clean object
  have old := falls.objectIsOld ((linkWalk_over statements clean).1.objectIsOld object)
  have fallsAgain := linkCut_fallsBack r statements c
  -- What linking adds behind the cut are superclasses that are registered, so it closes no circle.
  generalize (link r statements c).declared = d at fallsAgain
  have listed : ∀ n m, d.parent? n = some m → n ∈ d.namespaces.keys.toList := by
    intro n m link
    obtain ⟨ns, -, found, -⟩ := Declared.parent?_eq_some.1 link
    rw [d.namespaces.mem_keys_iff, ← Declared.get?, found]
    rfl
  have size : d.namespaces.keys.toList.length = d.namespaces.size := Array.length_toList
  have ended := climb_eq_none listed fun n k bound =>
    fallsAgain.uncircled old (uncircled n) k (size ▸ bound)
  refine ⟨linksAbove d.parent? (d.namespaces.size + 1), ?_, ?_⟩
  · intro n
    exact Nat.le_of_lt_succ (linksAbove_lt_of_ended (size ▸ ended n))
  · intro n S link
    exact linksAbove_lt (size ▸ ended n) link

end Link

end StackCode
