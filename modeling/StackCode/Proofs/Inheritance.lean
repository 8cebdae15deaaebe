import StackCode.Proofs.FixedSlots

/-!
# Circles of superclasses

Units are compiled one after the other, each against the registry that the ones before it left.
The only class without superclass is `Root::Std::Value`, so every chain of superclasses ends there.
Circles are looked for before classes without superclass get the default one, so no search sees the
link that a unit gives to `Root::Std::Value` by reopening it. From then on every class has a
superclass, and some of them must go round in a circle (`not_acyclic_of_linked`).
-/

namespace StackCode

open List Option Registry

/-! ## Chains that end -/

section Climb

variable {parent? other? : String → Option String} {n m : String}

theorem climb_eq_none_of_le {j k : Nat} (ended : climb parent? j n = none) (le : j ≤ k) :
    climb parent? k n = none := by
  obtain ⟨i, rfl⟩ := Nat.exists_eq_add_of_le le
  rw [climb_add, ended]
  rfl

theorem climb_mul_of_circle {k : Nat} (circle : climb parent? k n = some n) (times : Nat) :
    climb parent? (times * k) n = some n := by
  induction times with
  | zero => rw [Nat.zero_mul, climb_zero]
  | succ times ih => rw [Nat.succ_mul, climb_add, ih, bind_some, circle]

theorem not_circle_of_ended {j : Nat} (ended : climb parent? j n = none) (k : Nat) :
    climb parent? (k + 1) n ≠ some n := by
  intro circle
  have further : climb parent? (j * (k + 1)) n = none :=
    climb_eq_none_of_le ended (Nat.le_mul_of_pos_right j (Nat.succ_pos k))
  rw [climb_mul_of_circle circle] at further
  cases further

theorem climb_rotate {i j : Nat} (circle : climb parent? (i + j) n = some n)
    (passes : climb parent? i n = some m) : climb parent? (i + j) m = some m := by
  rw [climb_add, passes, bind_some] at circle
  rw [Nat.add_comm, climb_add, circle, bind_some, passes]

theorem climb_congr {k : Nat}
    (same : ∀ i < k, ∀ m, climb parent? i n = some m → other? m = parent? m) :
    climb other? k n = climb parent? k n := by
  induction k generalizing n with
  | zero => rfl
  | succ k ih =>
    rw [climb_succ, climb_succ, same 0 (Nat.succ_pos k) n rfl]
    cases link : parent? n with
    | none => rfl
    | some p =>
      refine ih fun i bound m passes => same (i + 1) (Nat.succ_lt_succ bound) m ?_
      rw [climb_succ, link, bind_some, passes]

theorem climb_isSome {linked : String → Prop}
    (goesOn : ∀ n, linked n → ∃ m, parent? n = some m ∧ linked m) (k : Nat) (start : linked n) :
    ∃ m, climb parent? k n = some m := by
  induction k generalizing n with
  | zero => exact ⟨n, rfl⟩
  | succ k ih =>
    obtain ⟨m, link, next⟩ := goesOn n start
    obtain ⟨top, climbed⟩ := ih next
    exact ⟨top, by rw [climb_succ, link, bind_some, climbed]⟩

end Climb

/-! ## Registries -/

/-- The class that every chain of superclasses ends at. -/
def valueName : String := "Root::Std::Value"

namespace Registry

/-- The registered superclass. -/
def superclass? (r : Registry) (n : String) : Option String :=
  (r.get? n).bind NamespaceInfo.superclass

/-- No class comes back to itself by way of superclasses. -/
def Acyclic (r : Registry) : Prop := ∀ n k, climb r.superclass? (k + 1) n ≠ some n

variable {r : Registry} {n : String}

theorem superclass?_eq_outline (r : Registry) (n : String) :
    r.superclass? n = (r.outline? n).bind Outline.superclass := by
  rw [superclass?, outline?, bind_map]
  rfl

theorem mem_keys_of_superclass? {S : String} (link : r.superclass? n = some S) :
    n ∈ r.namespaces.keys := by
  obtain ⟨info, found, -⟩ := bind_eq_some_iff.1 link
  refine Std.ExtTreeMap.mem_keys.2 (Std.ExtTreeMap.isSome_getElem?_iff_mem.1 ?_)
  exact isSome_of_eq_some found

/-- What holds of every registry that is reached from the prelude. -/
structure Reached (r : Registry) : Prop extends r.Steady where
  keeps : prelude.Keeps r

theorem reached_prelude : prelude.Reached := ⟨steady_prelude, .refl _⟩

theorem Reached.superclass?_object (reached : r.Reached) :
    r.superclass? objectName = some valueName := by
  have before : prelude.superclass? objectName = some valueName := by decide +kernel
  rw [superclass?_eq_outline] at before ⊢
  obtain ⟨o, found, linked⟩ := bind_eq_some_iff.1 before
  obtain ⟨o', kept, -, superclass⟩ := reached.keeps _ o found
  rw [kept]
  exact superclass _ linked

theorem Reached.linked (reached : r.Reached) {o : Outline} (found : r.outline? n = some o)
    (isClass : o.kind = .class) (notTop : n ≠ valueName) : ∃ S, o.superclass = some S := by
  cases old : prelude.get? n with
  | none => exact reached.sound.linked found old isClass
  | some info =>
    have classes : ∀ entry ∈ prelude.namespaces.toList, entry.2.kind = .class →
        entry.1 ≠ valueName → entry.2.superclass.isSome := by
      decide +kernel
    obtain ⟨o', kept, sameKind, superclass⟩ :=
      reached.keeps n _ (outline?_eq_some.2 ⟨info, old, rfl⟩)
    cases found.symm.trans kept
    have member : (n, info) ∈ prelude.namespaces.toList :=
      Std.ExtTreeMap.mem_toList_iff_getElem?_eq_some.2 old
    obtain ⟨S, linked⟩ := isSome_iff_exists.1
      (classes (n, info) member (sameKind.symm.trans isClass) notTop)
    exact ⟨S, superclass S linked⟩

/-- **If the class at the top has a superclass too, there is a circle**: no chain ends, and a
registry has only so many classes. -/
theorem Reached.not_acyclic_of_linked (reached : r.Reached) {S : String}
    (top : r.superclass? valueName = some S) : ¬r.Acyclic := by
  intro acyclic
  have goesOn : ∀ n, (∃ o, r.outline? n = some o ∧ o.kind = .class) →
      ∃ m, r.superclass? n = some m ∧ ∃ o, r.outline? m = some o ∧ o.kind = .class := by
    rintro n ⟨o, found, isClass⟩
    obtain ⟨m, linked⟩ : ∃ m, o.superclass = some m := by
      by_cases isTop : n = valueName
      · subst isTop
        rw [superclass?_eq_outline, found] at top
        exact ⟨S, top⟩
      · exact reached.linked found isClass isTop
    refine ⟨m, ?_, (reached.sound.superclass found linked).2⟩
    rw [superclass?_eq_outline, found]
    exact linked
  obtain ⟨top, climbed⟩ := climb_isSome goesOn (r.namespaces.keys.length + 1) reached.sound.object
  have ended := climb_eq_none (fun _ _ => mem_keys_of_superclass?) (fun n k _ => acyclic n k)
    objectName
  rw [climbed] at ended
  cases ended

end Registry

/-! ## One unit -/

section Unit

variable {r : Registry} {statements : List Stmt} {c : Collection}

/-- The links that a unit has in the end are those that circles are looked for in, and the
default ones. -/
theorem superclassOf?_link (unfailed : ¬Failed (link r statements c).issues) (n : String) :
    superclassOf? (link r statements c).declared r n =
        superclassOf? (linkWalk r statements c).declared r n ∨
      superclassOf? (linkWalk r statements c).declared r n = none ∧
        superclassOf? (link r statements c).declared r n = some objectName := by
  have uncut : linkCut r statements c = linkWalk r statements c :=
    (foldl_cutCycle_eq _ _ unfailed).1
  have linked : (link r statements c).declared.get? n =
      ((linkWalk r statements c).declared.get? n).map DeclaredNamespace.withDefaultSuperclass := by
    rw [link_eq, uncut]
    exact OrderedMap.get?_map _ _ _
  unfold superclassOf?
  rw [linked]
  cases (linkWalk r statements c).declared.get? n with
  | none => exact .inl rfl
  | some ns =>
    rcases ns.withDefaultSuperclass_cases with ⟨same, -⟩ | ⟨-, unlinked, default⟩
    · exact .inl (congrArg DeclaredNamespace.superclass same)
    · exact .inr ⟨unlinked, congrArg DeclaredNamespace.superclass default⟩

section

variable (collected : c.Clean r) (sound : r.Sound) (acyclic : r.Acyclic)
  (unfailed : ¬Failed (link r statements c).issues)

include collected sound acyclic unfailed

/-- Without failures, the links that circles are looked for in have none: one that no class of
the unit is on is one of the registry. -/
theorem climb_linkWalk_ne (n : String) (k : Nat)
    (short : k ≤ (linkWalk r statements c).declared.namespaces.size + r.size) :
    climb (superclassOf? (linkWalk r statements c).declared r) (k + 1) n ≠ some n := by
  have searched := (foldl_cutCycle_eq _ _ unfailed).2
  have stands := (linkWalk_over statements collected).1
  intro circle
  by_cases meets : ∃ i < k + 1, ∃ m ns,
      climb (superclassOf? (linkWalk r statements c).declared r) i n = some m ∧
        (linkWalk r statements c).declared.get? m = some ns
  · obtain ⟨i, bound, m, ns, passes, found⟩ := meets
    have split : k + 1 = i + (k + 1 - i) := by omega
    have turned := climb_rotate (split ▸ circle) passes
    rw [← split] at turned
    -- A namespace that is on a circle has a superclass, so it is a class and was looked at.
    obtain ⟨S, link, -⟩ := bind_eq_some_iff.1 turned
    rw [superclassOf?, found] at link
    have isClass : ns.kind = .class := by
      rcases stands.superclass_of found link with ⟨isClass, -⟩ | ⟨info, registered, linked⟩
      · exact isClass
      · rw [stands.kind_eq found registered]
        exact (sound.superclass (outline?_eq_some.2 ⟨info, registered, rfl⟩) linked).1
    refine searched m (List.mem_map.2 ⟨ns, mem_filter.2 ⟨?_, decide_eq_true isClass⟩,
      stands.fullName_eq found⟩) ns found k short turned
    exact (Declared.mem_toValues stands).2 (stands.fullName_eq found ▸ found)
  · refine acyclic n k ((climb_congr fun i bound m passes => ?_).trans circle)
    have undeclared : (linkWalk r statements c).declared.get? m = none := by
      by_contra found
      obtain ⟨ns, found⟩ := ne_none_iff_exists'.1 found
      exact meets ⟨i, bound, m, ns, passes, found⟩
    rw [superclassOf?, undeclared]
    rfl

theorem climb_linkWalk_eq_none (n : String) :
    ∃ k, climb (superclassOf? (linkWalk r statements c).declared r) k n = none := by
  have noCircle := climb_linkWalk_ne collected sound acyclic unfailed
  generalize (linkWalk r statements c).declared = d at noCircle
  have size : (d.namespaces.keys.toList ++ r.namespaces.keys).length =
      d.namespaces.size + r.size := by
    rw [length_append, Array.length_toList, Std.ExtTreeMap.length_keys]
    rfl
  have listed : ∀ m S, superclassOf? d r m = some S →
      m ∈ d.namespaces.keys.toList ++ r.namespaces.keys := by
    intro m S link
    rw [mem_append]
    unfold superclassOf? at link
    split at link
    · rename_i ns found
      refine .inl ((d.namespaces.mem_keys_iff m).2 ?_)
      rw [← Declared.get?, found]
      rfl
    · exact .inr (mem_keys_of_superclass? link)
  exact ⟨_, climb_eq_none listed (fun m k bound => noCircle m k (by omega)) n⟩

theorem climb_link_eq_none (object : superclassOf? (link r statements c).declared r objectName =
    some valueName)
    (top : superclassOf? (link r statements c).declared r valueName = none) (n : String) :
    ∃ k, climb (superclassOf? (link r statements c).declared r) k n = none := by
  obtain ⟨k, ended⟩ := climb_linkWalk_eq_none collected sound acyclic unfailed n
  induction k generalizing n with
  | zero => cases ended
  | succ k ih =>
    rcases superclassOf?_link unfailed n with same | ⟨-, default⟩
    · cases above : superclassOf? (linkWalk r statements c).declared r n with
      | none => exact ⟨1, by rw [climb_succ, same, above, bind_none]⟩
      | some m =>
        rw [climb_succ, above, bind_some] at ended
        obtain ⟨j, endedAbove⟩ := ih m ended
        exact ⟨j + 1, by rw [climb_succ, same, above, bind_some, endedAbove]⟩
    · refine ⟨3, ?_⟩
      rw [climb_succ, default, bind_some, climb_succ, object, bind_some, climb_succ, top, bind_none]

end

end Unit

theorem superclass?_publishInto {base live : Registry} {declared : Declared} {layouts : Layouts}
    (stands : declared.Over base) (n : String) :
    (publishInto base live declared layouts).superclass? n = superclassOf? declared live n := by
  rw [superclass?_eq_outline, superclassOf?]
  cases found : declared.get? n with
  | none =>
    rw [publishInto_undeclared stands found, ← superclass?_eq_outline]
    rfl
  | some ns =>
    rw [publishInto_declared stands found]
    rfl

namespace Registry

variable {r : Registry} {options : Options} {program : Program}

theorem Reached.publishable (reached : r.Reached)
    (compiled : (compile options r program).1.function.isSome) :
    ¬Failed (program.linked r).issues ∧
      Publishable r r (program.linked r).declared (program.laidOut r).layouts ∧
      (compile options r program).2 =
        publishInto r r (program.linked r).declared (program.laidOut r).layouts := by
  rcases reached.compile_cases options program with ⟨none, -⟩ | ⟨clean, publishable, -, live⟩
  · rw [none] at compiled
    cases compiled
  · obtain ⟨o, found, objectKind⟩ := reached.sound.object
    obtain ⟨info, object, rfl⟩ := outline?_eq_some.1 found
    exact ⟨linked_unfailed object objectKind clean, publishable, live⟩

theorem Reached.compile (reached : r.Reached) (options : Options) (program : Program) :
    (compile options r program).2.Reached := by
  refine ⟨(reached.toSteady.compile options program).1, ?_⟩
  rcases reached.compile_cases options program with ⟨-, same⟩ | ⟨-, publishable, -, live⟩
  · rw [same]
    exact reached.keeps
  · rw [live]
    exact reached.keeps.trans publishable.keeps_publishInto

/-- **A unit that leaves the class at the top alone closes no circle.** -/
theorem Reached.acyclic_compile (reached : r.Reached) (acyclic : r.Acyclic)
    (top : r.superclass? valueName = none)
    (compiled : (StackCode.compile options r program).1.function.isSome)
    (undeclared : (program.linked r).declared.get? valueName = none) :
    (StackCode.compile options r program).2.Acyclic ∧
      (StackCode.compile options r program).2.superclass? valueName = none := by
  obtain ⟨unfailed, publishable, live⟩ := reached.publishable compiled
  have links : (publishInto r r (program.linked r).declared (program.laidOut r).layouts).superclass?
      = superclassOf? (program.linked r).declared r :=
    funext (superclass?_publishInto publishable.fits.stands)
  have object := (reached.compile options program).superclass?_object
  have topAfter : superclassOf? (program.linked r).declared r valueName = none := by
    rw [superclassOf?, undeclared]
    exact top
  rw [live] at object ⊢
  rw [links] at object ⊢
  refine ⟨fun n k => ?_, topAfter⟩
  obtain ⟨j, ended⟩ := climb_link_eq_none (clean_collect r program.statements) reached.sound acyclic
    unfailed object topAfter n
  rw [links]
  exact not_circle_of_ended ended k

/-- **A unit that reopens the class at the top closes a circle.** -/
theorem Reached.not_acyclic_compile (reached : r.Reached)
    (compiled : (StackCode.compile options r program).1.function.isSome) {ns : DeclaredNamespace}
    (declared : (program.linked r).declared.get? valueName = some ns) :
    ¬(StackCode.compile options r program).2.Acyclic := by
  obtain ⟨-, publishable, live⟩ := reached.publishable compiled
  have registered : (prelude.outline? valueName).map Outline.kind = some .class := by
    decide +kernel
  obtain ⟨o, found, isClass⟩ := map_eq_some_iff.1 registered
  obtain ⟨o', kept, sameKind, -⟩ := reached.keeps _ o found
  obtain ⟨S, linked⟩ := publishable.fits.linked declared
    ((publishable.kind_eq declared kept).trans (sameKind.trans isClass))
  refine (reached.compile options program).not_acyclic_of_linked (S := S) ?_
  rw [live, superclass?_publishInto publishable.fits.stands, superclassOf?, declared]
  exact linked

/-! ## Units one after the other -/

/-- A unit is compiled without failures, and one of its namespaces is the class at the top. -/
def ReopensTop (r : Registry) (unit : Options × Program) : Prop :=
  (StackCode.compile unit.1 r unit.2).1.function.isSome ∧
    ((unit.2.linked r).declared.get? valueName).isSome

theorem Reached.after (reached : r.Reached) (units : List (Options × Program)) :
    (r.after units).Reached := by
  induction units generalizing r with
  | nil => exact reached
  | cons unit rest ih =>
    rw [after_cons]
    exact ih (reached.compile unit.1 unit.2)

theorem Reached.acyclic_step (reached : r.Reached) (acyclic : r.Acyclic)
    (top : r.superclass? valueName = none) {unit : Options × Program}
    (closed : ¬r.ReopensTop unit) :
    (StackCode.compile unit.1 r unit.2).2.Acyclic ∧
      (StackCode.compile unit.1 r unit.2).2.superclass? valueName = none := by
  rcases reached.compile_cases unit.1 unit.2 with ⟨-, same⟩ | ⟨-, -, function, -⟩
  · rw [same]
    exact ⟨acyclic, top⟩
  · have compiled : (StackCode.compile unit.1 r unit.2).1.function.isSome := by
      rw [function]
      rfl
    refine reached.acyclic_compile acyclic top compiled (not_isSome_iff_eq_none.1 ?_)
    exact fun declared => closed ⟨compiled, declared⟩

theorem Reached.acyclic_after (reached : r.Reached) (acyclic : r.Acyclic)
    (top : r.superclass? valueName = none) (units : List (Options × Program))
    (closed : ∀ before unit, before ++ [unit] <+: units → ¬(r.after before).ReopensTop unit) :
    (r.after units).Acyclic := by
  induction units generalizing r with
  | nil => exact acyclic
  | cons unit rest ih =>
    obtain ⟨acyclicNext, topNext⟩ := reached.acyclic_step acyclic top (closed [] unit ⟨rest, rfl⟩)
    rw [after_cons]
    refine ih (reached.compile unit.1 unit.2) acyclicNext topNext fun before next earlier => ?_
    rw [← after_cons]
    exact closed (unit :: before) next (cons_prefix_cons.2 ⟨rfl, earlier⟩)

theorem acyclic_prelude : prelude.Acyclic := by
  -- No class is more than three links below the top.
  have ends : ∀ n ∈ prelude.namespaces.keys, climb prelude.superclass? 4 n = none := by
    decide +kernel
  intro n k circle
  obtain ⟨S, link, -⟩ := bind_eq_some_iff.1 circle
  exact not_circle_of_ended (ends n (mem_keys_of_superclass? link)) k circle

/-- **Superclasses go round in no circle exactly as long as no unit reopens the class at the
top.** -/
theorem acyclic_after_iff (units : List (Options × Program)) :
    (∀ early, early <+: units → (prelude.after early).Acyclic) ↔
      ∀ before unit, before ++ [unit] <+: units → ¬(prelude.after before).ReopensTop unit := by
  constructor
  · rintro acyclic before unit earlier ⟨compiled, declared⟩
    have after := acyclic (before ++ [unit]) earlier
    rw [after_append] at after
    obtain ⟨ns, found⟩ := Option.isSome_iff_exists.1 declared
    exact (reached_prelude.after before).not_acyclic_compile compiled found after
  · intro closed early inside
    have top : prelude.superclass? valueName = none := by decide +kernel
    exact reached_prelude.acyclic_after acyclic_prelude top early fun before unit earlier =>
      closed before unit (earlier.trans inside)

/-- Superclasses do go round in circles: a unit reopens the class at the top, and it gets the
default superclass, which is below it. -/
theorem not_always_acyclic : ¬∀ units, (prelude.after units).Acyclic := by
  intro acyclic
  let reopening : Program :=
    .ofStatements [.namespace .zero .class ⟨["Std", "Value"], false⟩ none []]
  exact acyclic [(.forFile "value", reopening)] valueName 1 (by decide +kernel)

end Registry

end StackCode
