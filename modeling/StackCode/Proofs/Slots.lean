import StackCode.Proofs.Scheme
import StackCode.Proofs.ScopeChanges

/-!
# Scopes and the variables that are visible

The scopes of a function that is being compiled hold the variables that are visible where the
compilation is (`StackOf`): the same names and slots, in the same order, and a binding is marked as
captured if its variable was mentioned in another function. Slots are given out in order (`Laid`),
so that finding a variable by its slot finds it.
-/

namespace StackCode

open List

/-! ## Slots -/

/-- Variables that are listed latest first have the slots from 1 on. -/
def Laid : List Local → Prop
  | [] => True
  | l :: rest => l.slot = rest.length + 1 ∧ Laid rest

namespace Laid

variable {locals : List Local} {l : Local}

theorem slot_bounds (laid : Laid locals) (member : l ∈ locals) :
    1 ≤ l.slot ∧ l.slot ≤ locals.length := by
  induction locals with
  | nil => cases member
  | cons first rest ih =>
    rw [length_cons]
    rcases mem_cons.1 member with rfl | later
    · have := laid.1
      omega
    · have := ih laid.2 later
      omega

theorem distinct (laid : Laid locals) : locals.Pairwise fun a b => a.slot ≠ b.slot := by
  induction locals with
  | nil => exact .nil
  | cons first rest ih =>
    refine .cons (fun other member => ?_) (ih laid.2)
    have := laid.1
    have := laid.2.slot_bounds member
    omega

theorem find?_slot (laid : Laid locals) (member : l ∈ locals) :
    locals.find? (·.slot = l.slot) = some l := by
  induction locals with
  | nil => cases member
  | cons first rest ih =>
    rcases mem_cons.1 member with rfl | later
    · exact List.find?_cons_of_pos (by simp)
    · have := laid.1
      have := laid.2.slot_bounds later
      rw [List.find?_cons_of_neg (by simp; omega)]
      exact ih laid.2 later

theorem of_append {a b : List Local} (laid : Laid (a ++ b)) : Laid b := by
  induction a with
  | nil => exact laid
  | cons l rest ih => exact ih laid.2

end Laid

/-! ## Scopes -/

/-- A binding is that of a variable. -/
structure BindingOf (mentions : List Local) (b : Binding) (l : Local) : Prop where
  slot : b.slot = l.slot
  name : l.name = if b.hidden then none else some b.name
  captured : b.captured = true ↔ l ∈ mentions

/-- Scopes are those of variables, one by one. -/
inductive ScopesOf (mentions : List Local) : List Scope → List (List Local) → Prop where
  | nil : ScopesOf mentions [] []
  | cons {scope : Scope} {scopes : List Scope} {locals : List Local} {others : List (List Local)}
      (bindings : List.Forall₂ (BindingOf mentions) scope.bindings locals)
      (base : scope.base = others.flatten.length + 1) (outer : ScopesOf mentions scopes others) :
      ScopesOf mentions (scope :: scopes) (locals :: others)

theorem BindingOf.answersTo {mentions : List Local} {b : Binding} {l : Local}
    (bindingOf : BindingOf mentions b l) (name : String) :
    b.answersTo name = decide (l.name = some name) := by
  rw [bindingOf.name, Binding.answersTo]
  cases b.hidden
  · by_cases same : b.name = name <;> simp [same]
  · rfl

theorem forall₂_imp_of_mem {α β : Type} {R S : α → β → Prop} {as : List α} {bs : List β}
    (related : Forall₂ R as bs) (weaker : ∀ a ∈ as, ∀ b ∈ bs, R a b → S a b) :
    Forall₂ S as bs := by
  induction related with
  | nil => exact .nil
  | cons first _ ih =>
    exact .cons (weaker _ mem_cons_self _ mem_cons_self first)
      (ih fun a member b member' => weaker a (mem_cons_of_mem _ member) b
        (mem_cons_of_mem _ member'))

namespace ScopesOf

variable {mentions mentions' : List Local} {scopes : List Scope} {locals : List (List Local)}
  {slot : Nat} {f : Binding → Binding}

theorem imp (scopesOf : ScopesOf mentions scopes locals)
    (same : ∀ b, ∀ l ∈ locals.flatten, BindingOf mentions b l → BindingOf mentions' b l) :
    ScopesOf mentions' scopes locals := by
  induction scopesOf with
  | nil => exact .nil
  | @cons scope scopes first others bindings base outer ih =>
    refine .cons (forall₂_imp_of_mem bindings fun b _ l member => same b l ?_) base
      (ih fun b l member => same b l ?_)
    · exact mem_append_left _ member
    · exact mem_append_right _ member

theorem mono (scopesOf : ScopesOf mentions scopes locals)
    (same : ∀ l ∈ locals.flatten, l ∈ mentions' ↔ l ∈ mentions) :
    ScopesOf mentions' scopes locals :=
  scopesOf.imp fun _ l member bindingOf =>
    ⟨bindingOf.slot, bindingOf.name, by rw [same l member]; exact bindingOf.captured⟩

theorem bindings (scopesOf : ScopesOf mentions scopes locals) :
    Forall₂ (BindingOf mentions) (scopes.flatMap Scope.bindings) locals.flatten := by
  induction scopesOf with
  | nil => exact .nil
  | cons bindings _ _ ih => exact rel_append bindings ih

theorem lookup? (scopesOf : ScopesOf mentions scopes locals) (name : String) :
    Option.Rel (BindingOf mentions)
      (scopes.findSome? fun scope => scope.bindings.find? (·.answersTo name))
      (locals.flatten.find? (·.name = some name)) := by
  rw [← find?_flatMap]
  exact rel_find? (·.answersTo name) scopesOf.bindings

/-- **A change of the variable with a slot.** -/
theorem update (scopesOf : ScopesOf mentions scopes locals)
    (distinct : locals.flatten.Pairwise fun a b => a.slot ≠ b.slot)
    (changed : ∀ b, ∀ l ∈ locals.flatten, BindingOf mentions b l → l.slot = slot →
      BindingOf mentions' (f b) l)
    (same : ∀ b, ∀ l ∈ locals.flatten, BindingOf mentions b l → l.slot ≠ slot →
      BindingOf mentions' b l) :
    ScopesOf mentions' (ScopeStack.updateScopes slot f scopes) locals := by
  have slots : (scopes.flatMap Scope.bindings).map Binding.slot = locals.flatten.map Local.slot :=
    forall₂_eq_eq_eq ▸ forall₂_map_left_iff.2
      (forall₂_map_right_iff.2 (scopesOf.bindings.imp fun _ _ => (·.slot)))
  rw [ScopeStack.updateScopes_eq_map (slots ▸ pairwise_map.2 distinct)]
  clear distinct slots
  induction scopesOf with
  | nil => exact .nil
  | cons bindings base outer ih =>
    refine .cons (forall₂_map_left_iff.2 (forall₂_imp_of_mem bindings fun b _ l member bindingOf =>
      ?_)) base
      (ih (fun b l member => changed b l (mem_append_right _ member))
        fun b l member => same b l (mem_append_right _ member))
    unfold ScopeStack.changeAt
    split
    · exact changed b l (mem_append_left _ member) bindingOf (bindingOf.slot ▸ ‹_›)
    · exact same b l (mem_append_left _ member) bindingOf (bindingOf.slot ▸ ‹_›)

end ScopesOf

/-! ## Operations of scopes -/

/-- The scopes of a function hold the visible variables, and give out slots in order. -/
structure StackOf (mentions : List Local) (s : ScopeStack) (locals : List (List Local)) : Prop where
  scopes : ScopesOf mentions s.scopes locals
  opened : locals ≠ []
  laid : Laid locals.flatten
  watermark : s.watermark = locals.flatten.length + 1
  highWater : s.watermark ≤ s.highWater
  small : s.highWater ≤ 65536

namespace StackOf

variable {mentions mentions' : List Local} {s s' : ScopeStack} {locals : List (List Local)}

theorem new (mentions : List Local) : StackOf mentions .new [[]] where
  scopes := .cons .nil rfl .nil
  opened := by simp
  laid := trivial
  watermark := rfl
  highWater := Nat.le_refl _
  small := by decide

theorem mono (stackOf : StackOf mentions s locals)
    (same : ∀ l ∈ locals.flatten, l ∈ mentions' ↔ l ∈ mentions) : StackOf mentions' s locals :=
  { stackOf with scopes := stackOf.scopes.mono same }

theorem lookup? (stackOf : StackOf mentions s locals) (name : String) :
    s.lookup? name = none ∧ locals.flatten.find? (·.name = some name) = none ∨
      ∃ b l, s.lookup? name = some b ∧ locals.flatten.find? (·.name = some name) = some l ∧
        BindingOf mentions b l := by
  have related := stackOf.scopes.lookup? name
  change Option.Rel _ (s.lookup? name) _ at related
  generalize s.lookup? name = binding at related ⊢
  generalize locals.flatten.find? (·.name = some name) = found at related ⊢
  cases related with
  | none => exact .inl ⟨rfl, rfl⟩
  | some bindingOf => exact .inr ⟨_, _, rfl, rfl, bindingOf⟩

theorem enter (stackOf : StackOf mentions s locals) : StackOf mentions s.enter ([] :: locals) :=
  { stackOf with
    scopes := .cons .nil stackOf.watermark stackOf.scopes
    opened := by simp }

/-- A scope that ends closes the variables that were mentioned in other functions, in the order
of their declarations. -/
theorem exit {first : List Local} (stackOf : StackOf mentions s (first :: locals))
    (opened : locals ≠ []) :
    s.exit.1.captured = (first.reverse.filter (· ∈ mentions)).map Local.slot ∧
      StackOf mentions s.exit.2 locals ∧ s.exit.2.highWater = s.highWater := by
  obtain ⟨scopes, watermark, highWater⟩ := s
  obtain ⟨scopesOf, -, laid, isWatermark, high, small⟩ := stackOf
  cases scopesOf with
  | @cons scope scopes _ _ bindings base outer =>
    refine ⟨?_, ⟨outer, opened, laid.of_append, base, ?_, small⟩, rfl⟩
    · show ((scope.bindings.filter Binding.captured).map Binding.slot).reverse = _
      rw [filter_reverse, map_reverse]
      congr 1
      clear outer base laid isWatermark
      generalize scope.bindings = bindings' at bindings
      induction bindings with
      | nil => rfl
      | @cons b l bindings locals head _ ih =>
        rw [filter_cons, filter_cons]
        by_cases captured : l ∈ mentions
        · rw [if_pos (head.captured.2 captured), if_pos (by simpa using captured), map_cons,
            map_cons, head.slot, ih]
        · rw [if_neg (fun isCaptured => captured (head.captured.1 isCaptured)),
            if_neg (by simpa using captured), ih]
    · show scope.base ≤ highWater
      simp only [flatten_cons, length_append] at isWatermark
      dsimp only at high
      omega

theorem update {slot : Nat} {f : Binding → Binding} (stackOf : StackOf mentions s locals)
    (changed : ∀ b, ∀ l ∈ locals.flatten, BindingOf mentions b l → l.slot = slot →
      BindingOf mentions' (f b) l)
    (same : ∀ b, ∀ l ∈ locals.flatten, BindingOf mentions b l → l.slot ≠ slot →
      BindingOf mentions' b l) :
    StackOf mentions' (s.update slot f) locals :=
  { stackOf with scopes := stackOf.scopes.update stackOf.laid.distinct changed same }

theorem markInitialized (stackOf : StackOf mentions s locals) (slot : Nat) :
    StackOf mentions (s.markInitialized slot) locals :=
  stackOf.update (fun _ _ _ bindingOf _ => ⟨bindingOf.slot, bindingOf.name, bindingOf.captured⟩)
    fun _ _ _ bindingOf _ => bindingOf

theorem markCaptured (stackOf : StackOf mentions s locals) {l : Local}
    (member : l ∈ locals.flatten) :
    StackOf (mentions ++ [l]) (s.markCaptured l.slot) locals := by
  refine stackOf.update (fun b l' member' bindingOf there => ?_)
    fun b l' member' bindingOf elsewhere => ?_
  · -- Only this variable has the slot.
    have found := stackOf.laid.find?_slot member'
    rw [there, stackOf.laid.find?_slot member] at found
    cases found
    exact ⟨bindingOf.slot, bindingOf.name, by simp⟩
  · have other : l' ≠ l := fun same => elsewhere (congrArg Local.slot same)
    refine ⟨bindingOf.slot, bindingOf.name, ?_⟩
    rw [bindingOf.captured, mem_append, mem_singleton, or_iff_left other]

/-- **A variable that is declared has the next slot.** -/
theorem allocate {env : Env} (stackOf : StackOf mentions s env.here.scopes) {l : Local}
    {name : String} {mutable hidden : Bool} {slot : Nat} (isSlot : l.slot = env.live.length + 1)
    (isName : l.name = if hidden then none else some name) (fresh : l ∉ mentions)
    (allocated : s.allocate name mutable hidden = .ok (slot, s')) :
    slot = l.slot ∧ StackOf mentions s' (env.declared l).here.scopes ∧
      s.highWater ≤ s'.highWater := by
  obtain ⟨scopes, watermark, highWater⟩ := s
  obtain ⟨⟨isClosure, first, start, locals⟩, outer⟩ := env
  obtain ⟨scopesOf, opened, laid, isWatermark, high, small⟩ := stackOf
  dsimp only at scopesOf opened laid isWatermark high small
  have next : watermark = l.slot := isWatermark.trans isSlot.symm
  unfold ScopeStack.allocate at allocated
  dsimp only at allocated
  split at allocated
  · cases allocated
  · rename_i fits
    unfold maxSlot at fits
    cases allocated
    cases scopesOf with
    | nil => exact (opened rfl).elim
    | @cons scope scopes first others bindings base outer =>
      refine ⟨next, ⟨?_, ?_, ?_, ?_, ?_, ?_⟩, Nat.le_max_left _ _⟩
      · exact .cons (.cons ⟨next, isName, by simp [fresh]⟩ bindings) base outer
      · simp [Env.declared]
      · exact ⟨isSlot, laid⟩
      · refine (congrArg (· + 1) isWatermark).trans ?_
        simp [Env.declared]
      · exact Nat.le_max_right _ _
      · exact Nat.max_le.2 ⟨small, by omega⟩

end StackOf

end StackCode
