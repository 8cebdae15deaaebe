import Mathlib.Data.List.Forall2
import StackCode.Scope.Stack

/-!
# What becomes of scopes

A variable of a scope may be marked: as having a value, or as captured. Apart from marks, and from
variables that are declared in the innermost scope, scopes stay as they are while code is compiled
in them, and a scope that is closed leaves those around it as they were when it was opened.
-/

namespace StackCode

/-! ## Marks -/

/-- A variable without its marks. -/
def Binding.shape (b : Binding) : Binding := { b with initialized := false, captured := false }

/-- A variable is the same, and may have been marked. -/
structure Binding.Raised (b b' : Binding) : Prop where
  shape : b'.shape = b.shape
  initialized : b.initialized = true → b'.initialized = true
  captured : b.captured = true → b'.captured = true

/-- Bindings of a scope are marked. -/
structure Scope.Raised (scope scope' : Scope) : Prop where
  base : scope'.base = scope.base
  bindings : List.Forall₂ Binding.Raised scope.bindings scope'.bindings

theorem forall₂_trans {α : Type} {R : α → α → Prop} (trans : ∀ {a b c}, R a b → R b c → R a c)
    {as bs cs : List α} (first : List.Forall₂ R as bs) (second : List.Forall₂ R bs cs) :
    List.Forall₂ R as cs := by
  induction first generalizing cs with
  | nil => exact second
  | cons head _ ih =>
    cases second with
    | cons head' tail' => exact .cons (trans head head') (ih tail')

theorem rel_find? {α β : Type} {R : α → β → Prop} {p : α → Bool} {q : β → Bool}
    (same : ∀ {a b}, R a b → p a = q b) {as : List α} {bs : List β} (each : List.Forall₂ R as bs) :
    Option.Rel R (as.find? p) (bs.find? q) := by
  induction each with
  | nil => exact .none
  | cons first _ ih =>
    rw [List.find?_cons, List.find?_cons, same first]
    split
    · exact .some first
    · exact ih

instance : Std.Refl Binding.Raised := ⟨fun _ => ⟨rfl, id, id⟩⟩

theorem Binding.Raised.slot {b b' : Binding} (raised : b.Raised b') : b'.slot = b.slot :=
  (congrArg Binding.slot raised.shape : b'.shape.slot = b.shape.slot)

instance : Std.Refl Scope.Raised := ⟨fun _ => ⟨rfl, List.forall₂_refl _⟩⟩

theorem Binding.Raised.trans {b b' b'' : Binding} (first : b.Raised b') (second : b'.Raised b'') :
    b.Raised b'' :=
  ⟨second.shape.trans first.shape, second.initialized ∘ first.initialized,
    second.captured ∘ first.captured⟩

theorem Scope.Raised.trans {scope scope' scope'' : Scope} (first : scope.Raised scope')
    (second : scope'.Raised scope'') : scope.Raised scope'' :=
  ⟨second.base.trans first.base, forall₂_trans .trans first.bindings second.bindings⟩

namespace ScopeStack

theorem updateScopes_raised {f : Binding → Binding} (raises : ∀ b : Binding, b.Raised (f b))
    (slot : Nat) (scopes : List Scope) :
    List.Forall₂ Scope.Raised scopes (updateScopes slot f scopes) := by
  have each (bindings : List Binding) : ∀ updated ∈ updateBinding slot f bindings,
      List.Forall₂ Binding.Raised bindings updated := by
    induction bindings with
    | nil => simp [updateBinding]
    | cons b rest ih =>
      rw [updateBinding]
      split
      · rintro _ ⟨⟩
        exact .cons (raises b) (List.forall₂_refl rest)
      · intro updated isUpdated
        obtain ⟨others, isOthers, rfl⟩ := Option.map_eq_some_iff.1 isUpdated
        exact .cons (Std.Refl.refl b) (ih others isOthers)
  induction scopes with
  | nil => exact .nil
  | cons scope outer ih =>
    rw [updateScopes]
    split
    · rename_i updated isUpdated
      exact .cons ⟨rfl, each _ _ isUpdated⟩ (List.forall₂_refl outer)
    · exact .cons (Std.Refl.refl scope) ih

section Distinct

variable {slot : Nat} {f : Binding → Binding}

/-- The variable with a slot is changed, and the others are not. -/
def changeAt (slot : Nat) (f : Binding → Binding) (b : Binding) : Binding :=
  if b.slot = slot then f b else b

theorem map_changeAt {bindings : List Binding} (absent : slot ∉ bindings.map Binding.slot) :
    bindings.map (changeAt slot f) = bindings := by
  refine (List.map_congr_left fun b member => if_neg fun here => absent ?_).trans bindings.map_id
  exact here ▸ List.mem_map_of_mem member

theorem updateBinding_eq {bindings : List Binding} (distinct : (bindings.map Binding.slot).Nodup) :
    updateBinding slot f bindings =
      if slot ∈ bindings.map Binding.slot then some (bindings.map (changeAt slot f)) else none := by
  induction bindings with
  | nil => rfl
  | cons b rest ih =>
    obtain ⟨apart, others⟩ := List.nodup_cons.1 distinct
    rw [updateBinding, ih others, List.map_cons, List.map_cons, changeAt]
    by_cases here : b.slot = slot
    · rw [here] at apart
      simp [here, map_changeAt apart]
    · by_cases later : slot ∈ rest.map Binding.slot <;> simp [here, Ne.symm here, later]

/-- If slots are distinct, the first variable with a slot is the only one. -/
theorem updateScopes_eq_map {scopes : List Scope}
    (distinct : ((scopes.flatMap Scope.bindings).map Binding.slot).Nodup) :
    updateScopes slot f scopes =
      scopes.map fun scope => { scope with bindings := scope.bindings.map (changeAt slot f) } := by
  induction scopes with
  | nil => rfl
  | cons scope outer ih =>
    rw [List.flatMap_cons, List.map_append, List.nodup_append] at distinct
    obtain ⟨inner, others, apart⟩ := distinct
    rw [updateScopes, updateBinding_eq inner, List.map_cons]
    by_cases here : slot ∈ scope.bindings.map Binding.slot
    · rw [if_pos here]
      refine congrArg _ ((List.map_congr_left fun scope' member => ?_).trans outer.map_id).symm
      rw [map_changeAt fun there => ?_]
      · rfl
      · obtain ⟨b, isB, same⟩ := List.mem_map.1 there
        exact apart slot here _ (List.mem_map_of_mem (List.mem_flatMap_of_mem member isB)) same.symm
    · rw [if_neg here, ih others, map_changeAt here]

end Distinct

/-! ## What becomes of scopes -/

/-- What becomes of the scopes of a function. Only a declaration adds to the innermost one. -/
structure Moves (declares : Bool) (s s' : ScopeStack) : Prop where
  highWater : s.highWater ≤ s'.highWater
  outer : ∀ scope outer, s.scopes = scope :: outer → ∃ scope' outer',
    s'.scopes = scope' :: outer' ∧ scope'.base = scope.base ∧ List.Forall₂ Scope.Raised outer outer'
  same : declares = false →
    List.Forall₂ Scope.Raised s.scopes s'.scopes ∧ s'.watermark = s.watermark

namespace Moves

variable {declares : Bool} {s s' s'' : ScopeStack}

theorem of_raised (raised : List.Forall₂ Scope.Raised s.scopes s'.scopes)
    (watermark : s'.watermark = s.watermark) (highWater : s.highWater ≤ s'.highWater) :
    s.Moves declares s' where
  highWater := highWater
  outer scope outer isScopes := by
    rw [isScopes] at raised
    generalize s'.scopes = scopes' at raised ⊢
    cases raised with
    | cons head tail => exact ⟨_, _, rfl, head.base, tail⟩
  same _ := ⟨raised, watermark⟩

theorem refl (s : ScopeStack) : s.Moves declares s :=
  of_raised (List.forall₂_refl _) rfl (Nat.le_refl _)

theorem trans (first : s.Moves declares s') (second : s'.Moves declares s'') :
    s.Moves declares s'' where
  highWater := Nat.le_trans first.highWater second.highWater
  outer scope outer isScopes := by
    obtain ⟨scope', outer', isScopes', base, raised⟩ := first.outer scope outer isScopes
    obtain ⟨scope'', outer'', isScopes'', base', raised'⟩ := second.outer _ _ isScopes'
    exact ⟨scope'', outer'', isScopes'', base'.trans base, forall₂_trans .trans raised raised'⟩
  same still := by
    obtain ⟨raised, watermark⟩ := first.same still
    obtain ⟨raised', watermark'⟩ := second.same still
    exact ⟨forall₂_trans .trans raised raised', watermark'.trans watermark⟩

theorem weaken (still : s.Moves false s') : s.Moves declares s' :=
  of_raised (still.same rfl).1 (still.same rfl).2 still.highWater

theorem update {f : Binding → Binding} (raises : ∀ b : Binding, b.Raised (f b)) (s : ScopeStack)
    (slot : Nat) : s.Moves declares (s.update slot f) :=
  of_raised (updateScopes_raised raises slot _) rfl (Nat.le_refl _)

theorem markInitialized (s : ScopeStack) (slot : Nat) : s.Moves declares (s.markInitialized slot) :=
  update (f := fun b => { b with initialized := true }) (fun _ => ⟨rfl, fun _ => rfl, id⟩) s slot

theorem markCaptured (s : ScopeStack) (slot : Nat) : s.Moves declares (s.markCaptured slot) :=
  update (f := fun b => { b with captured := true }) (fun _ => ⟨rfl, id, fun _ => rfl⟩) s slot

theorem allocate {name : String} {mutable hidden : Bool} {slot : Nat}
    (allocated : s.allocate name mutable hidden = .ok (slot, s')) : s.Moves true s' := by
  unfold ScopeStack.allocate at allocated
  dsimp only at allocated
  split at allocated
  · cases allocated
  · cases allocated
    refine ⟨Nat.le_max_left _ _, fun scope outer isScopes => ?_, fun never =>
      Bool.noConfusion never⟩
    rw [isScopes]
    exact ⟨_, outer, rfl, rfl, List.forall₂_refl outer⟩

theorem declare {name : String} {mutable : Bool} {slot : Nat}
    (declared : s.declare name mutable = .ok (slot, s')) : s.Moves true s' := by
  unfold ScopeStack.declare at declared
  split at declared
  · exact allocate declared
  · split at declared
    · cases declared
    · exact allocate declared

/-- A name denotes the same variable while nothing is declared. -/
theorem lookup? (moves : s.Moves false s') (name : String) :
    Option.Rel Binding.Raised (s.lookup? name) (s'.lookup? name) := by
  have raised : List.Forall₂ Binding.Raised (s.scopes.flatMap Scope.bindings)
      (s'.scopes.flatMap Scope.bindings) :=
    List.rel_flatMap (moves.same rfl).1 fun _ _ scope => scope.bindings
  unfold ScopeStack.lookup?
  rw [← List.find?_flatMap, ← List.find?_flatMap]
  exact rel_find? (fun {b b'} same =>
    (congrArg (·.answersTo name) same.shape : b'.shape.answersTo name =
      b.shape.answersTo name).symm) raised

theorem inside (inner : s.enter.Moves true s') :
    s.Moves declares s'.exit.2 ∧ s'.exit.1.start = s.watermark := by
  obtain ⟨scope, outer, isScopes, base, raised⟩ := inner.outer _ _ rfl
  rw [exit, isScopes]
  exact ⟨of_raised raised base inner.highWater, base⟩

end Moves

end ScopeStack

end StackCode
