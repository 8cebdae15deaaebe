import StackCode.Proofs.Ensures
import StackCode.Proofs.Legality
import StackCode.Proofs.SlotAllocation

/-!
# Slots of parameters

A function begins with a scope of its own, which has no variables. A parameter is declared there
unless its name was seen before, and then it gets a slot that no name denotes. So a parameter is
left without a slot only if the function runs out of them.
-/

namespace StackCode

/-- All names that are declared were seen before. -/
def ScopeStack.Within (s : ScopeStack) (seen : NameTable) : Prop :=
  ∀ name, s.lookup? name ≠ none → seen.contains name = true

namespace ScopeStack.Within

variable {s s' : ScopeStack} {seen : NameTable} {name : String}

theorem markInitialized (within : s.Within seen) (slot : Nat) :
    (s.markInitialized slot).Within seen := by
  intro name found
  refine within name fun unknown => found ?_
  have same := (Moves.markInitialized s slot : s.Moves false _).lookup? name
  rw [unknown] at same
  generalize (s.markInitialized slot).lookup? name = found' at same
  cases same
  rfl

theorem allocate (within : s.Within seen) (name : String) (mutable hidden : Bool) :
    s.allocate name mutable hidden = .error .tooManyLocals ∨ ∃ slot s',
      s.allocate name mutable hidden = .ok (slot, s') ∧ s'.Within (seen.insert name) := by
  unfold ScopeStack.allocate
  dsimp only
  split
  · exact .inl rfl
  · refine .inr ⟨_, _, rfl, fun n found => NameTable.contains_insert.2 ?_⟩
    by_cases same : n = name
    · exact .inl same
    · refine .inr (within n fun unknown => found ?_)
      have other : name ≠ n := fun h => same h.symm
      unfold ScopeStack.lookup? at unknown ⊢
      cases isScopes : s.scopes with
      | nil => simp [Binding.answersTo, other]
      | cons scope outer => simpa [isScopes, Binding.answersTo, other] using unknown

theorem declare_eq (within : s.Within seen) (new : seen.contains name = false) (mutable : Bool) :
    s.declare name mutable = s.allocate name mutable false := by
  rw [ScopeStack.declare_eq]
  refine if_neg fun declared => ?_
  have known := within name
  rw [new] at known
  cases isScopes : s.scopes <;> simp_all [ScopeStack.lookup?]

end ScopeStack.Within

section Parameters

variable (seen : NameTable) (seenOptional : Bool) (param : Parameter)

/-- What is done for a parameter behind its declaration. -/
def Compile.noteParam (slot : Option Nat) : Compile Unit := do
  if let some slot := slot then markInitialized slot
  if param.default.isNone && seenOptional then fail (.requiredAfterOptional param.name) param.span

theorem declareParams_cons (slots : Array (Option Nat)) (rest : List Parameter) :
    declareParams seen seenOptional slots (param :: rest) = (do
      if seen.contains param.name then Compile.fail (.duplicateParameter param.name) param.span
      let slot ←
        if seen.contains param.name then Compile.declareHidden param.name param.span
        else Compile.declareLocal param.name true param.span
      Compile.noteParam seenOptional param slot
      declareParams (seen.insert param.name) (seenOptional || param.default.isSome)
        (slots.push slot)
        rest) := by
  rw [declareParams]
  unfold Compile.noteParam
  cases seen.contains param.name
  · refine bind_congr fun slot => ?_
    cases slot <;> cases param.default.isNone && seenOptional <;> rfl
  · refine bind_congr fun _ => bind_congr fun slot => ?_
    cases slot <;> cases param.default.isNone && seenOptional <;> rfl

theorem noteParam_within {seen : NameTable} (slot : Option Nat) {s : CompileState}
    (within : s.current.scopes.Within seen) :
    (Compile.noteParam seenOptional param slot s).2.current.scopes.Within seen := by
  unfold Compile.noteParam
  cases slot <;> cases param.default.isNone && seenOptional
  · exact within
  · exact within
  · exact within.markInitialized _
  · exact within.markInitialized _

theorem noteParam_full (slot : Option Nat) {s : CompileState} (full : Full s.issues) :
    Full (Compile.noteParam seenOptional param slot s).2.issues := by
  unfold Compile.noteParam
  cases slot <;> cases param.default.isNone && seenOptional
  · exact full
  · exact full.push _
  · exact full
  · exact full.push _

end Parameters

/-- Every parameter gets a slot, unless the function runs out of them. -/
theorem declareParams_placed (params : List Parameter)
    (kept : ∀ seen seenOptional slots params (s : CompileState), Full s.issues →
      Full (declareParams seen seenOptional slots params s).2.issues)
    {seen : NameTable} (seenOptional : Bool) (slots : Array (Option Nat)) {s : CompileState}
    (within : s.current.scopes.Within seen) :
    let made := declareParams seen seenOptional slots params s
    Full made.2.issues ∨ ∃ more, made.1 = slots.toList ++ more ∧ placed params more = params := by
  induction params generalizing seen seenOptional slots s with
  | nil => exact .inr ⟨[], (List.append_nil _).symm, rfl⟩
  | cons param rest ih =>
    -- What is left to do behind the declaration of the parameter.
    have behind (step : ScopeStack → Except Failure (Nat × ScopeStack)) (t : CompileState)
        (mutable hidden : Bool)
        (is : step t.current.scopes = t.current.scopes.allocate param.name mutable hidden)
        (within : t.current.scopes.Within seen) :
        let made := (do
          let slot ← Compile.allocate step param.span
          Compile.noteParam seenOptional param slot
          declareParams (seen.insert param.name) (seenOptional || param.default.isSome)
            (slots.push slot) rest) t
        Full made.2.issues ∨
          ∃ more, made.1 = slots.toList ++ more ∧ placed (param :: rest) more = param :: rest := by
      have run := Ensures.allocate_run step param.span t
      rw [is] at run
      rcases within.allocate param.name mutable hidden with error | ⟨slot, scopes, made, within⟩
      · rw [error] at run
        rw [Ensures.run_bind run]
        refine .inl (kept _ _ _ _ _ (noteParam_full seenOptional param none (s :=
          { t with issues := _ }) ?_))
        exact ⟨_, Array.mem_push_self, rfl⟩
      · rw [made] at run
        rw [Ensures.run_bind run]
        have others := ih (seenOptional || param.default.isSome) (slots.push (some slot))
          (noteParam_within seenOptional param (some slot)
            (s := { t with current := { t.current with scopes := scopes } }) within)
        refine others.imp_right ?_
        rintro ⟨more, made, all⟩
        exact ⟨some slot :: more, made.trans (by simp), by rw [placed, all]⟩
    rw [declareParams_cons]
    cases repeated : seen.contains param.name with
    | true =>
      exact behind (·.declareHidden param.name) { s with issues := s.issues.push _ } false true rfl
        within
    | false =>
      exact behind (·.declare param.name true) s true false (within.declare_eq repeated true) within

end StackCode
