import StackCode.Proofs.SlotAllocation

/-!
# Scopes that declarations open

Where the outermost scope of a function was closed, a declaration opens another one in its place.
That one begins behind the slot of the variable it was opened for, so this slot is dropped and not
handed back when it ends. All other scopes hand back exactly what they drop.
-/

namespace StackCode

open List

namespace ScopeStack

variable {s : ScopeStack} {low : Nat} {was : Bool}

/-- Whether a declaration opened the outermost scope behind some operations; `was` says it of the
scopes that they start with. -/
def reopened (s : ScopeStack) (was : Bool) : List ScopeOp → Bool
  | [] => was
  | op :: ops => (s.step op).reopened (if s.scopes = [] then op != .enter else was) ops

/-- Where no scope is open, a scope that is entered begins at the next free slot, and one that is
opened for a variable begins behind it. -/
theorem stacked_reopen (none : s.scopes = []) (op : ScopeOp) :
    ∃ low, Stacked low (op != .enter).toNat (s.step op).watermark (s.step op).scopes := by
  obtain ⟨scopes, watermark, highWater⟩ := s
  obtain rfl : scopes = [] := none
  refine ⟨watermark, ?_⟩
  by_cases opens : op = .enter
  · subst opens
    exact ⟨watermark, rfl, rfl, rfl, rfl, Nat.le_refl _⟩
  by_cases closes : op = .exit
  · subst closes
    rfl
  rw [bne_iff_ne.2 opens]
  rcases step_cases _ opens closes with same | ⟨slot, f, -, marked⟩ | ⟨name, mutable, hidden, made⟩
  · rw [same]
    rfl
  · rw [marked]
    rfl
  · generalize step _ op = s' at made
    unfold allocate at made
    dsimp only at made
    split at made
    · cases made
    · cases made
      exact ⟨watermark, rfl, rfl, rfl, rfl, Nat.le_refl _⟩

theorem stacked_run (stacked : Stacked low was.toNat s.watermark s.scopes) (ops : List ScopeOp) :
    ∃ low, Stacked low (s.reopened was ops).toNat (s.run ops).watermark (s.run ops).scopes := by
  induction ops generalizing s low was with
  | nil => exact ⟨low, stacked⟩
  | cons op ops ih =>
    obtain ⟨low', stacked'⟩ :
      ∃ low', Stacked low' (if s.scopes = [] then op != .enter else was).toNat
        (s.step op).watermark (s.step op).scopes := by
      split
      · next none => exact stacked_reopen none op
      · next opened =>
        by_cases closesLast : op = .exit ∧ s.scopes.length = 1
        · obtain ⟨scope, isScopes⟩ := length_eq_one_iff.1 closesLast.2
          refine ⟨(s.step op).watermark, ?_⟩
          rw [closesLast.1, step, exit, isScopes]
          rfl
        · refine ⟨low, stacked_step stacked opened fun isExit => ?_⟩
          have several : s.scopes.length ≠ 1 := fun one => closesLast ⟨isExit, one⟩
          have := length_pos_of_ne_nil opened
          omega
    exact ih stacked'

/-- **A scope hands back the slots that it drops, unless a declaration opened it** while no scope
was open: then it keeps its first slot back. The slots that it names as captured are those of the
captured variables that it drops, and the next variable gets the first slot that was handed back. -/
theorem released_eq_dropped_iff (ops : List ScopeOp) :
    let s := new.run ops
    let released := s.exit.1
    ∃ dropped, s.live = s.exit.2.live ++ dropped ∧
      released.captured = (dropped.filter Binding.captured).map Binding.slot ∧
      (dropped.map Binding.slot = range' released.start (released.stop - released.start) ↔
        ¬(s.scopes.length = 1 ∧ new.reopened false ops)) ∧
      (s.scopes.length = 1 ∧ new.reopened false ops →
        dropped.map Binding.slot = (released.start - 1) :: range' released.start
          (released.stop - released.start)) ∧
      (∀ name mutable slot after, s.exit.2.declare name mutable = .ok (slot, after) →
        slot = released.start) ∧
      ∀ purpose slot after, s.exit.2.declareHidden purpose = .ok (slot, after) →
        slot = released.start := by
  intro s released
  obtain ⟨low, stacked⟩ := @stacked_run new 1 false ⟨1, rfl, rfl, rfl, rfl, Nat.le_refl 1⟩ ops
  obtain ⟨dropped, start, live, slots, captured, isStart, bound, -⟩ := exit_drops stacked
  change released.start = _ at isStart
  change released.start ≤ released.stop at bound
  change dropped.map Binding.slot = range' start (released.stop - start) at slots
  have whole (keeps : s.scopes.length = 1 ∧ new.reopened false ops) :
      dropped.map Binding.slot = (released.start - 1) :: range' released.start
        (released.stop - released.start) := by
    rw [if_pos keeps.1, keeps.2] at isStart
    change released.start = start + 1 at isStart
    rw [slots, isStart, Nat.add_sub_cancel, ← range'_succ]
    congr 1
    omega
  refine ⟨dropped, live, captured, ⟨fun isExact keeps => ?_, fun loses => ?_⟩, whole,
    fun name mutable slot after declared => ?_, fun purpose slot after declared => ?_⟩
  · have := congrArg length ((whole keeps).symm.trans isExact)
    simp at this
  · obtain rfl : released.start = start := by
      rw [isStart]
      split
      · next one => simp [Bool.eq_false_iff.2 fun reopened => loses ⟨one, reopened⟩]
      · rfl
    exact slots
  · rw [declare_eq] at declared
    split at declared
    · cases declared
    · rw [slot_allocate declared, watermark_exit]
  · rw [slot_allocate declared, watermark_exit]

/-- Not all scopes hand back what they drop: one that is opened for a captured variable drops the
slot of the variable, names it as captured, and hands back nothing. -/
theorem not_always_released :
    ¬∀ ops : List ScopeOp, let s := new.run ops
      ∀ dropped, s.live = s.exit.2.live ++ dropped →
        dropped.map Binding.slot = range' s.exit.1.start (s.exit.1.stop - s.exit.1.start) ∧
          ∀ slot ∈ s.exit.1.captured, s.exit.1.start ≤ slot ∧ slot < s.exit.1.stop := by
  intro always
  have released := always [.exit, .declare "a" true, .markCaptured 1] _ rfl
  exact absurd released.1 (by decide)

end ScopeStack

end StackCode
