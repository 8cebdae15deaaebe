import Mathlib.Data.List.Induction
import Mathlib.Data.List.Infix
import StackCode.Proofs.ScopeChanges

/-!
# The slots of local variables

The operations on the scopes of a function may come in any order, as long as the outermost scope
stays open. Whatever they are, the live variables have the slots from 1 on, in the order of their
declarations (`Stacked`), and a scope that is closed leaves the scopes around it as they were when
it was opened, apart from marks (`ScopeStack.Moves`).
-/

namespace StackCode

open List

/-! ## Operations -/

/-- An operation on scopes. -/
inductive ScopeOp where
  | enter
  | exit
  | declare (name : String) (mutable : Bool)
  | declareHidden (purpose : String)
  | markInitialized (slot : Nat)
  | markCaptured (slot : Nat)
deriving DecidableEq

namespace ScopeStack

/-- The scopes behind a declaration. -/
def declared (s : ScopeStack) : Except Failure (Nat × ScopeStack) → ScopeStack
  | .ok (_, s') => s'
  | .error _ => s

/-- What an operation does. -/
def step (s : ScopeStack) : ScopeOp → ScopeStack
  | .enter => s.enter
  | .exit => s.exit.2
  | .declare name mutable => s.declared (s.declare name mutable)
  | .declareHidden purpose => s.declared (s.declareHidden purpose)
  | .markInitialized slot => s.markInitialized slot
  | .markCaptured slot => s.markCaptured slot

/-- What some operations do. -/
def run (s : ScopeStack) (ops : List ScopeOp) : ScopeStack := ops.foldl step s

/-- The live variables, outermost first and in the order of their declarations. -/
def live (s : ScopeStack) : List Binding := (s.scopes.flatMap Scope.bindings).reverse

/-- Operations leave the outermost scope of a function open. -/
abbrev KeepsOpen (ops : List ScopeOp) : Prop :=
  ∀ k < ops.length, ops[k]? = some .exit → 1 < (new.run (ops.take k)).scopes.length

end ScopeStack

/-- Operations that close the scopes that they open, and no others. -/
inductive ScopeOp.Balanced : List ScopeOp → Prop where
  | nil : Balanced []
  | plain {op : ScopeOp} {ops : List ScopeOp} (opens : op ≠ .enter) (closes : op ≠ .exit)
      (rest : Balanced ops) : Balanced (op :: ops)
  | nest {inner ops : List ScopeOp} (inside : Balanced inner) (rest : Balanced ops) :
      Balanced (.enter :: inner ++ .exit :: ops)

/-- Scopes that have the slots from `low` on below a mark, each behind those around it. Each hands
back all its slots, but the outermost one keeps its first `kept` ones. -/
def Stacked (low kept : Nat) : Nat → List Scope → Prop
  | top, [] => top = low
  | top, scope :: outer =>
    ∃ start, Stacked low kept start outer ∧ top = start + scope.bindings.length ∧
      scope.bindings.map Binding.slot = (List.range' start scope.bindings.length).reverse ∧
      scope.base = start + (if outer = [] then kept else 0) ∧ scope.base ≤ top

section Stacked

variable {low kept top : Nat} {scopes scopes' : List Scope}

theorem Stacked.slots (stacked : Stacked low kept top scopes) :
    low ≤ top ∧ (scopes.flatMap Scope.bindings).map Binding.slot =
      (range' low (top - low)).reverse := by
  induction scopes generalizing top with
  | nil =>
    cases stacked
    simp
  | cons scope outer ih =>
    obtain ⟨start, around, rfl, slots, -⟩ := stacked
    obtain ⟨least, below⟩ := ih around
    have whole := @range'_append_1 low (start - low) scope.bindings.length
    rw [Nat.add_sub_cancel' least] at whole
    refine ⟨by omega, ?_⟩
    rw [flatMap_cons, map_append, slots, below, ← reverse_append, whole]
    congr 2
    omega

theorem Stacked.raised (stacked : Stacked low kept top scopes)
    (raised : Forall₂ Scope.Raised scopes scopes') :
    Stacked low kept top scopes' := by
  induction raised generalizing top with
  | nil => exact stacked
  | cons head tail ih =>
    obtain ⟨start, around, isTop, slots, base, bound⟩ := stacked
    refine ⟨start, ih around, ?_, ?_, ?_, head.base ▸ bound⟩
    · rw [← head.bindings.length_eq, isTop]
    · rw [← head.bindings.length_eq, ← slots]
      refine (forall₂_eq_eq_eq ▸ forall₂_map_left_iff.2 (forall₂_map_right_iff.2 ?_)).symm
      exact head.bindings.imp fun _ _ same => same.slot.symm
    · rw [head.base, base]
      cases tail <;> rfl

end Stacked

namespace ScopeStack

variable {s s' : ScopeStack}

/-! ## Steps -/

theorem declare_eq (s : ScopeStack) (name : String) (mutable : Bool) :
    s.declare name mutable = if s.scopes.head?.any (·.bindings.any (·.answersTo name)) then
      .error (.redeclaredLocal name) else s.allocate name mutable false := by
  unfold declare
  cases s.scopes <;> rfl

theorem slot_allocate {name : String} {mutable hidden : Bool} {slot : Nat}
    (made : s.allocate name mutable hidden = .ok (slot, s')) : slot = s.watermark := by
  unfold allocate at made
  dsimp only at made
  split at made <;> cases made
  rfl

/-- An operation inside a scope changes nothing, marks a variable, or adds one with the next free
slot. -/
theorem step_cases (s : ScopeStack) {op : ScopeOp} (opens : op ≠ .enter) (closes : op ≠ .exit) :
    s.step op = s ∨
      (∃ slot f, (∀ b : Binding, b.Raised (f b)) ∧ s.step op = s.update slot f) ∨
      ∃ name mutable hidden, s.allocate name mutable hidden = .ok (s.watermark, s.step op) := by
  have allocated (name : String) (mutable hidden : Bool) :
      s.declared (s.allocate name mutable hidden) = s ∨
        s.allocate name mutable hidden =
          .ok (s.watermark, s.declared (s.allocate name mutable hidden)) := by
    unfold allocate
    dsimp only
    split
    · exact .inl rfl
    · exact .inr rfl
  cases op with
  | enter => exact (opens rfl).elim
  | exit => exact (closes rfl).elim
  | declare name mutable =>
    rw [step, declare_eq]
    split
    · exact .inl rfl
    · exact (allocated name mutable false).imp_right fun made => .inr ⟨_, _, _, made⟩
  | declareHidden purpose =>
    exact (allocated purpose false true).imp_right fun made => .inr ⟨_, _, _, made⟩
  | markInitialized slot =>
    exact .inr (.inl ⟨slot, fun b => { b with initialized := true }, fun _ =>
      ⟨rfl, fun _ => rfl, id⟩, rfl⟩)
  | markCaptured slot =>
    exact .inr (.inl ⟨slot, fun b => { b with captured := true }, fun _ =>
      ⟨rfl, id, fun _ => rfl⟩, rfl⟩)

theorem run_nest (s : ScopeStack) (inner ops : List ScopeOp) :
    s.run (.enter :: inner ++ .exit :: ops) = (s.enter.run inner).exit.2.run ops := by
  simp [ScopeStack.run, ScopeStack.step]

theorem Moves.step {op : ScopeOp} (opens : op ≠ .enter) (closes : op ≠ .exit) :
    s.Moves true (s.step op) := by
  rcases s.step_cases opens closes with same | ⟨slot, f, raises, marked⟩ | ⟨_, _, _, made⟩
  · rw [same]
    exact .refl s
  · rw [marked]
    exact .update raises s slot
  · exact .allocate made

theorem Moves.run {ops : List ScopeOp} (balanced : ScopeOp.Balanced ops) :
    s.Moves true (s.run ops) := by
  induction balanced generalizing s with
  | nil => exact .refl s
  | plain opens closes _ ih => exact (Moves.step opens closes).trans ih
  | @nest inner ops _ _ ihInner ih =>
    rw [run_nest]
    exact (Moves.inside ihInner).1.trans ih

theorem stacked_step {low kept : Nat} (stacked : Stacked low kept s.watermark s.scopes)
    (opened : s.scopes ≠ [])
    {op : ScopeOp} (inside : op = .exit → 1 < s.scopes.length) :
    Stacked low kept (s.step op).watermark (s.step op).scopes := by
  by_cases opens : op = .enter
  · subst opens
    exact ⟨s.watermark, stacked, rfl, rfl, by rw [if_neg opened]; rfl, Nat.le_refl _⟩
  by_cases closes : op = .exit
  · subst closes
    obtain ⟨scopes, watermark, highWater⟩ := s
    match scopes, stacked, inside rfl with
    | scope :: next :: outer, ⟨start, around, _, _, base, _⟩, _ =>
      show Stacked low kept scope.base (next :: outer)
      rw [base]
      exact around
  rcases s.step_cases opens closes with same | ⟨slot, f, raises, marked⟩ | ⟨name, mutable,
    hidden, made⟩
  · rwa [same]
  · rw [marked]
    exact stacked.raised (updateScopes_raised raises slot s.scopes)
  · obtain ⟨scopes, watermark, highWater⟩ := s
    generalize step _ op = s' at made
    unfold allocate at made
    dsimp only at made
    split at made
    · cases made
    · cases made
      cases scopes with
      | nil => exact (opened rfl).elim
      | cons scope outer =>
        obtain ⟨start, around, isTop, slots, base, bound⟩ := stacked
        dsimp only at isTop bound
        refine ⟨start, around, ?_, ?_, base, Nat.le_succ_of_le bound⟩
        · simp only [length_cons]
          omega
        · simp only [map_cons, length_cons, slots, range'_1_concat, reverse_append,
            reverse_singleton,
            singleton_append, isTop]

/-- What the innermost scope drops, and where the slots that it hands back begin. -/
theorem exit_drops {low kept : Nat} (stacked : Stacked low kept s.watermark s.scopes) :
    ∃ dropped start, s.live = s.exit.2.live ++ dropped ∧
      dropped.map Binding.slot = range' start (s.exit.1.stop - start) ∧
      s.exit.1.captured = (dropped.filter Binding.captured).map Binding.slot ∧
      s.exit.1.start = start + (if s.scopes.length = 1 then kept else 0) ∧
      s.exit.1.start ≤ s.exit.1.stop ∧ s.exit.1.stop = s.watermark := by
  obtain ⟨scopes, watermark, highWater⟩ := s
  cases scopes with
  | nil => exact ⟨[], watermark, (append_nil _).symm, by simp [ScopeStack.exit], rfl, rfl,
      Nat.le_refl _, rfl⟩
  | cons scope outer =>
    obtain ⟨start, around, isTop, slots, base, bound⟩ := stacked
    dsimp only at isTop
    refine ⟨scope.bindings.reverse, start, by simp [live, ScopeStack.exit], ?_, ?_, ?_, bound, rfl⟩
    · rw [map_reverse, slots, reverse_reverse]
      show _ = range' start (watermark - start)
      rw [isTop, Nat.add_sub_cancel_left]
    · rw [filter_reverse, map_reverse]
      rfl
    · show scope.base = _
      simpa using base

theorem watermark_exit (s : ScopeStack) : s.exit.2.watermark = s.exit.1.start := by
  unfold exit
  cases s.scopes <;> rfl

/-- The slots below the watermark are in use, and the outermost scope is open. -/
structure Sound (s : ScopeStack) : Prop where
  opened : s.scopes ≠ []
  stacked : Stacked 1 0 s.watermark s.scopes
  highWater : s.watermark ≤ s.highWater

theorem Sound.slots (sound : s.Sound) : s.live.map Binding.slot = range' 1 (s.watermark - 1) := by
  rw [live, map_reverse, sound.stacked.slots.2, reverse_reverse]

theorem Sound.length_live (sound : s.Sound) : s.live.length = s.watermark - 1 := by
  rw [← length_map (f := Binding.slot), sound.slots, length_range']

theorem Sound.exit (sound : s.Sound) :
    ∃ dropped, s.live = s.exit.2.live ++ dropped ∧
      dropped.map Binding.slot = range' s.exit.1.start (s.exit.1.stop - s.exit.1.start) ∧
      s.exit.1.captured = (dropped.filter Binding.captured).map Binding.slot := by
  obtain ⟨dropped, start, live, slots, captured, isStart, -⟩ := exit_drops sound.stacked
  obtain rfl : s.exit.1.start = start := by simpa using isStart
  exact ⟨dropped, live, slots, captured⟩

theorem Sound.step (sound : s.Sound) {op : ScopeOp} (inside : op = .exit → 1 < s.scopes.length) :
    (s.step op).Sound ∧ (s.step op).highWater = max s.highWater (s.step op).watermark := by
  have stacked := stacked_step sound.stacked sound.opened inside
  have low := sound.highWater
  by_cases opens : op = .enter
  · subst opens
    exact ⟨⟨cons_ne_nil _ _, stacked, low⟩, (Nat.max_eq_left low).symm⟩
  by_cases closes : op = .exit
  · subst closes
    obtain ⟨_, _, -, -, -, -, bound, stop⟩ := exit_drops sound.stacked
    have lower : s.exit.2.watermark ≤ s.highWater := by
      rw [watermark_exit]
      omega
    have high : s.exit.2.highWater = s.highWater ∧ s.exit.2.scopes = s.scopes.tail := by
      obtain ⟨scopes, watermark, highWater⟩ := s
      cases scopes <;> exact ⟨rfl, rfl⟩
    refine ⟨⟨ne_nil_of_length_pos ?_, stacked, Nat.le_trans lower (Nat.le_of_eq high.1.symm)⟩,
      high.1.trans (Nat.max_eq_left lower).symm⟩
    show 0 < s.exit.2.scopes.length
    have := inside rfl
    rw [high.2, length_tail]
    omega
  obtain ⟨scope, outer, isScopes⟩ := exists_cons_of_ne_nil sound.opened
  obtain ⟨_, _, isScopes', -⟩ := (Moves.step opens closes).outer scope outer isScopes
  have opened : (s.step op).scopes ≠ [] := isScopes' ▸ cons_ne_nil _ _
  rcases s.step_cases opens closes with same | ⟨slot, f, -, marked⟩ | ⟨name, mutable, hidden, made⟩
  · rw [same]
    exact ⟨sound, (Nat.max_eq_left low).symm⟩
  · have high : (s.step op).highWater = s.highWater ∧ (s.step op).watermark = s.watermark :=
      marked ▸ ⟨rfl, rfl⟩
    rw [high.1, high.2, Nat.max_eq_left low]
    exact ⟨⟨opened, stacked, by omega⟩, rfl⟩
  · have high : (s.step op).highWater = max s.highWater (s.step op).watermark := by
      unfold allocate at made
      dsimp only at made
      split at made
      · cases made
      · injection made with made
        injection made with _ made
        rw [← made]
    exact ⟨⟨opened, stacked, high ▸ Nat.le_max_right _ _⟩, high⟩

theorem Sound.enter (sound : s.Sound) : s.enter.Sound := (@Sound.step _ sound .enter nofun).1

/-! ## Runs -/

theorem Sound.run {ops : List ScopeOp} (balanced : ScopeOp.Balanced ops) (sound : s.Sound) :
    (s.run ops).Sound := by
  induction balanced generalizing s with
  | nil => exact sound
  | plain opens closes _ ih => exact ih (sound.step fun isExit => (closes isExit).elim).1
  | @nest inner ops inside _ ihInner ih =>
    rw [run_nest]
    refine ih (@Sound.step _ (ihInner sound.enter) .exit fun _ => ?_).1
    obtain ⟨scope, outer, isScopes, -, raised⟩ :=
      (Moves.run inside).outer _ _ (rfl : s.enter.scopes = _)
    rw [isScopes, length_cons, ← raised.length_eq]
    have := length_pos_of_ne_nil sound.opened
    omega

theorem lookup?_eq_getLast? (s : ScopeStack) (name : String) :
    s.lookup? name = (s.live.filter (·.answersTo name)).getLast? := by
  rw [live, filter_reverse, List.getLast?_reverse, List.head?_filter, List.find?_flatMap]
  rfl

/-- Operations that leave the outermost scope open keep the slots in order, and the count of local
variables is the greatest number of live ones. -/
theorem Sound.new_run {ops : List ScopeOp} (keeps : KeepsOpen ops) :
    (new.run ops).Sound ∧
      (∀ before, before <+: ops → (new.run before).live.length ≤ (new.run ops).localCount) ∧
      ∃ before, before <+: ops ∧ (new.run before).live.length = (new.run ops).localCount := by
  induction ops using List.reverseRecOn with
  | nil =>
    refine ⟨⟨by decide, ⟨1, rfl, rfl, rfl, rfl, Nat.le_refl 1⟩, by decide⟩, fun before isBefore =>
      ?_, [], prefix_rfl, rfl⟩
    cases prefix_nil.1 isBefore
    exact Nat.le_refl _
  | append_singleton ops op ih =>
    obtain ⟨sound, bound, most, isMost, reached⟩ := ih fun k less isExit => by
      have open_ := keeps k (by simp; omega) (by rwa [List.getElem?_append_left less])
      rwa [take_append_of_le_length (Nat.le_of_lt less)] at open_
    have last : new.run (ops ++ [op]) = (new.run ops).step op := foldl_append
    obtain ⟨isSound, high⟩ := @Sound.step _ sound op fun isExit => by
      simpa [isExit] using keeps ops.length (by simp)
    rw [← last] at isSound high
    have now := isSound.length_live
    unfold localCount at bound reached ⊢
    refine ⟨isSound, fun before isBefore => ?_, ?_⟩
    · rcases prefix_concat_iff.1 isBefore with rfl | earlier
      · omega
      · have := bound before earlier
        omega
    · by_cases more : (new.run ops).highWater < (new.run (ops ++ [op])).watermark
      · exact ⟨_, prefix_rfl, by omega⟩
      · exact ⟨most, isMost.trans (prefix_append _ _), by omega⟩

/-- **Slots are given out soundly and tightly**, whatever the operations are, as long as the
outermost scope stays open. The live variables have the slots from 1 on in order; a name denotes the
last live variable of that name; a declaration that fails changes nothing. A scope that is closed
hands back the slots of its own variables, names the captured ones in the order of declaration, and
leaves the scopes around it and the next free slot as they were when it was opened, apart from
marks, so that another scope in its place gets the same slots. The count of local variables is the
greatest number of variables that were ever live at once. -/
theorem slots_allocated (ops : List ScopeOp) (keeps : KeepsOpen ops) :
    let s := new.run ops
    s.live.map Binding.slot = range' 1 (s.watermark - 1) ∧
      (∀ name, s.lookup? name = (s.live.filter (·.answersTo name)).getLast?) ∧
      (∀ name mutable failure, s.declare name mutable = .error failure →
        s.step (.declare name mutable) = s) ∧
      (∀ inner, ScopeOp.Balanced inner →
        let inside := s.enter.run inner
        let released := inside.exit.1
        let after := inside.exit.2
        (∃ dropped, inside.live = after.live ++ dropped ∧
          dropped.map Binding.slot = range' released.start (released.stop - released.start) ∧
          released.captured = (dropped.filter Binding.captured).map Binding.slot) ∧
        Forall₂ Scope.Raised s.scopes after.scopes ∧ after.watermark = s.watermark ∧
        ∀ name mutable slot sibling, after.enter.declare name mutable = .ok (slot, sibling) →
          slot = released.start) ∧
      (∀ before, before <+: ops → (new.run before).live.length ≤ s.localCount) ∧
      ∃ before, before <+: ops ∧ (new.run before).live.length = s.localCount := by
  intro s
  obtain ⟨sound, bound, reached⟩ := Sound.new_run keeps
  refine ⟨sound.slots, s.lookup?_eq_getLast?, fun name mutable failure failed =>
    ?_, fun inner balanced => ?_,
    bound, reached⟩
  · show s.declared (s.declare name mutable) = s
    rw [failed]
    rfl
  · obtain ⟨dropped, live, slots, captured⟩ := (Sound.run balanced sound.enter).exit
    obtain ⟨moves, start⟩ := @Moves.inside false _ _ (Moves.run balanced)
    obtain ⟨raised, watermark⟩ := moves.same rfl
    refine ⟨⟨dropped, live, slots, captured⟩, raised, watermark,
      fun name mutable slot sibling declared => ?_⟩
    rw [declare_eq] at declared
    split at declared
    · cases declared
    · rw [slot_allocate declared, start]
      exact watermark

/-- A scope in which a variable is shadowed and captured, behind one that is closed. -/
theorem slots_allocated_shadowed :
    let ops : List ScopeOp := [.declare "a" true, .enter, .declare "b" true, .exit]
    let inner : List ScopeOp := [.declare "a" false, .declareHidden "subject", .markCaptured 2]
    let inside := (new.run ops).enter.run inner
    KeepsOpen ops ∧ inside.exit.1 = ⟨2, 4, [2]⟩ ∧ (inside.lookup? "a").map Binding.slot = some 2 ∧
      (inside.exit.2.lookup? "a").map Binding.slot = some 1 ∧
      Forall₂ Scope.Raised (new.run ops).scopes inside.exit.2.scopes := by
  intro ops inner inside
  have balanced : ScopeOp.Balanced inner :=
    .plain (by decide) (by decide)
      (.plain (by decide) (by decide) (.plain (by decide) (by decide) .nil))
  exact ⟨by decide, by decide, by decide, by decide,
    ((slots_allocated ops (by decide)).2.2.2.1 inner balanced).2.1⟩

end ScopeStack

end StackCode
