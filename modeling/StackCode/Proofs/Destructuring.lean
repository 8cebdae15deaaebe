import Mathlib.Algebra.Group.Int.Defs
import StackCode.Proofs.PatternPieces
import StackCode.Proofs.Simulation

/-!
# Taking data apart

The checks of a pattern decide whether a datum matches (`Decides`). If it does, they go through, and
the slots of the names in the pattern have the parts of the datum that the pattern names. Else one
of them fails. Both are shown for a datum in a slot of its own, as an element of a sequence that is
counted from either end, and as the value at a key of a map.
-/

namespace StackCode

open List Option

variable {captured : List Local}

/-! ## Checks, one behind the other -/

section Checks

variable {ops : Operators} {m m' : Memory} {exit : Exit}

theorem Does.ops_append {first rest : List Op}
    (passes : Does ops captured (.ops first) m (.through m'))
    (others : Does ops captured (.ops rest) m' exit) :
    Does ops captured (.ops (first ++ rest)) m exit := by
  induction first generalizing m with
  | nil =>
    cases passes
    exact others
  | cons op first ih =>
    cases passes with
    | step performs behind => exact .step performs (ih behind)

theorem Does.checks_append {first rest : List Check}
    (passes : Does ops captured (.ofChecks first) m (.through m'))
    (others : Does ops captured (.ofChecks rest) m' exit) :
    Does ops captured (.ofChecks (first ++ rest)) m exit := by
  induction first generalizing m with
  | nil =>
    cases passes
    exact others
  | cons check first ih =>
    cases check <;> cases passes with
    | seq goes behind => exact .seq goes (ih behind)
    | leave _ early => cases early

theorem Does.checks_failed {first rest : List Check}
    (fails : Does ops captured (.ofChecks first) m (.failed m')) :
    Does ops captured (.ofChecks (first ++ rest)) m (.failed m') := by
  induction first generalizing m with
  | nil => cases fails
  | cons check first ih =>
    cases check <;> cases fails with
    | seq goes behind => exact .seq goes (ih behind)
    | leave here early => exact .leave here early

theorem Does.checks_ofOps {operations : List Op}
    (passes : Does ops captured (.ops operations) m (.through m')) :
    Does ops captured (.ofChecks (Check.ofOps operations)) m (.through m') := by
  induction operations generalizing m with
  | nil => exact passes
  | cons op operations ih =>
    cases passes with
    | step performs behind => exact .seq (.step performs .nil) (ih behind)

theorem Does.canFail {checks : List Check}
    (fails : Does ops captured (.ofChecks checks) m (.failed m')) :
    checks.any Check.canFail = true := by
  induction checks generalizing m with
  | nil => cases fails
  | cons check checks ih =>
    cases check with
    | need => rfl
    | run op =>
      cases fails with
      | seq _ behind => exact ih behind
      | leave here _ =>
        cases here with
        | step _ others => cases others

end Checks

/-! ## Data that are tested -/

namespace Tested

variable {locals locals' : List Datum} {tested : Tested} {v : Datum}

/-- The datum that a pattern tests. -/
def Gives (locals : List Datum) : Tested → Datum → Prop
  | .held l, v => locals.getD l.slot .nil = v
  | .element sequence index, v =>
    Operators.onIntegers.subscript (locals.getD sequence.slot .nil) (.int (.ofInt index)) = some v
  | .entry map key, v =>
    Operators.onIntegers.subscript (locals.getD map.slot .nil) key.datum = some v

theorem Gives.unchanged (gives : tested.Gives locals v) {last : Nat}
    (same : Unchanged last locals locals') (low : tested.source.slot ≤ last) :
    tested.Gives locals' v := by
  have kept := same _ low
  cases tested with
  | held l => exact kept.trans gives
  | element sequence index =>
    change locals'.getD sequence.slot .nil = locals.getD sequence.slot .nil at kept
    rwa [Gives, kept]
  | entry map key =>
    change locals'.getD map.slot .nil = locals.getD map.slot .nil at kept
    rwa [Gives, kept]

theorem does_get {ops : Operators} {l : Local} (own : l ∉ captured) (live : List Local)
    (stack : List Datum) :
    Does ops captured (.ops [.get live l]) ⟨locals, stack⟩
      (.through ⟨locals, locals.getD l.slot .nil :: stack⟩) := by
  refine .step ?_ .nil
  show (if l ∈ captured then none else _) = _
  rw [if_neg own]
  rfl

theorem does_ops (gives : tested.Gives locals v) (own : tested.source ∉ captured)
    (live : List Local)
    (stack : List Datum) :
    Does .onIntegers captured (.ops (tested.ops live)) ⟨locals, stack⟩
      (.through ⟨locals, v :: stack⟩) := by
  have found (collection index : Datum)
      (isElement : Operators.onIntegers.subscript collection index = some v) :
      Does .onIntegers captured (.ops [.plain .subscript]) ⟨locals, index :: collection :: stack⟩
        (.through ⟨locals, v :: stack⟩) := by
    refine .step ?_ .nil
    show (Operators.onIntegers.subscript collection index >>= fun v => _) = _
    rw [isElement]
    rfl
  cases tested with
  | held l =>
    have isHeld : locals.getD l.slot .nil = v := gives
    rw [← isHeld]
    exact does_get own live stack
  | element sequence index =>
    exact .ops_append (.ops_append (does_get own live stack) (does_intOps index _ _))
      (found _ _ gives)
  | entry map key =>
    exact .ops_append (.ops_append (does_get own live stack) (key.does_ops _ _)) (found _ _ gives)

end Tested

/-! ## Deciding -/

/-- From slots with some values, checks come out as a match does. The variables `live` are visible
before them, and `live'` behind them. -/
def Decides (captured live live' : List Local) (checks : List Check) (locals : List Datum) :
    Option Bindings → Prop
  | some parts => ∃ own locals', live' = own ++ live ∧ Unchanged live.length locals locals' ∧
      Kept locals' own parts.reverse ∧ ∀ stack,
        Does .onIntegers captured (.ofChecks checks) ⟨locals, stack⟩ (.through ⟨locals', stack⟩)
  | none => ∃ locals', Unchanged live.length locals locals' ∧ ∀ stack,
      Does .onIntegers captured (.ofChecks checks) ⟨locals, stack⟩ (.failed ⟨locals', stack⟩)

namespace Decides

variable {live live' live'' own : List Local} {checks others : List Check}
  {locals locals' : List Datum} {parts : Bindings} {outcome : Option Bindings}

theorem nil : Decides captured live live [] locals (some []) :=
  ⟨[], locals, rfl, .refl _ _, .nil, fun _ => .nil⟩

theorem after (laid : Laid live') (grown : live' = own ++ live)
    (unchanged : Unchanged live.length locals locals') (kept : Kept locals' own parts.reverse)
    (does : ∀ stack, Does .onIntegers captured (.ofChecks checks) ⟨locals, stack⟩
      (.through ⟨locals', stack⟩))
    (rest : Decides captured live' live'' others locals' outcome) :
    Decides captured live live'' (checks ++ others) locals (outcome.map (parts ++ ·)) := by
  have longer : live.length ≤ live'.length := by
    rw [grown, length_append]
    exact Nat.le_add_left _ _
  cases outcome with
  | none =>
    obtain ⟨last, unchanged', fails⟩ := rest
    exact ⟨last, unchanged.trans unchanged' longer, fun stack =>
      .checks_append (does stack) (fails stack)⟩
  | some more =>
    obtain ⟨own', last, grown', unchanged', kept', does'⟩ := rest
    refine ⟨own' ++ own, last, ?_, unchanged.trans unchanged' longer, ?_, fun stack =>
      .checks_append (does stack) (does' stack)⟩
    · rw [grown', grown, List.append_assoc]
    · rw [reverse_append]
      refine kept'.append (kept.unchanged (fun l member => ?_) unchanged')
      rw [grown] at laid ⊢
      exact (laid.slot_bounds (mem_append_left live member)).2

theorem failed (fails : Decides captured live live' checks locals none) :
    Decides captured live live'' (checks ++ others) locals none := by
  obtain ⟨last, unchanged, does⟩ := fails
  exact ⟨last, unchanged, fun stack => .checks_failed (does stack)⟩

theorem bind (laid : Laid live') {next : Option Bindings}
    (first : Decides captured live live' checks locals outcome)
    (second : ∀ locals', Unchanged live.length locals locals' → outcome.isSome →
      Decides captured live' live'' others locals' next) :
    Decides captured live live'' (checks ++ others) locals (do
      let parts ← outcome
      let more ← next
      return parts ++ more) := by
  cases outcome with
  | none => exact failed first
  | some parts =>
    obtain ⟨own, locals', grown, unchanged, kept, does⟩ := first
    have whole := after laid grown unchanged kept does (second locals' unchanged rfl)
    rwa [map_eq_bind] at whole

theorem behind (laid : Laid live') (grown : live' = own ++ live)
    (unchanged : Unchanged live.length locals locals') (kept : Kept locals' own [])
    (does : ∀ stack, Does .onIntegers captured (.ofChecks checks) ⟨locals, stack⟩
      (.through ⟨locals', stack⟩))
    (rest : Decides captured live' live'' others locals' outcome) :
    Decides captured live live'' (checks ++ others) locals outcome := by
  have whole : Decides captured live live'' (checks ++ others) locals (outcome.map ([] ++ ·)) :=
    after laid grown unchanged kept does rest
  rwa [nil_append_fun, Option.map_id_fun, id] at whole

theorem pass (laid : Laid live) (first : Decides captured live live checks locals (some []))
    (second : ∀ locals', Unchanged live.length locals locals' →
      Decides captured live live'' others locals' outcome) :
    Decides captured live live'' (checks ++ others) locals outcome := by
  obtain ⟨own, locals', grown, unchanged, kept, does⟩ := first
  exact behind laid grown unchanged kept does (second locals' unchanged)

theorem need {operations : List Op} {holds : Bool}
    (does : ∀ stack, Does .onIntegers captured (.ops operations) ⟨locals, stack⟩
      (.through ⟨locals, .bool holds :: stack⟩)) :
    Decides captured live live (Check.ofOps operations ++ [.need]) locals
      (if holds then some [] else none) := by
  have looks (stack : List Datum) : JumpKind.whenFalse.look ⟨locals, .bool holds :: stack⟩ =
      some (!holds, ⟨locals, stack⟩) := rfl
  have passes (stack : List Datum) := Does.checks_ofOps (does stack)
  cases holds with
  | true =>
    refine ⟨[], locals, rfl, .refl _ _, .nil, fun stack => .checks_append (passes stack) ?_⟩
    exact .seq (.holds (looks stack)) .nil
  | false =>
    refine ⟨locals, .refl _ _, fun stack => .checks_append (passes stack) ?_⟩
    exact .leave (.fails (looks stack)) rfl

end Decides

/-! ## Single checks -/

theorem toInt_ofInt_countable {n : Nat} (isCountable : countable n = true) :
    (Int64.ofInt n).toInt = n := by
  have small : n < 2 ^ 63 := of_decide_eq_true isCountable
  exact Int64.toInt_ofInt_of_le (by omega) (by omega)

section Checks

variable {locals : List Datum} {l : Local} (own : l ∉ captured) (live : List Local)

include own

theorem decides_class (locals : List Datum) (fullName : String) :
    Decides captured live live (classChecks live l fullName) locals
      (if (locals.getD l.slot .nil).isOf fullName then some [] else none) :=
  .need fun stack => .ops_append (Tested.does_get own live stack) (.step rfl (.step rfl .nil))

theorem decides_length {kind : SequenceKind} {items : List Datum}
    (isSequence : locals.getD l.slot .nil = kind.datum items) {count : Nat}
    (isCountable : countable count) (isCountable' : countable items.length) (rest : Option Rest) :
    Decides captured live live (lengthChecks live l count rest.isSome) locals
      (if (splitItems? rest count items).isSome then some [] else none) := by
  have counted : (Int64.ofNat items.length).toInt = items.length := by
    rw [← toInt_ofInt_countable isCountable', Int64.ofInt_eq_ofNat]
  have pushed (stack : List Datum) : Does .onIntegers captured
      (.ops ([.get live l, .plain .length] ++ intOps count)) ⟨locals, stack⟩
      (.through ⟨locals, .int (.ofInt count) :: .int (.ofNat items.length) :: stack⟩) := by
    refine .ops_append (.ops_append (Tested.does_get own live stack) (.step ?_ .nil))
      (does_intOps _ _ _)
    rw [isSequence]
    cases kind <;> rfl
  refine .need fun stack => .ops_append (pushed stack) (.step ?_ .nil)
  cases rest with
  | none =>
    have same : (Int64.ofNat items.length == Int64.ofInt count) =
        decide (items.length = count) := by
      rw [Bool.eq_iff_iff, beq_iff_eq, ← Int64.toInt_inj, counted,
        toInt_ofInt_countable isCountable,
        decide_eq_true_iff]
      exact Int.ofNat_inj
    show some (Except.ok
      (⟨locals, .bool (Int64.ofNat items.length == Int64.ofInt count) :: stack⟩ : Memory)) = _
    rw [same, splitItems?]
    split <;> simp [*]
  | some rest =>
    show some (Except.ok
      (⟨locals, .bool (decide ((Int64.ofNat items.length).toInt ≥ (Int64.ofInt count).toInt)) ::
      stack⟩ : Memory)) = _
    rw [counted, toInt_ofInt_countable isCountable, splitItems?]
    split <;> simp [*]

theorem decides_key {pairs : List (Datum × Datum)}
    (isMap : locals.getD l.slot .nil = .map pairs) (key : Literal) :
    Decides captured live live (keyChecks live l key) locals
      (if (valueAt? pairs key.datum).isSome then some [] else none) := by
  refine .need fun stack => .ops_append
    (.ops_append (Tested.does_get own live stack) (key.does_ops _ _)) (.step ?_ .nil)
  rw [isMap]
  have any : (pairs.any fun entry => entry.1.same key.datum) =
      (valueAt? pairs key.datum).isSome := by
    rw [valueAt?, isSome_map, isSome_find?]
  rw [← any]
  rfl

end Checks

/-! ## Elements -/

theorem subscript_sequence (kind : SequenceKind) (items : List Datum) {index : Int} {place : Nat}
    (least : -2 ^ 63 ≤ index) (most : index < 2 ^ 63)
    (isPlace : (if index < 0 then items.length + index else index) = place) :
    Operators.onIntegers.subscript (kind.datum items) (.int (.ofInt index)) =
      some (items.getD place .nil) := by
  have same : (Int64.ofInt index).toInt = index := Int64.toInt_ofInt_of_le least most
  cases kind <;>
    simp [Operators.onIntegers, SequenceKind.datum, Datum.items?, same, isPlace]

section Split

variable {rest : Option Rest} {count : Nat} {items ours between : List Datum}

section

variable (split : splitItems? rest count items = some (ours, between))

include split

theorem splitItems?_cases :
    (rest = none ∧ items.length = count ∧ ours = items) ∨ ∃ r leading, rest = some r ∧
      leading = min r.position count ∧ count ≤ items.length ∧
      ours = items.take leading ++ items.drop (items.length - (count - leading)) ∧
      between = (items.take (items.length - (count - leading))).drop leading := by
  cases rest with
  | none =>
    rw [splitItems?] at split
    split at split
    · rename_i exact_
      cases split
      exact .inl ⟨rfl, exact_, rfl⟩
    · cases split
  | some r =>
    rw [splitItems?] at split
    split at split
    · rename_i enough
      cases split
      exact .inr ⟨r, _, rfl, rfl, enough, rfl, rfl⟩
    · cases split

theorem length_of_splitItems? :
    ours.length = count := by
  rcases splitItems?_cases split with ⟨-, isLength, rfl⟩ | ⟨r, leading, -, isLeading,
    enough, rfl, -⟩
  · exact isLength
  · have := Nat.min_le_right r.position count
    rw [length_append, length_take, length_drop]
    omega

theorem mem_of_splitItems? {v : Datum}
    (member : v ∈ ours) : v ∈ items := by
  rcases splitItems?_cases split with ⟨-, -, rfl⟩ | ⟨r, leading, -, -, -, rfl, -⟩
  · exact member
  · rcases mem_append.1 member with front | back
    · exact mem_of_mem_take front
    · exact mem_of_mem_drop back

end

end Split

/-- The index of an element: those before the rest are counted from the front, and those behind it
from the end. -/
def elementIndex (leading count position : Nat) : Int :=
  if position < leading then position else (position : Int) - count

/-- **An index from either end finds the element that a pattern is for.** -/
theorem splitItems?_gives {rest : Option Rest} {count : Nat} {items ours between : List Datum}
    (split : splitItems? rest count items = some (ours, between))
    (isCountable : countable items.length)
    (kind : SequenceKind) {position : Nat} {v : Datum} (isElement : ours[position]? = some v) :
    Operators.onIntegers.subscript (kind.datum items)
      (.int (.ofInt (elementIndex ((rest.map fun r => min r.position count).getD count) count
        position))) =
      some v := by
  have small : items.length < 2 ^ 63 := of_decide_eq_true isCountable
  obtain ⟨inside, -⟩ := List.getElem?_eq_some_iff.1 isElement
  -- It is enough that the index comes to the place of the element among all of them.
  have found {index : Int} {place : Nat} (low : -2 ^ 63 ≤ index) (high : index < 2 ^ 63)
      (isPlace : (if index < 0 then items.length + index else index) = place)
      (there : items[place]? = some v) :
      Operators.onIntegers.subscript (kind.datum items) (.int (.ofInt index)) = some v := by
    rw [subscript_sequence kind items low high isPlace, getD_eq_getElem?_getD, there]
    rfl
  unfold elementIndex
  rcases splitItems?_cases split with
    ⟨rfl, isLength, rfl⟩ | ⟨r, leading, rfl, isLeading, enough, rfl, -⟩
  · have before : position < count := isLength ▸ inside
    show Operators.onIntegers.subscript _ (.int (.ofInt (if position < count then _ else _))) = _
    rw [if_pos before]
    exact found (by omega) (by omega) (if_neg (by omega)) isElement
  · show Operators.onIntegers.subscript _
      (.int (.ofInt (if position < min r.position count then _ else _))) = _
    rw [← isLeading]
    have le : leading ≤ count := isLeading ▸ Nat.min_le_right _ _
    rw [length_append, length_take, length_drop] at inside
    split
    · rename_i before
      refine found (by omega) (by omega) (if_neg (by omega)) ?_
      rw [List.getElem?_append_left (by rw [length_take]; omega)] at isElement
      rwa [List.getElem?_take_of_lt before] at isElement
    · rename_i behind
      rw [List.getElem?_append_right (by rw [length_take]; omega), List.getElem?_drop,
        length_take] at isElement
      refine @found _ (items.length + position - count) (by omega) (by omega) ?_ ?_
      · rw [if_pos (by omega)]
        omega
      · have same : items.length + position - count =
            items.length - (count - leading) + (position - min leading items.length) := by
          omega
        rwa [same]

/-! ## Variables that hold parts -/

section Variables

variable {env : Env} {l : Local}

theorem Gen.hold_along (tested : Tested) (isLive : tested.source ∈ env.live) :
    Along captured env (Gen.hold env tested) (fun made => made.2.2) fun made =>
      made.1 ∈ made.2.2.live ∧ ∀ locals v, tested.Gives locals v → ∃ own locals',
        made.2.2.live = own ++ env.live ∧ Unchanged env.live.length locals locals' ∧
          Kept locals' own [] ∧ locals'.getD made.1.slot .nil = v ∧ ∀ stack,
            Does .onIntegers captured (.ofChecks (Check.ofOps made.2.1)) ⟨locals, stack⟩
              (.through ⟨locals', stack⟩) := by
  refine .given fun slotted => ?_
  have stored : Along captured env (Gen.declare env none) Prod.snd fun made =>
      made.1 ∈ made.2.live ∧ ∀ locals v, tested.Gives locals v → ∃ own locals',
        made.2.live = own ++ env.live ∧ Unchanged env.live.length locals locals' ∧
          Kept locals' own [] ∧ locals'.getD made.1.slot .nil = v ∧ ∀ stack,
            Does .onIntegers captured (.ofChecks (Check.ofOps (tested.ops made.2.live ++
              [.set made.2.live made.1, .plain .pop]))) ⟨locals, stack⟩
              (.through ⟨locals', stack⟩) := by
    refine (Along.declare none).imp fun made isMade => ?_
    obtain ⟨l, rfl, noName, isSlot, own⟩ := isMade
    rw [env.live_declared]
    refine ⟨mem_cons_self, fun locals v gives => ⟨[l], _, rfl, .store isSlot [] v,
      .unnamed noName .nil, getD_set_self .., fun stack => .checks_ofOps ?_⟩⟩
    exact .ops_append (Tested.does_ops gives (slotted.own _ isLive) _ stack)
      (does_store own locals stack v)
  cases tested with
  | held l =>
    refine .pure rfl ⟨isLive, fun locals v gives => ?_⟩
    exact ⟨[], locals, rfl, .refl _ _, .nil, gives, fun _ => .nil⟩
  | element sequence index => exact stored.bind fun made _ _ isMade => .pure rfl isMade
  | entry map key => exact stored.bind fun made _ _ isMade => .pure rfl isMade

theorem Gen.bind_along (name : String) :
    Along captured env (Gen.bind env name) Prod.snd fun made => ∀ locals v, ∃ l locals',
      l.name = some name ∧ made.2.live = l :: env.live ∧ Unchanged env.live.length locals locals' ∧
        locals'.getD l.slot .nil = v ∧ ∀ stack,
          Does .onIntegers captured (.ops made.1) ⟨locals, v :: stack⟩
            (.through ⟨locals', stack⟩) := by
  refine (Along.declare (some name)).bind fun made _ _ isMade => .pure rfl fun locals v => ?_
  obtain ⟨l, rfl, isName, isSlot, own⟩ := isMade
  exact ⟨l, _, isName, env.live_declared l, .store isSlot [] v, getD_set_self .., fun stack =>
    does_store own locals stack v⟩

theorem Gen.bind_along_pushed (name : String) (operations : List Op) :
    Along captured env (Gen.bind env name) Prod.snd fun made => ∀ locals v,
      (∀ stack, Does .onIntegers captured (.ops operations) ⟨locals, stack⟩
        (.through ⟨locals, v :: stack⟩)) →
      Decides captured env.live made.2.live (Check.ofOps (operations ++ made.1)) locals
        (some [(name, v)]) := by
  refine (Gen.bind_along name).imp fun made isMade locals v pushes => ?_
  obtain ⟨l, locals', isName, isLive, unchanged, isValue, does⟩ := isMade locals v
  exact ⟨[l], locals', isLive, unchanged, .named isName isValue .nil, fun stack =>
    .checks_ofOps (.ops_append (pushes stack) (does stack))⟩

theorem Gen.bindRest_along (isLive : l ∈ env.live) (count : Nat) (rest : Option Rest) :
    let leading := (rest.map fun r => min r.position count).getD count
    Along captured env (Gen.bindRest env l leading (count - leading) rest) Prod.snd fun made =>
      ∀ locals (kind : SequenceKind) items ours between,
        locals.getD l.slot .nil = kind.datum items →
        splitItems? rest count items = some (ours, between) →
        Decides captured env.live made.2.live (Check.ofOps made.1) locals
          (some ((rest.bind Rest.binding).map fun name => (name, Datum.list between)).toList) := by
  intro leading
  refine .given fun slotted => ?_
  rw [Gen.bindRest]
  cases isBound : rest.bind Rest.binding with
  | none => exact .pure rfl fun _ _ _ _ _ _ _ => .nil
  | some name =>
    obtain ⟨r, rfl, -⟩ := bind_eq_some_iff.1 isBound
    refine (Gen.bind_along_pushed name [.get env.live l, .slice leading (count - leading)]).bind
      fun made _ _ isMade => .pure rfl ?_
    intro locals kind items ours between isSequence split
    refine isMade locals _ fun stack =>
      .ops_append (Tested.does_get (slotted.own l isLive) env.live stack) (.step ?_ .nil)
    rcases splitItems?_cases split with ⟨none, -, -⟩ | ⟨r', leading', isRest, isLeading,
      enough, -, rfl⟩
    · cases none
    cases isRest
    have same : leading = leading' := isLeading.symm
    have le : leading ≤ count := Nat.min_le_right _ _
    have fits : leading + (count - leading) ≤ items.length := by omega
    have isItems : (kind.datum items).items? = some items := by cases kind <;> rfl
    rw [isSequence, ← same]
    show (⟨locals, kind.datum items :: stack⟩ : Memory).slice leading (count - leading) = _
    simp only [Memory.slice, Memory.pop?, isItems, bind_eq_bind, bind_some, fits, if_true]
    rfl

end Variables

/-! ## Patterns -/

theorem Datum.allSized_iff {items : List Datum} :
    Datum.allSized items ↔ ∀ v ∈ items, v.isSized := by
  induction items with
  | nil => simp [Datum.allSized]
  | cons first rest ih => simp [Datum.allSized, ih]

theorem isSized_of_valueAt? {pairs : List (Datum × Datum)} (sized : Datum.entriesSized pairs)
    {key v : Datum} (found : valueAt? pairs key = some v) : v.isSized := by
  induction pairs with
  | nil => cases found
  | cons first rest ih =>
    rw [Datum.entriesSized, Bool.and_eq_true] at sized
    rw [valueAt?, List.find?_cons] at found
    split at found
    · cases found
      exact sized.1
    · exact ih sized.2 found

theorem SequenceKind.items?_cases (kind : SequenceKind) (v : Datum) :
    (kind.items? v = none ∧ v.isOf (Compile.sequenceClass kind) = false) ∨
      ∃ items, kind.items? v = some items ∧ v = kind.datum items ∧
        v.isOf (Compile.sequenceClass kind) = true := by
  cases kind <;> cases v <;> first
    | exact .inr ⟨_, rfl, rfl, rfl⟩
    | exact .inl ⟨rfl, rfl⟩

theorem SequenceKind.isSized_datum {kind : SequenceKind} {items : List Datum}
    (sized : (kind.datum items).isSized) : countable items.length ∧ Datum.allSized items := by
  cases kind <;>
  · rw [SequenceKind.datum, Datum.isSized, Bool.and_eq_true] at sized
    exact sized

/-- Checks decide whether the datum that is tested matches a pattern. -/
def Pattern.Decided (captured : List Local) (env : Env) (pattern : Pattern) (tested : Tested)
    (made : List Check × Env) : Prop :=
  ∀ locals v, tested.Gives locals v → pattern.isSized → v.isSized →
    Decides captured env.live made.2.live made.1 locals (pattern.parts? v)

namespace Pattern

mutual

/-- **The checks of a pattern decide whether a datum matches.** -/
theorem checks_along : ∀ (pattern : Pattern) (tested : Tested) {env : Env},
    tested.source ∈ env.live →
    Along captured env (pattern.checks env tested) Prod.snd (pattern.Decided captured env tested)
  | .wildcard _, _, _, _ => .pure rfl fun _ _ _ _ _ => .nil
  | .binding _ name, tested, env, isLive => by
    refine .given fun slotted => ?_
    refine (Gen.bind_along_pushed name (tested.ops env.live)).bind fun made _ _ isMade =>
      .pure rfl ?_
    intro locals v gives _ _
    exact isMade locals v (Tested.does_ops gives (slotted.own _ isLive) env.live)
  | .literal _ value, tested, env, isLive => by
    refine .given fun slotted => .pure rfl fun locals v gives _ _ => ?_
    exact @Decides.need _ _ _ _ (v.same value.datum) fun stack =>
      .ops_append (.ops_append (Tested.does_ops gives (slotted.own _ isLive) env.live stack)
      (value.does_ops _ _)) (.step rfl .nil)
  | .sequence span kind elements rest, tested, env, isLive => by
    refine (Gen.hold_along tested isLive).bind fun held _ slotted isHeld => ?_
    obtain ⟨l, operations, inner⟩ := held
    obtain ⟨isLive', isHeld⟩ := isHeld
    refine (elementChecks_along l _ elements.length 0 elements isLive').bind
      fun inside grown slotted' isInside => ?_
    refine (Gen.bindRest_along (grown.live isLive') elements.length rest).bind
      fun tail _ _ isTail => .pure rfl ?_
    intro locals v gives sized sizedV
    obtain ⟨own, locals', isOwn, unchanged, kept, isValue, does⟩ := isHeld locals v gives
    show Decides captured env.live _ (Check.ofOps operations ++ classChecks inner.live l _ ++
      lengthChecks inner.live l _ _ ++ inside.1 ++ Check.ofOps tail.1) locals _
    simp only [List.append_assoc]
    refine .behind slotted.laid isOwn unchanged kept does ?_
    have low := slotted.low l isLive'
    have own := slotted.own l isLive'
    rcases kind.items?_cases v with ⟨noItems, notOf⟩ | ⟨items, isItems, rfl, isOf⟩
    · -- It is no sequence of the kind.
      have isClass := decides_class own inner.live locals' (Compile.sequenceClass kind)
      rw [isValue, notOf] at isClass
      rw [parts?, noItems]
      exact isClass.failed
    rw [isSized, Bool.and_eq_true] at sized
    obtain ⟨isCountable, sizedItems⟩ := SequenceKind.isSized_datum sizedV
    have isClass := decides_class own inner.live locals' (Compile.sequenceClass kind)
    rw [isValue, isOf] at isClass
    refine .pass slotted.laid isClass fun locals₁ unchanged₁ => ?_
    have isValue₁ := (unchanged₁ _ low).trans isValue
    have isLength := decides_length own inner.live isValue₁ sized.1 isCountable rest
    cases split : splitItems? rest elements.length items with
    | none =>
      rw [split] at isLength
      rw [parts?, isItems]
      simp only [bind_eq_bind, bind_some, split, bind_none]
      exact isLength.failed
    | some made =>
      obtain ⟨ours, between⟩ := made
      rw [split] at isLength
      refine .pass slotted.laid isLength fun locals₂ unchanged₂ => ?_
      have isValue₂ := (unchanged₂ _ low).trans isValue₁
      have sizedOurs : Datum.allSized ours := Datum.allSized_iff.2 fun v member =>
        Datum.allSized_iff.1 sizedItems v (mem_of_splitItems? split member)
      have isElements := isInside locals₂ ours sized.2 sizedOurs (length_of_splitItems? split)
        fun i v isElement => by
          rw [Nat.zero_add]
          show Operators.onIntegers.subscript (locals₂.getD l.slot .nil) _ = some v
          rw [isValue₂]
          exact splitItems?_gives split isCountable kind isElement
      have whole := isElements.bind slotted'.laid fun locals₃ unchanged₃ _ =>
        isTail locals₃ kind items ours between ((unchanged₃ _ low).trans isValue₂) split
      rw [parts?, isItems]
      simp only [bind_eq_bind, bind_some, split]
      exact whole
  | .map span entries, tested, env, isLive => by
    refine (Gen.hold_along tested isLive).bind fun held _ slotted isHeld => ?_
    obtain ⟨l, operations, inner⟩ := held
    obtain ⟨isLive', isHeld⟩ := isHeld
    refine (entryChecks_along l entries isLive').bind fun inside grown slotted' isInside =>
      .pure rfl ?_
    intro locals v gives sized sizedV
    obtain ⟨own, locals', isOwn, unchanged, kept, isValue, does⟩ := isHeld locals v gives
    show Decides captured env.live _ (Check.ofOps operations ++ classChecks inner.live l _ ++
      inside.1)
      locals _
    rw [List.append_assoc]
    refine .behind slotted.laid isOwn unchanged kept does ?_
    have isClass := decides_class (slotted.own l isLive') inner.live locals' mapName
    rw [isValue] at isClass
    cases v with
    | map pairs =>
      rw [isSized] at sized
      rw [Datum.isSized] at sizedV
      refine .pass slotted.laid isClass fun locals₁ unchanged₁ => ?_
      have isMap := (unchanged₁ _ (slotted.low l isLive')).trans isValue
      exact isInside locals₁ pairs isMap sized sizedV
    | _ => exact isClass.failed

theorem elementChecks_along (l : Local) (leading count : Nat) :
    ∀ (position : Nat) (elements : List Pattern) {env : Env}, l ∈ env.live →
    Along captured env (elementChecks env l leading count position elements) Prod.snd fun made =>
      ∀ locals ours, Pattern.allSized elements → Datum.allSized ours →
        ours.length = elements.length →
        (∀ i v, ours[i]? = some v →
          (Tested.element l (elementIndex leading count (position + i))).Gives locals v) →
        Decides captured env.live made.2.live made.1 locals (elementParts? elements ours)
  | _, [], _, _ => by
    refine .pure rfl fun locals ours _ _ isLength _ => ?_
    rw [eq_nil_of_length_eq_zero isLength]
    exact .nil
  | position, element :: rest, env, isLive => by
    refine .given fun slotted => ?_
    refine (checks_along element (.element l _) isLive).bind fun first grown slotted' isFirst => ?_
    refine (elementChecks_along l leading count (position + 1) rest (grown.live isLive)).bind
      fun others _ _ isOthers => .pure rfl ?_
    intro locals ours sized sizedOurs isLength gives
    cases ours with
    | nil => cases isLength
    | cons v others' =>
      rw [Pattern.allSized, Bool.and_eq_true] at sized
      rw [Datum.allSized, Bool.and_eq_true] at sizedOurs
      refine .bind slotted'.laid (isFirst locals v (gives 0 v rfl) sized.1 sizedOurs.1)
        fun locals' unchanged _ => ?_
      refine isOthers locals' others' sized.2 sizedOurs.2
        (Nat.succ.inj isLength) fun i v isElement => ?_
      have gives' := gives (i + 1) v isElement
      rw [Nat.add_comm i, ← Nat.add_assoc] at gives'
      exact gives'.unchanged unchanged (slotted.low l isLive)

theorem entryChecks_along (l : Local) :
    ∀ (entries : List (Literal × Pattern)) {env : Env}, l ∈ env.live →
    Along captured env (entryChecks env l entries) Prod.snd fun made =>
      ∀ locals pairs, locals.getD l.slot .nil = .map pairs → Pattern.entriesSized entries →
        Datum.entriesSized pairs →
        Decides captured env.live made.2.live made.1 locals (entryParts? pairs entries)
  | [], _, _ => .pure rfl fun _ _ _ _ _ => .nil
  | (key, pattern) :: rest, env, isLive => by
    refine .given fun slotted => ?_
    refine (checks_along pattern (.entry l key) isLive).bind fun first grown slotted' isFirst => ?_
    refine (entryChecks_along l rest (grown.live isLive)).bind fun others _ _ isOthers =>
      .pure rfl ?_
    intro locals pairs isMap sized sizedPairs
    show Decides captured env.live _ (keyChecks env.live l key ++ first.1 ++ others.1) locals _
    rw [List.append_assoc, entryParts?]
    have hasKey := decides_key (slotted.own l isLive) env.live isMap key
    cases found : valueAt? pairs key.datum with
    | none =>
      rw [found] at hasKey
      exact hasKey.failed
    | some v =>
      rw [found] at hasKey
      rw [Pattern.entriesSized, Bool.and_eq_true] at sized
      refine .pass slotted.laid hasKey fun locals₁ unchanged₁ => ?_
      have low := slotted.low l isLive
      have isMap₁ := (unchanged₁ _ low).trans isMap
      have gives : (Tested.entry l key).Gives locals₁ v := by
        show Operators.onIntegers.subscript (locals₁.getD l.slot .nil) key.datum = some v
        rw [isMap₁]
        show some ((valueAt? pairs key.datum).getD .nil) = some v
        rw [found]
        rfl
      refine .bind slotted'.laid
        (isFirst locals₁ v gives sized.1 (isSized_of_valueAt? sizedPairs found))
        fun locals₂ unchanged₂ _ => ?_
      exact isOthers locals₂ pairs ((unchanged₂ _ low).trans isMap₁) sized.2 sizedPairs

end

end Pattern

/-! ## Tests -/

/-- A test of the datum in a slot pushes whether it matches. If it does, the variables that are
declared by the test hold its parts. -/
def Pattern.Tests (captured : List Local) (env : Env) (pattern : Pattern) (l : Local)
    (made : Flow Op × Env) : Prop :=
  ∀ locals v, locals.getD l.slot .nil = v → pattern.isSized → v.isSized →
    ∃ own locals', Unchanged env.live.length locals locals' ∧
      (∀ stack, Does .onIntegers captured made.1 ⟨locals, stack⟩
        (.through ⟨locals', .bool (pattern.parts? v).isSome :: stack⟩)) ∧
      ∀ parts, pattern.parts? v = some parts →
        made.2.live = own ++ env.live ∧ Kept locals' own parts.reverse

/-- **The test of a pattern pushes whether a datum matches.** -/
theorem Pattern.flow_along {env : Env} (pattern : Pattern) {l : Local} (isLive : l ∈ env.live) :
    Along captured env (pattern.flow env l) Prod.snd (pattern.Tests captured env l) := by
  refine (pattern.checks_along (.held l) isLive).bind fun made _ _ isMade => .pure rfl ?_
  obtain ⟨checks, env'⟩ := made
  intro locals v isValue sized sizedV
  have decides := isMade locals v isValue sized sizedV
  cases outcome : pattern.parts? v with
  | some parts =>
    rw [outcome] at decides
    obtain ⟨own, locals', grown, unchanged, kept, does⟩ := decides
    refine ⟨own, locals', unchanged, fun stack => ?_, fun _ isParts =>
      ⟨grown, Option.some.inj isParts ▸ kept⟩⟩
    have whole : Does .onIntegers captured (.ofChecks checks ++ .ops [.plain .pushTrue])
        ⟨locals, stack⟩ (.through ⟨locals', .bool true :: stack⟩) :=
      .seq (does stack) (.step rfl .nil)
    show Does _ _ (Flow.test checks) _ _
    unfold Flow.test
    split
    · exact .passed whole
    · exact whole
  | none =>
    rw [outcome] at decides
    obtain ⟨locals', unchanged, does⟩ := decides
    refine ⟨[], locals', unchanged, fun stack => ?_, nofun⟩
    show Does _ _ (Flow.test checks) _ _
    rw [Flow.test, if_pos (does stack).canFail]
    exact .missed (.leave (does stack) rfl) (.step rfl .nil)

/-! ## Declarations -/

/-- A flow takes apart the last operand. Behind it the variables `live'` are visible, and those that
the flow declares hold the parts of the operand; if that does not match, an error is thrown. -/
structure TakesApart (captured live live' : List Local) (pattern : Pattern) (mutable : Bool)
    (flow : Flow Op) (locals : List Datum) (v : Datum) : Prop where
  goesOn : ∀ parts, pattern.parts? v = some parts → ∃ own locals', live' = own ++ live ∧
    Unchanged live.length locals locals' ∧ Kept locals' own parts.reverse ∧ ∀ stack,
      Does .onIntegers captured flow ⟨locals, v :: stack⟩ (.through ⟨locals', stack⟩)
  throws : pattern.parts? v = none → ∀ stack,
    Does .onIntegers captured flow ⟨locals, v :: stack⟩ (.ended (.thrown (mismatch mutable)))

/-- **A declaration takes a value apart**, behind whatever pushes it. -/
theorem Gen.takeApart_along {env : Env} (pattern : Pattern) (mutable : Bool) (value : Flow Op) :
    Along captured env (Gen.takeApart env pattern mutable value) Prod.snd fun made =>
      ∃ store test throw, made.1 = value ++ store ++ test ++ throw ∧ ∀ locals v,
        pattern.isSized → v.isSized →
          TakesApart captured env.live made.2.live pattern mutable (store ++ test ++ throw)
            locals v := by
  refine (Along.declare none).bind fun made _ slotted isMade => ?_
  obtain ⟨l, rfl, noName, isSlot, own⟩ := isMade
  have live : (env.declared l).live = l :: env.live := env.live_declared l
  have isLive : l ∈ (env.declared l).live := live ▸ mem_cons_self
  refine (pattern.flow_along isLive).bind fun made _ _ isTest => .pure rfl ?_
  obtain ⟨test, env'⟩ := made
  refine ⟨_, test, _, rfl, fun locals v sized sizedV => ?_⟩
  let stored := ((⟨locals, [v]⟩ : Memory).set l.slot v).locals
  have store (stack : List Datum) : Does .onIntegers captured
      (.ops [.set (env.declared l).live l, .plain .pop]) ⟨locals, v :: stack⟩
      (.through ⟨stored, stack⟩) :=
    does_store own locals stack v
  have unchanged : Unchanged env.live.length locals stored := .store isSlot [v] v
  obtain ⟨own', locals', unchanged', does, bound⟩ := isTest stored v (getD_set_self ..) sized sizedV
  refine ⟨fun parts isParts => ?_, fun noParts stack => ?_⟩
  · obtain ⟨grown, kept⟩ := bound parts isParts
    have longer : env.live.length ≤ (env.declared l).live.length := by
      rw [live]
      exact Nat.le_succ _
    refine ⟨own' ++ [l], locals', ?_, unchanged.trans unchanged' longer, ?_, fun stack => ?_⟩
    · rw [grown, live, List.append_assoc, singleton_append]
    · rw [← append_nil parts.reverse]
      exact kept.append (.unnamed noName .nil)
    · have does := does stack
      rw [isParts] at does
      exact .seq (.seq (store stack) does) (.past rfl)
  · have does := does stack
    rw [noParts] at does
    refine .seq (.seq (store stack) does) (.into rfl ?_)
    exact .step rfl (.step rfl (.step rfl (.stop rfl)))

end StackCode
