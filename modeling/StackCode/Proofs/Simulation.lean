import StackCode.Proofs.Evaluation
import StackCode.Proofs.FlowExecution
import StackCode.Proofs.Steps

/-!
# Flows that follow evaluations

A flow follows an evaluation (`Follows`) if it leaves on the stack what the evaluation gives, and in
the slots the values of the variables, and ends the run as the evaluation does. The flow of a
construction does if the flows of the parts do.

Slots agree with bindings one by one (`Kept`). No two variables that are visible at a place have the
same slot (`Laid`). Without closures nothing is noted of variables (`Along`), so scopes close
nothing.
-/

namespace StackCode

open List Option

variable {ops : Operators} {captured : List Local} {α β : Type}

/-! ## Slots and bindings -/

/-- The slots of some variables have the values of some bindings. Those of variables without a name
may have any. -/
inductive Kept (locals : List Datum) : List Local → Bindings → Prop where
  | nil : Kept locals [] []
  | named {l : Local} {live : List Local} {name : String} {value : Datum} {bindings : Bindings}
      (isName : l.name = some name) (isValue : locals.getD l.slot .nil = value)
      (others : Kept locals live bindings) : Kept locals (l :: live) ((name, value) :: bindings)
  | unnamed {l : Local} {live : List Local} {bindings : Bindings} (noName : l.name = none)
      (others : Kept locals live bindings) : Kept locals (l :: live) bindings

/-- The slots up to one have the values that they had. -/
def Unchanged (last : Nat) (locals locals' : List Datum) : Prop :=
  ∀ slot ≤ last, locals'.getD slot .nil = locals.getD slot .nil

namespace Unchanged

variable {last : Nat} {locals locals' locals'' : List Datum}

theorem refl (last : Nat) (locals : List Datum) : Unchanged last locals locals := fun _ _ => rfl

theorem trans {more : Nat} (one : Unchanged last locals locals')
    (two : Unchanged more locals' locals'') (le : last ≤ more) : Unchanged last locals locals'' :=
  fun slot low => (two slot (Nat.le_trans low le)).trans (one slot low)

theorem set (stack : List Datum) {slot : Nat} (high : last < slot) (value : Datum) :
    Unchanged last locals ((⟨locals, stack⟩ : Memory).set slot value).locals := by
  intro other low
  have kept := Memory.get_set ⟨locals, stack⟩ slot other value
  rw [if_neg (by omega)] at kept
  exact kept

theorem store {slot : Nat} (next : slot = last + 1) (stack : List Datum) (value : Datum) :
    Unchanged last locals ((⟨locals, stack⟩ : Memory).set slot value).locals :=
  set stack (by omega) value

end Unchanged

theorem getD_set_self (locals stack : List Datum) (slot : Nat) (value : Datum) :
    ((⟨locals, stack⟩ : Memory).set slot value).locals.getD slot .nil = value := by
  have written := Memory.get_set ⟨locals, stack⟩ slot slot value
  rwa [if_pos rfl] at written

section Slots

variable {locals locals' : List Datum} {live live' : List Local} {bindings bindings' : Bindings}
  {name : String} {value : Datum}

namespace Kept

theorem imp (kept : Kept locals live bindings)
    (same : ∀ l ∈ live, locals'.getD l.slot .nil = locals.getD l.slot .nil) :
    Kept locals' live bindings := by
  induction kept with
  | nil => exact .nil
  | @named l live name value bindings isName isValue _ ih =>
    refine .named isName ((same l mem_cons_self).trans isValue) (ih fun other member => ?_)
    exact same other (mem_cons_of_mem l member)
  | @unnamed l live bindings noName _ ih =>
    exact .unnamed noName (ih fun other member => same other (mem_cons_of_mem l member))

theorem unchanged (kept : Kept locals live bindings) {last : Nat}
    (low : ∀ l ∈ live, l.slot ≤ last) (same : Unchanged last locals locals') :
    Kept locals' live bindings :=
  kept.imp fun l member => same l.slot (low l member)

theorem append (first : Kept locals live bindings) (second : Kept locals live' bindings') :
    Kept locals (live ++ live') (bindings ++ bindings') := by
  induction first with
  | nil => exact second
  | named isName isValue _ ih => exact .named isName isValue ih
  | unnamed noName _ ih => exact .unnamed noName ih

theorem drop {own : List Local} (inside : Kept locals (own ++ live) bindings')
    (outside : Kept locals' live bindings) :
    Kept locals live (bindings'.drop (bindings'.length - bindings.length)) := by
  -- Both have a binding for every variable with a name.
  have count {locals : List Datum} {live : List Local} {bindings : Bindings}
      (kept : Kept locals live bindings) : bindings.length = live.countP (·.name.isSome) := by
    induction kept with
    | nil => rfl
    | named isName _ _ ih => simp [isName, ih]
    | unnamed noName _ ih => simp [noName, ih]
  induction own generalizing bindings' with
  | nil =>
    have same : bindings'.length - bindings.length = 0 := by
      rw [count inside, count outside]
      exact Nat.sub_self _
    rw [same]
    exact inside
  | cons l own ih =>
    cases inside with
    | @named _ _ name value bindings' isName isValue others =>
      change Kept locals (own ++ live) bindings' at others
      have enough : bindings.length ≤ bindings'.length := by
        rw [count outside, count others, countP_append]
        exact Nat.le_add_left _ _
      rw [length_cons, Nat.succ_sub enough, drop_succ_cons]
      exact ih others
    | unnamed noName others => exact ih others

end Kept

/-- **The latest variable of a name has the value that the name is bound to.** -/
theorem find?_of_lookup (kept : Kept locals live bindings)
    (found : bindings.lookup name = some value) :
    ∃ l, live.find? (·.name = some name) = some l ∧ locals.getD l.slot .nil = value := by
  induction kept with
  | nil => cases found
  | @named l live other old bindings isName isValue _ ih =>
    rw [lookup_cons] at found
    split at found
    · rename_i same
      cases found
      refine ⟨l, ?_, isValue⟩
      rw [List.find?_cons_of_pos]
      simp only [isName, beq_iff_eq.1 same, decide_true]
    · rename_i differs
      rw [List.find?_cons_of_neg]
      · exact ih found
      · simpa [isName] using Ne.symm (beq_eq_false_iff_ne.1 differs)
  | @unnamed l live bindings noName _ ih =>
    rw [List.find?_cons_of_neg]
    · exact ih found
    · simp [noName]

/-- **An assignment writes the slot of the latest variable of the name**, and no other. -/
theorem find?_of_assign? (laid : Laid live) (kept : Kept locals live bindings)
    (assigned : bindings.assign? name value = some bindings') (stack : List Datum) :
    ∃ l, live.find? (·.name = some name) = some l ∧
      Kept ((⟨locals, stack⟩ : Memory).set l.slot value).locals live bindings' := by
  -- A variable with another slot keeps its value.
  have other {l : Local} {slot : Nat} (differs : l.slot ≠ slot) :
      ((⟨locals, stack⟩ : Memory).set slot value).locals.getD l.slot .nil =
        locals.getD l.slot .nil := by
    have same := Memory.get_set ⟨locals, stack⟩ slot l.slot value
    rw [if_neg differs] at same
    exact same
  induction kept generalizing bindings' with
  | nil => cases assigned
  | @named l live first old bindings isName isValue others ih =>
    rw [Bindings.assign?] at assigned
    split at assigned
    · rename_i same
      subst same
      cases assigned
      refine ⟨l, ?_, .named isName (getD_set_self locals stack l.slot value) (others.imp ?_)⟩
      · rw [List.find?_cons_of_pos]
        simp only [isName, decide_true]
      · -- The others have lower slots.
        intro later member
        have := (laid.2.slot_bounds member).2
        have := laid.1
        exact other (by omega)
    · rename_i differs
      obtain ⟨rest, isRest, rfl⟩ := map_eq_some_iff.1 assigned
      obtain ⟨found, isFound, kept⟩ := ih laid.2 isRest
      refine ⟨found, ?_, .named isName ((other ?_).trans isValue) kept⟩
      · rw [List.find?_cons_of_neg]
        · exact isFound
        · simpa [isName] using differs
      · have := (laid.2.slot_bounds (mem_of_find?_eq_some isFound)).2
        have := laid.1
        omega
  | @unnamed l live bindings noName others ih =>
    obtain ⟨found, isFound, kept⟩ := ih laid.2 assigned
    refine ⟨found, ?_, .unnamed noName kept⟩
    rw [List.find?_cons_of_neg]
    · exact isFound
    · simp [noName]

end Slots

theorem Level.id_lt_of_resolve? {here : Level} {outer : List Level} {name : String} {l : Local}
    (before : ∀ level ∈ outer, ∀ l ∈ level.locals, l.id < here.first)
    (elsewhere : here.find? name = none) (found : here.resolve? name outer = some l) :
    l.id < here.first := by
  -- What is found is one of the variables of the functions around.
  have inOuter : ∃ level ∈ outer, l ∈ level.locals := by
    clear before
    induction outer generalizing here with
    | nil =>
      rw [Level.resolve?, elsewhere] at found
      cases found
    | cons parent outer ih =>
      rw [Level.resolve?, elsewhere] at found
      dsimp only at found
      split at found
      · cases isFound : parent.find? name with
        | some l' =>
          have same : parent.resolve? name outer = some l' := by
            cases outer <;> rw [Level.resolve?, isFound]
          rw [same] at found
          cases found
          exact ⟨parent, mem_cons_self, mem_of_find?_eq_some isFound⟩
        | none =>
          obtain ⟨level, member, inside⟩ := ih isFound found
          exact ⟨level, mem_cons_of_mem _ member, inside⟩
      · cases found
  obtain ⟨level, member, inside⟩ := inOuter
  exact before level member l inside

/-! ## Evaluations -/

namespace Eval

variable {m : Eval α} {k : α → Eval β} {bindings : Bindings}

theorem bind_run (m : Eval α) (k : α → Eval β) (bindings : Bindings) :
    ((m >>= k).run bindings).run = (m.run bindings).run.bind fun
      | .ok (a, bindings) => ((k a).run bindings).run
      | .error result => some (.error result) := by
  show (ExceptT.bind (m.run bindings) _ : ExceptT Ending Option _).run = _
  show Option.bind (m.run bindings).run _ = _
  congr 1
  funext result
  cases result <;> rfl

theorem bind_cases {result : Except Ending (β × Bindings)}
    (run : ((m >>= k).run bindings).run = some result) :
    (∃ ending, (m.run bindings).run = some (.error ending) ∧ result = .error ending) ∨
      ∃ a between, (m.run bindings).run = some (.ok (a, between)) ∧
        ((k a).run between).run = some result := by
  rw [bind_run, bind_eq_some_iff] at run
  obtain ⟨first, isFirst, rest⟩ := run
  cases first with
  | error ending =>
    cases rest
    exact .inl ⟨ending, isFirst, rfl⟩
  | ok made => exact .inr ⟨made.1, made.2, isFirst, rest⟩

/-- What came of a block, without its variables. -/
def leaveBlock (outside : Nat) : Except Ending (α × Bindings) → Except Ending (α × Bindings)
  | .ok (a, inside) => .ok (a, inside.drop (inside.length - outside))
  | .error result => .error result

theorem inBlock_run (m : Eval α) (bindings : Bindings) :
    ((inBlock m).run bindings).run = (m.run bindings).run.map (leaveBlock bindings.length) := by
  have run : ((inBlock m).run bindings).run =
      ((m >>= fun a => dropTo bindings.length >>= fun _ => pure a).run bindings).run := rfl
  rw [run, bind_run]
  rcases (m.run bindings).run with _ | (_ | ⟨a, inside⟩) <;> rfl

end Eval

/-! ## Literals -/

theorem does_intOps (n : Int) (locals stack : List Datum) :
    Does ops captured (.ops (intOps n)) ⟨locals, stack⟩
      (.through ⟨locals, .int (.ofInt n) :: stack⟩) := by
  unfold intOps
  split
  · rename_i small
    have same : (Int8.ofInt n).toInt64 = Int64.ofInt n := by
      apply Int64.toInt_inj.1
      rw [Int8.toInt_toInt64, Int8.toInt_ofInt_of_le small.1 (Int.lt_add_one_of_le small.2),
        Int64.toInt_ofInt_of_le (by omega) (by omega)]
    rw [← same]
    exact .step rfl .nil
  · exact .step rfl .nil

theorem Literal.does_ops (value : Literal) (locals stack : List Datum) :
    Does ops captured (.ops value.ops) ⟨locals, stack⟩
      (.through ⟨locals, value.datum :: stack⟩) := by
  cases value with
  | bool b => cases b <;> exact .step rfl .nil
  | int n =>
    have pushed : Does ops captured (.ops (intOps n.toInt)) ⟨locals, stack⟩ _ :=
      does_intOps n.toInt locals stack
    rwa [Int64.ofInt_toInt] at pushed
  | _ => exact .step rfl .nil

/-! ## Following -/

/-- The variables that are visible at a place have slots of their own, and the function does not get
at them in another way. -/
structure Env.Slotted (captured : List Local) (env : Env) : Prop where
  laid : Laid env.live
  own : ∀ l ∈ env.live, l ∉ captured

theorem Env.Slotted.low {env : Env} (slotted : env.Slotted captured) :
    ∀ l ∈ env.live, l.slot ≤ env.live.length :=
  fun _ member => (slotted.laid.slot_bounds member).2

/-- A flow comes out as an evaluation does. Where the evaluation gives a value, the flow leaves that
on the stack, and the variables in their slots. -/
def Agrees (ops : Operators) (captured : List Local) (env : Env) (flow : Flow Op)
    (memory : Memory) (after : α → List Datum) :
    Except Ending (α × Bindings) → Prop
  | .ok (a, bindings) => ∃ locals, Kept locals env.live bindings ∧
      Does ops captured flow memory (.through ⟨locals, after a⟩)
  | .error result => Does ops captured flow memory (.ended result)

theorem Agrees.imp {env : Env} {flow flow' : Flow Op} {memory memory' : Memory}
    {after : α → List Datum}
    {result : Except Ending (α × Bindings)}
    (agrees : Agrees ops captured env flow memory after result)
    (does : ∀ exit, Does ops captured flow memory exit → Does ops captured flow' memory' exit) :
    Agrees ops captured env flow' memory' after result := by
  cases result with
  | error ending => exact does _ agrees
  | ok made =>
    obtain ⟨locals, holds, through⟩ := agrees
    exact ⟨locals, holds, does _ through⟩

theorem Agrees.inBlock {env inner : Env} {flow : Flow Op} {memory : Memory} {after : α → List Datum}
    {bindings : Bindings} {locals : List Datum} {inside : Except Ending (α × Bindings)}
    (agrees : Agrees ops captured inner flow memory after inside)
    (kept : Kept locals env.live bindings)
    (grown : env.live <:+ inner.live) :
    Agrees ops captured env (flow ++ .ops []) memory after
      (Eval.leaveBlock bindings.length inside) := by
  cases inside with
  | error ending => exact .leave agrees rfl
  | ok made =>
    obtain ⟨locals', kept', does⟩ := agrees
    obtain ⟨own, isInner⟩ := grown
    rw [← isInner] at kept'
    exact ⟨locals', kept'.drop kept, .seq does .nil⟩

/-- Wherever an evaluation has a result, a flow comes out in the same way. It starts where `env` is
visible, with the operands `before` on the stack, and leaves the operands `after` in their
place, where `env'` is visible. -/
def Follows (ops : Operators) (captured : List Local) (env : Env) (before : List Datum)
    (flow : Flow Op) (m : Eval α)
    (env' : Env) (after : α → List Datum) : Prop :=
  ∀ (bindings : Bindings) (locals stack : List Datum), Kept locals env.live bindings →
    ∀ result, (m.run bindings).run = some result →
      Agrees ops captured env' flow ⟨locals, before ++ stack⟩ (fun a => after a ++ stack) result

namespace Follows

variable {env env' env'' : Env} {before : List Datum} {flow flow' : Flow Op} {m : Eval α}
  {k : α → Eval β} {between : α → List Datum} {after : β → List Datum}

theorem bind_of {P : α → Prop} (first : Follows ops captured env before flow m env' between)
    (known : ∀ {bindings a inside}, (m.run bindings).run = some (.ok (a, inside)) → P a)
    (second : ∀ a, P a → Follows ops captured env' (between a) flow' (k a) env'' after) :
    Follows ops captured env before (flow ++ flow') (m >>= k) env'' after := by
  intro bindings locals stack holds result run
  rcases Eval.bind_cases run with ⟨ending, failed, rfl⟩ | ⟨a, inside, made, rest⟩
  · exact .leave (first bindings locals stack holds _ failed) rfl
  · obtain ⟨locals', holds', does⟩ := first bindings locals stack holds _ made
    exact (second a (known made) inside locals' stack holds' result rest).imp fun _ => .seq does

theorem bind (first : Follows ops captured env before flow m env' between)
    (second : ∀ a, Follows ops captured env' (between a) flow' (k a) env'' after) :
    Follows ops captured env before (flow ++ flow') (m >>= k) env'' after :=
  first.bind_of (P := fun _ => True) (fun _ => trivial) fun a _ => second a

theorem assoc {a b c : Flow Op}
    (follows : Follows ops captured env before (a ++ (b ++ c)) m env' between) :
    Follows ops captured env before (a ++ b ++ c) m env' between := by
  intro bindings locals stack holds result run
  exact (follows bindings locals stack holds result run).imp fun _ => Does.assoc

theorem scope {closings ending : List Op}
    (follows : Follows ops captured env before (flow ++ .ops ending) m env' between) :
    Follows ops captured env before (.scope closings flow ending) m env' between := by
  intro bindings locals stack holds result run
  exact (follows bindings locals stack holds result run).imp fun _ => Does.scope

theorem map (follows : Follows ops captured env before flow m env' between) {k : α → β}
    (same : ∀ a, after (k a) = between a) :
    Follows ops captured env before flow (m >>= fun a => pure (k a)) env' after := by
  intro bindings locals stack kept result run
  rcases Eval.bind_cases run with ⟨ending, failed, rfl⟩ | ⟨a, inside, made, rest⟩
  · exact follows bindings locals stack kept _ failed
  · cases rest
    obtain ⟨locals', kept', does⟩ := follows bindings locals stack kept _ made
    dsimp only at does
    rw [← same] at does
    exact ⟨locals', kept', does⟩

theorem frame (follows : Follows ops captured env before flow m env' between) (more : List Datum) :
    Follows ops captured env (before ++ more) flow m env' fun a => between a ++ more := by
  intro bindings locals stack holds result run
  have agrees := follows bindings locals (more ++ stack) holds result run
  simpa only [List.append_assoc] using agrees

/-! ### Operations -/

theorem op {operation : Op} {g : Option α}
    (performs : ∀ locals stack a, g = some a →
      operation.perform ops captured ⟨locals, before ++ stack⟩ =
        some (.ok ⟨locals, between a ++ stack⟩)) :
    Follows ops captured env before (.ops [operation]) (Eval.ofOption g) env between := by
  intro bindings locals stack holds result run
  obtain ⟨a, isGiven, rfl⟩ := map_eq_some_iff.1 run
  exact ⟨locals, holds, .step (performs locals stack a isGiven) .nil⟩

theorem give {operation : Op} {a : α}
    (performs : ∀ locals stack,
      operation.perform ops captured ⟨locals, before ++ stack⟩ =
        some (.ok ⟨locals, between a ++ stack⟩)) :
    Follows ops captured env before (.ops [operation]) (pure a) env between := by
  refine op (g := some a) fun locals stack _ isGiven => ?_
  rw [← Option.some.inj isGiven]
  exact performs locals stack

theorem stop {operation : Op} {result : Ending}
    (performs : ∀ locals stack, operation.perform ops captured ⟨locals, before ++ stack⟩ =
      some (.error result)) :
    Follows ops captured env before (.ops [operation]) (Eval.stop result : Eval α) env'
      between := by
  intro bindings locals stack holds _ run
  cases run
  exact .stop (performs locals stack)

theorem nothing {a : α} (same : between a = before) :
    Follows ops captured env before (.ops []) (pure a) env between := by
  intro bindings locals stack kept result run
  cases run
  refine ⟨locals, kept, ?_⟩
  rw [← same]
  exact .nil

theorem drop (value : Datum) :
    Follows ops captured env [value] (.ops [.plain .pop]) (pure ()) env fun _ => [] :=
  give fun _ _ => rfl

theorem unary (operator : UnaryOp) (value : Datum) :
    Follows ops captured env [value] (.ops [.plain (.unary operator)])
      (Eval.ofOption (ops.unary operator value)) env fun v => [v] := by
  refine op fun locals stack v isResult => ?_
  show (ops.unary operator value >>= fun v => _) = _
  rw [isResult]
  rfl

theorem binary (operator : BinaryOp) (left right : Datum) :
    Follows ops captured env [right, left] (.ops [.plain (.binary operator)])
      (Eval.ofOption (ops.binary operator left right)) env fun v => [v] := by
  refine op fun locals stack v isResult => ?_
  show (ops.binary operator left right >>= fun v => _) = _
  rw [isResult]
  rfl

theorem subscript (collection index : Datum) :
    Follows ops captured env [index, collection] (.ops [.plain .subscript])
      (Eval.ofOption (ops.subscript collection index)) env fun v => [v] := by
  refine op fun locals stack v isResult => ?_
  show (ops.subscript collection index >>= fun v => _) = _
  rw [isResult]
  rfl

theorem literal (value : Literal) :
    Follows ops captured env [] (.ops value.ops) (pure value.datum) env fun v => [v] := by
  intro bindings locals stack kept result run
  cases run
  exact ⟨locals, kept, value.does_ops locals stack⟩

section

variable {name : String} {found : Option Local} (slotted : env.Slotted captured)
  (finds : (env.here.find? name).isSome → found = env.here.find? name)

include slotted finds

theorem read :
    Follows ops captured env [] (.ops [.read env.live found]) (Eval.read name) env fun v =>
      [v] := by
  intro bindings locals stack kept result run
  obtain ⟨value, isBound, rfl⟩ := map_eq_some_iff.1 run
  obtain ⟨l, isLatest, isValue⟩ := find?_of_lookup kept isBound
  change env.here.find? name = some l at isLatest
  rw [finds (isSome_of_mem isLatest), isLatest]
  refine ⟨locals, kept, .step ?_ .nil⟩
  show (if l ∈ captured then none else
    some (Except.ok (⟨locals, locals.getD l.slot .nil :: stack⟩ : Memory))) = _
  rw [if_neg (slotted.own l (mem_of_find?_eq_some isLatest)), isValue]
  rfl

theorem write (value : Datum) :
    Follows ops captured env [value] (.ops [.write env.live found]) (Eval.assign name value) env
      fun _ => [value] := by
  intro bindings locals stack kept result run
  obtain ⟨bindings', assigned, rfl⟩ := map_eq_some_iff.1 run
  obtain ⟨l, isLatest, kept'⟩ := find?_of_assign? slotted.laid kept assigned (value :: stack)
  change env.here.find? name = some l at isLatest
  rw [finds (isSome_of_mem isLatest), isLatest]
  refine ⟨_, kept', .step ?_ .nil⟩
  show (if l ∈ captured then none else _) = _
  rw [if_neg (slotted.own l (mem_of_find?_eq_some isLatest))]
  rfl

end

end Follows

theorem does_store {l : Local} {live : List Local} (own : l ∉ captured)
    (locals stack : List Datum) (value : Datum) :
    Does ops captured (.ops [.set live l, .plain .pop]) ⟨locals, value :: stack⟩
      (.through ⟨((⟨locals, value :: stack⟩ : Memory).set l.slot value).locals, stack⟩) := by
  have stored : (Op.set live l).perform ops captured ⟨locals, value :: stack⟩ =
      some (.ok ((⟨locals, value :: stack⟩ : Memory).set l.slot value)) := by
    show (if l ∈ captured then none else _) = _
    rw [if_neg own]
    rfl
  exact .step stored (.step rfl .nil)

namespace Follows

variable {env env' env'' : Env} {before : List Datum} {flow flow' : Flow Op} {m : Eval α}
  {k : α → Eval β} {between : α → List Datum} {after : β → List Datum}

theorem declare {l : Local} {name : String} (slotted : env.Slotted captured)
    (isName : l.name = some name) (isSlot : l.slot = env.live.length + 1) (own : l ∉ captured)
    (value : Datum) :
    Follows ops captured env [value] (.ops [.set (env.declared l).live l, .plain .pop])
      (Eval.declare name value) (env.declared l) fun _ => [] := by
  intro bindings locals stack kept result run
  cases run
  refine ⟨_, ?_, does_store own locals stack value⟩
  rw [env.live_declared]
  exact .named isName (getD_set_self ..)
    (kept.unchanged slotted.low (.store isSlot (value :: stack) value))

/-! ### Constructions -/

theorem look_jump (operator : LogicalOp) (left : Datum) (locals stack : List Datum) :
    operator.jump.look ⟨locals, left :: stack⟩ =
      some (!operator.goesOn left, ⟨locals, left :: stack⟩) := by
  cases operator <;> simp [LogicalOp.jump, JumpKind.look, LogicalOp.goesOn]

theorem logical (operator : LogicalOp) (left : Datum) {right : Eval Datum}
    (isRight : Follows ops captured env [] flow right env fun v => [v]) :
    Follows ops captured env [left] (.skip operator.jump (.ops [.plain .pop] ++ flow))
      (if operator.goesOn left then right else pure left) env fun v => [v] := by
  intro bindings locals stack holds result run
  have looks := look_jump operator left locals stack
  split at run
  · rename_i goesOn
    rw [goesOn] at looks
    have body : Follows ops captured env [left] (.ops [.plain .pop] ++ flow) right env fun v =>
      [v] :=
      (drop left).bind (k := fun _ => right) fun _ => isRight
    exact (body bindings locals stack holds result run).imp fun _ => .into looks
  · rename_i settled
    rw [Bool.not_eq_true] at settled
    rw [settled] at looks
    cases run
    exact ⟨locals, holds, .past looks⟩

theorem look_whenFalse (value : Datum) (locals stack : List Datum) :
    JumpKind.whenFalse.look ⟨locals, value :: stack⟩ = some (!value.truthy, ⟨locals, stack⟩) :=
  rfl

theorem choose {m' : Eval α} (yes : Follows ops captured env [] flow m env' between)
    (no : Follows ops captured env [] flow' m' env' between) (holds : Datum) :
    Follows ops captured env [holds] (.choose flow flow') (if holds.truthy then m else m') env'
      between := by
  intro bindings locals stack held result run
  have looks := look_whenFalse holds locals stack
  split at run
  · rename_i truthy
    rw [truthy] at looks
    exact (yes bindings locals stack held result run).imp fun _ => .yes looks
  · rename_i falsy
    rw [Bool.not_eq_true] at falsy
    rw [falsy] at looks
    exact (no bindings locals stack held result run).imp fun _ => .no looks

/-- **A loop follows its rounds**, by induction on their number. -/
theorem loop {condition : Eval Datum} {body : Eval Unit}
    (isCondition : Follows ops captured env [] flow condition env fun v => [v])
    (isBody : Follows ops captured env [] flow' body env fun _ => []) (rounds : Nat) :
    Follows ops captured env [] (.loop flow flow') (Eval.repeatWhile condition body rounds) env
      fun _ => [] := by
  induction rounds with
  | zero => exact fun _ _ _ _ _ run => nomatch run
  | succ rounds ih =>
    intro bindings locals stack held result run
    rcases Eval.bind_cases run with ⟨ending, failed, rfl⟩ | ⟨value, inside, tested, rest⟩
    · exact .untested (isCondition bindings locals stack held _ failed) rfl
    obtain ⟨locals', held', does⟩ := isCondition bindings locals stack held _ tested
    have looks := look_whenFalse value locals' stack
    split at rest
    · rename_i truthy
      rw [truthy] at looks
      rcases Eval.bind_cases rest with ⟨ending, failed, rfl⟩ | ⟨_, inside', ran, others⟩
      · exact .broken does looks (isBody inside locals' stack held' _ failed) rfl
      · obtain ⟨locals'', held'', does'⟩ := isBody inside locals' stack held' _ ran
        exact (ih inside' locals'' stack held'' result others).imp fun _ => .again does looks does'
    · rename_i falsy
      rw [Bool.not_eq_true] at falsy
      rw [falsy] at looks
      cases rest
      exact ⟨locals', held', .done does looks⟩

theorem inBlock {inner : Env} (body : Follows ops captured env.enter [] flow m inner between)
    (grown : env.live <:+ inner.live) :
    Follows ops captured env [] (flow ++ .ops []) (Eval.inBlock m) env between := by
  intro bindings locals stack kept result run
  rw [Eval.inBlock_run] at run
  obtain ⟨inside, ran, rfl⟩ := map_eq_some_iff.1 run
  exact (body bindings locals stack kept inside ran).inBlock kept grown

end Follows

/-! ## Ways through the text -/

/-- A place in the text of a unit, where so much was counted and noted. Variables are told apart by
when they are declared. -/
structure Env.Settled (captured : List Local) (env : Env) (t : Progress) : Prop where
  laid : Laid env.live
  first : env.here.first ≤ t.count
  own : ∀ l ∈ env.live, env.here.first ≤ l.id
  outer : ∀ level ∈ env.outer, ∀ l ∈ level.locals, l.id < env.here.first
  captured : ∀ l ∈ captured, l.id < env.here.first
  noted : ∀ l ∈ t.mentions, l.id < t.count

/-- What was noted on a way is that variables of the functions around were mentioned. -/
structure Progress.Passes (first : Nat) (t t' : Progress) : Prop where
  count : t.count ≤ t'.count
  mentions : ∀ l ∈ t'.mentions, l ∈ t.mentions ∨ l.id < first
  members : t'.members = t.members
  records : t'.records = t.records

/-- A place behind another one in the same scope, with the variables that were declared between. -/
structure Env.Grows (env : Env) (count : Nat) (env' : Env) : Prop where
  behind : env.Extends env'
  fresh : ∃ new, env'.live = new ++ env.live ∧ ∀ l ∈ new, count ≤ l.id

namespace Env

variable {env env' env'' : Env} {t : Progress} {count count' : Nat}

theorem Settled.slotted (settled : env.Settled captured t) : env.Slotted captured := by
  refine ⟨settled.laid, fun l member isCaptured => ?_⟩
  have := settled.own l member
  have := settled.captured l isCaptured
  omega

theorem Settled.next_not_captured (settled : env.Settled captured t) (name : Option String)
    (slot : Nat) : (⟨name, slot, t.count⟩ : Local) ∉ captured := by
  intro isCaptured
  have := settled.first
  have : t.count < env.here.first := settled.captured _ isCaptured
  omega

theorem Grows.refl (env : Env) (count : Nat) : env.Grows count env := ⟨.refl env, [], rfl, nofun⟩

theorem Grows.trans (one : env.Grows count env') (two : env'.Grows count' env'')
    (le : count ≤ count') : env.Grows count env'' := by
  obtain ⟨new, isNew, ids⟩ := one.fresh
  obtain ⟨new', isNew', ids'⟩ := two.fresh
  refine ⟨one.behind.trans two.behind, new' ++ new, by rw [isNew', isNew, List.append_assoc], ?_⟩
  intro l member
  rcases mem_append.1 member with later | earlier
  · exact Nat.le_trans le (ids' l later)
  · exact ids l earlier

end Env

namespace Progress.Passes

variable {first : Nat} {t t' t'' : Progress}

theorem refl (first : Nat) (t : Progress) : t.Passes first t :=
  ⟨Nat.le_refl _, fun _ => .inl, rfl, rfl⟩

theorem trans (one : t.Passes first t') (two : t'.Passes first t'') : t.Passes first t'' where
  count := Nat.le_trans one.count two.count
  mentions l member := (two.mentions l member).elim (one.mentions l) .inr
  members := two.members.trans one.members
  records := two.records.trans one.records

end Progress.Passes

/-- From a place, a way through a part of the text without closures finds what it should, and leads
to a place behind it. -/
def Along (captured : List Local) (env : Env) (g : Gen α) (after : α → Env) (Q : α → Prop) : Prop :=
  ∀ t : Progress, env.Settled captured t → t.Passes env.here.first (g t).2 ∧
    env.Grows t.count (after (g t).1) ∧ (after (g t).1).Settled captured (g t).2 ∧ Q (g t).1

namespace Along

variable {env : Env} {g : Gen α} {h : α → Gen β} {after : α → Env} {after' : β → Env} {Q : α → Prop}
  {Q' : β → Prop}

theorem given (along : env.Slotted captured → Along captured env g after Q) :
    Along captured env g after Q :=
  fun t settled => along settled.slotted t settled

theorem pure {a : α} (here : after a = env) (holds : Q a) :
    Along captured env (Pure.pure a : Gen α) after Q := by
  intro t settled
  show t.Passes env.here.first t ∧ env.Grows t.count (after a) ∧ (after a).Settled captured t ∧ Q a
  rw [here]
  exact ⟨.refl _ t, .refl env _, settled, holds⟩

theorem bind (first : Along captured env g after Q)
    (second : ∀ a, env.Extends (after a) → (after a).Slotted captured → Q a →
      Along captured (after a) (h a) after' Q') :
    Along captured env (g >>= h) after' Q' := by
  intro t settled
  obtain ⟨passes, grows, settled', holds⟩ := first t settled
  obtain ⟨passes', grows', settled'', holds'⟩ :=
    second _ grows.behind settled'.slotted holds _ settled'
  rw [grows.behind.first] at passes'
  exact ⟨passes.trans passes', grows.trans grows' passes.count, settled'', holds'⟩

theorem imp {Q'' : α → Prop} (along : Along captured env g after Q) (weaker : ∀ a, Q a → Q'' a) :
    Along captured env g after Q'' := by
  intro t settled
  obtain ⟨passes, grows, settled', holds⟩ := along t settled
  exact ⟨passes, grows, settled', weaker _ holds⟩

theorem seq (first : Along captured env g (fun _ => env) Q)
    (second : ∀ a, Q a → Along captured env (h a) after' Q') :
      Along captured env (g >>= h) after' Q' :=
  first.bind fun a _ _ isA => second a isA

theorem mention (name : String) :
    Along captured env (Gen.mention env name) (fun _ => env)
      fun found => (env.here.find? name).isSome → found = env.here.find? name := by
  intro t settled
  cases isFound : env.here.find? name with
  | some l =>
    rw [Gen.mention_here isFound]
    exact ⟨.refl _ t, .refl env _, settled, fun _ => rfl⟩
  | none =>
    rw [Gen.mention_elsewhere isFound]
    have low : ∀ l ∈ env.here.resolve? name env.outer, l.id < env.here.first := by
      intro l resolved
      exact Level.id_lt_of_resolve? settled.outer isFound resolved
    refine ⟨⟨Nat.le_refl _, fun l member => ?_, rfl, rfl⟩, .refl env _,
      { settled with noted := fun l member => ?_ }, nofun⟩
    · rcases mem_append.1 member with old | new
      · exact .inl old
      · exact .inr (low l (Option.mem_toList.1 new))
    · rcases mem_append.1 member with old | new
      · exact settled.noted l old
      · exact Nat.lt_of_lt_of_le (low l (Option.mem_toList.1 new)) settled.first

theorem declare (name : Option String) :
    Along captured env (Gen.declare env name) Prod.snd fun made => ∃ l : Local,
      made = (l, env.declared l) ∧ l.name = name ∧ l.slot = env.live.length + 1 ∧ l ∉ captured := by
  intro t settled
  let l : Local := ⟨name, env.live.length + 1, t.count⟩
  have behind := Env.Extends.declared env l
  have live : (env.declared l).live = l :: env.live := env.live_declared l
  refine ⟨⟨Nat.le_succ _, fun _ => .inl, rfl, rfl⟩, ⟨behind, [l], live, ?_⟩, ?_, l, rfl, rfl, rfl,
    settled.next_not_captured name _⟩
  · intro l' member
    obtain rfl := mem_singleton.1 member
    exact Nat.le_refl _
  · show (env.declared l).Settled captured { t with count := t.count + 1 }
    refine ⟨?_, ?_, fun l' member => ?_, ?_, ?_, fun l' noted => ?_⟩
    · rw [live]
      exact ⟨rfl, settled.laid⟩
    · rw [behind.first]
      exact Nat.le_succ_of_le settled.first
    · rw [behind.first]
      rw [live] at member
      rcases mem_cons.1 member with rfl | old
      · exact settled.first
      · exact settled.own l' old
    · rw [behind.first, behind.outer]
      exact settled.outer
    · rw [behind.first]
      exact settled.captured
    · exact Nat.lt_succ_of_lt (settled.noted l' noted)

/-- **A scope closes nothing**: what it declares was not mentioned in other functions. -/
theorem inScope {part : Env → Gen (α × Env)} {Q : α × Env → Prop}
    (isPart : Along captured env.enter (part env.enter) Prod.snd Q) :
    Along captured env (Gen.inScope env part) (fun _ => env) fun made =>
      made.2.2 = [] ∧ ∃ inner, env.live <:+ inner.live ∧ Q (made.1, inner) := by
  intro t settled
  have entered : env.enter.Settled captured t := ⟨settled.laid, settled.first, settled.own,
    settled.outer, settled.captured, settled.noted⟩
  obtain ⟨passes, grows, settled', holds⟩ := isPart t entered
  rw [Gen.inScope_run]
  refine ⟨passes, .refl env _, ?_, ?_, _, grows.behind.locals, holds⟩
  · exact { settled with
      first := Nat.le_trans settled.first passes.count
      noted := settled'.noted }
  · obtain ⟨new, isNew, ids⟩ := grows.fresh
    have scope : ∀ l ∈ (part env.enter t).1.2.here.scopes.headD [], l ∈ new := by
      have tail : (part env.enter t).1.2.here.scopes.tail = env.here.scopes := grows.behind.scopes
      have live : (part env.enter t).1.2.here.scopes.flatten = new ++ env.here.scopes.flatten :=
        isNew
      generalize (part env.enter t).1.2.here.scopes = scopes at tail live
      cases scopes with
      | nil => exact nofun
      | cons head rest =>
        change rest = env.here.scopes at tail
        rw [flatten_cons, tail] at live
        rw [← append_cancel_right live]
        exact fun l member => member
    rw [map_eq_nil_iff, filter_eq_nil_iff]
    intro l member noted
    have late : t.count ≤ l.id := ids l (scope l (mem_reverse.1 member))
    rcases passes.mentions l (of_decide_eq_true noted) with old | outside
    · have := settled.noted l old
      omega
    · have : l.id < env.here.first := outside
      have := settled.first
      omega

end Along

end StackCode
