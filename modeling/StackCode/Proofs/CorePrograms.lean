import StackCode.Proofs.Destructuring
import StackCode.Proofs.UnitPieces

/-!
# Programs of the core language

The flow of a tree of the core language follows its evaluation, by induction on the tree. A unit of
the core language has nothing to run before its statements, so the machine, which does what the flow
does, runs it as it is evaluated. With patterns, operators have to be those on integers, since the
code of a pattern itself compares lengths and looks up elements.
-/

namespace StackCode

open List Option

variable {ops : Operators} {captured : List Local} {α β : Type}

/-! ## Collections -/

theorem length_of_evals {rounds : Nat} {items : List Expr} {bindings inside : Bindings}
    {values : List Datum}
    (run : ((Expr.evals ops rounds items).run bindings).run = some (.ok (values, inside))) :
    values.length = items.length := by
  induction items generalizing values bindings inside with
  | nil =>
    cases run
    rfl
  | cons e rest ih =>
    rw [Expr.evals] at run
    obtain ⟨_, _, failed⟩ | ⟨first, between, -, run⟩ := Eval.bind_cases run
    · cases failed
    obtain ⟨_, _, failed⟩ | ⟨others, _, made, run⟩ := Eval.bind_cases run
    · cases failed
    cases run
    rw [length_cons, length_cons, ih made]

theorem length_of_evalEntries {rounds : Nat} {entries : List (Expr × Expr)}
    {bindings inside : Bindings} {pairs : List (Datum × Datum)}
    (run : ((Expr.evalEntries ops rounds entries).run bindings).run = some (.ok (pairs, inside))) :
    pairs.length = entries.length := by
  induction entries generalizing pairs bindings inside with
  | nil =>
    cases run
    rfl
  | cons entry rest ih =>
    obtain ⟨key, value⟩ := entry
    rw [Expr.evalEntries] at run
    obtain ⟨_, _, failed⟩ | ⟨_, _, -, run⟩ := Eval.bind_cases run
    · cases failed
    obtain ⟨_, _, failed⟩ | ⟨_, _, -, run⟩ := Eval.bind_cases run
    · cases failed
    obtain ⟨_, _, failed⟩ | ⟨others, _, made, run⟩ := Eval.bind_cases run
    · cases failed
    cases run
    rw [length_cons, length_cons, ih made]

/-- The keys and values of some entries, in the order in which they are pushed. -/
def flatEntries (pairs : List (Datum × Datum)) : List Datum :=
  pairs.flatMap fun pair => [pair.1, pair.2]

theorem length_flatEntries (pairs : List (Datum × Datum)) :
    (flatEntries pairs).length = 2 * pairs.length := by
  induction pairs with
  | nil => rfl
  | cons pair rest ih =>
    have length : (flatEntries (pair :: rest)).length = (flatEntries rest).length + 2 := rfl
    rw [length, ih, length_cons]
    omega

theorem pairUp_flatEntries (pairs : List (Datum × Datum)) : pairUp (flatEntries pairs) = pairs := by
  induction pairs with
  | nil => rfl
  | cons pair rest ih => exact congrArg (pair :: ·) ih

theorem collect_reverse (items locals stack : List Datum) (make : List Datum → Datum) {count : Nat}
    (isCount : items.length = count) :
    (⟨locals, items.reverse ++ stack⟩ : Memory).collect count make =
      some (.ok ⟨locals, make items :: stack⟩) := by
  subst isCount
  have enough : items.length ≤ (items.reverse ++ stack).length := by
    rw [length_append, length_reverse]
    exact Nat.le_add_right _ _
  have taken : (items.reverse ++ stack).take items.length = items.reverse :=
    take_left' length_reverse
  have dropped : (items.reverse ++ stack).drop items.length = stack := drop_left' length_reverse
  rw [Memory.collect, Memory.gather?, if_pos enough, taken, dropped, reverse_reverse]
  rfl

/-! ## Patterns -/

/-- A flow follows an evaluation where a variable has a value. -/
def FollowsWith (ops : Operators) (captured : List Local) (l : Local) (v : Datum) (env : Env)
    (flow : Flow Op) (m : Eval α) (env' : Env) (after : α → List Datum) : Prop :=
  ∀ (bindings : Bindings) (locals stack : List Datum), Kept locals env.live bindings →
    locals.getD l.slot .nil = v → ∀ result, (m.run bindings).run = some result →
      Agrees ops captured env' flow ⟨locals, stack⟩ (fun a => after a ++ stack) result

section Patterns

variable {env env' : Env} {flow : Flow Op} {m : Eval α} {after : α → List Datum} {l : Local}
  {v : Datum}

theorem FollowsWith.store (slotted : env.Slotted captured) (noName : l.name = none)
    (isSlot : l.slot = env.live.length + 1) (own : l ∉ captured)
    (follows : FollowsWith ops captured l v (env.declared l) flow m env' after) :
    Follows ops captured env [v] (.ops [.set (env.declared l).live l, .plain .pop] ++ flow) m env'
      after := by
  intro bindings locals stack kept result run
  have kept' : Kept ((⟨locals, v :: stack⟩ : Memory).set l.slot v).locals (env.declared l).live
      bindings := by
    rw [env.live_declared]
    exact .unnamed noName (kept.unchanged slotted.low (.store isSlot (v :: stack) v))
  refine (follows bindings _ stack kept' (getD_set_self ..) result run).imp fun _ => .seq ?_
  exact does_store own locals stack v

theorem Follows.leave (noName : l.name = none)
    (follows : Follows ops captured env.enter [] flow m (env.enter.declared l) after) :
    Follows ops captured env [] (flow ++ .ops []) m env after := by
  intro bindings locals stack kept result run
  have agrees := follows bindings locals stack kept result run
  cases result with
  | error ending => exact .leave agrees rfl
  | ok made =>
    obtain ⟨a, bindings'⟩ := made
    obtain ⟨locals', kept', does⟩ := agrees
    rw [env.enter.live_declared] at kept'
    cases kept' with
    | named isName => cases noName.symm.trans isName
    | unnamed _ others => exact ⟨locals', others, .seq does .nil⟩

theorem Eval.parts_bind {pattern : Pattern} {k : Option Bindings → Eval α} {bindings : Bindings}
    {result : Except Ending (α × Bindings)}
    (run : ((Eval.parts pattern v >>= k).run bindings).run = some result) :
    pattern.isSized ∧ v.isSized ∧ ((k (pattern.parts? v)).run bindings).run = some result := by
  rcases Eval.bind_cases run with ⟨ending, failed, -⟩ | ⟨a, between, made, rest⟩
  · obtain ⟨_, _, never⟩ := map_eq_some_iff.1 failed
    cases never
  · obtain ⟨outcome, isOutcome, same⟩ := map_eq_some_iff.1 made
    cases same
    split at isOutcome
    · rename_i sized
      rw [Bool.and_eq_true] at sized
      cases isOutcome
      exact ⟨sized.1, sized.2, rest⟩
    · cases isOutcome

theorem Gen.takeApart_follows {value : Flow Op} {m : Eval Datum} (onIntegers : ops = .onIntegers)
    (pattern : Pattern) (mutable : Bool)
    (isValue : Follows ops captured env [] value m env fun v => [v]) :
    Along captured env (Gen.takeApart env pattern mutable value) Prod.snd fun made =>
      Follows ops captured env [] made.1 (do
        let value ← m
        match ← Eval.parts pattern value with
        | some parts => Eval.declareAll parts
        | none => Eval.stop (.thrown (mismatch mutable))) made.2 fun _ => [] := by
  subst onIntegers
  refine .given fun slotted => (Gen.takeApart_along pattern mutable value).imp fun made isMade => ?_
  obtain ⟨store, test, throw, isFlow, takes⟩ := isMade
  rw [isFlow]
  refine .assoc (.assoc (isValue.bind fun v bindings locals stack kept result run => ?_))
  obtain ⟨sized, sizedV, rest⟩ := Eval.parts_bind run
  have takesApart := takes locals v sized sizedV
  cases outcome : pattern.parts? v with
  | some parts =>
    obtain ⟨own, locals', grown, unchanged, keptParts, does⟩ := takesApart.goesOn parts outcome
    rw [outcome] at rest
    cases rest
    refine ⟨locals', ?_, (does stack).reassoc⟩
    rw [grown]
    exact keptParts.append (kept.unchanged slotted.low unchanged)
  | none =>
    rw [outcome] at rest
    cases rest
    exact (takesApart.throws outcome stack).reassoc

/-- **The first arm whose test holds is the one of the first case that matches.** -/
theorem Flow.switch_arm {test block : Flow Op} {closings : List Op}
    {arms : List (Flow Op × Flow Op)} {last : Flow Op}
    {pattern : Pattern} {m others : Eval Datum} {envT inner : Env} (onIntegers : ops = .onIntegers)
    (slotted : env.Slotted captured) (isLive : l ∈ env.live)
    (isTest : pattern.Tests captured env.enter l (test, envT))
    (isBlock : Follows ops captured envT [] block m inner fun v => [v])
    (grown : env.live <:+ inner.live)
    (isRest : FollowsWith ops captured l v env (.switch arms last) others env fun v => [v]) :
    FollowsWith ops captured l v env (.switch ((test, .scope closings block []) :: arms) last) (do
      match ← Eval.parts pattern v with
      | some parts =>
        Eval.inBlock do
          Eval.declareAll parts
          m
      | none => others) env fun v => [v] := by
  subst onIntegers
  intro bindings locals stack kept held result run
  obtain ⟨sized, sizedV, rest⟩ := Eval.parts_bind run
  obtain ⟨own, locals', unchanged, does, bound⟩ := isTest locals v held sized sizedV
  have does := does stack
  have kept' := kept.unchanged slotted.low unchanged
  cases outcome : pattern.parts? v with
  | some parts =>
    rw [outcome] at rest does
    obtain ⟨isOwn, keptParts⟩ := bound parts outcome
    have keptAll : Kept locals' envT.live (parts.reverse ++ bindings) := by
      rw [isOwn]
      exact keptParts.append kept'
    dsimp only at rest
    rw [Eval.inBlock_run] at rest
    obtain ⟨inside, ran, rfl⟩ := map_eq_some_iff.1 rest
    have ran' : ((m).run (parts.reverse ++ bindings)).run = some inside := ran
    have agrees := isBlock (parts.reverse ++ bindings) locals' stack keptAll inside ran'
    exact (agrees.inBlock kept' grown).imp fun _ inBlock => .seq does (.yes rfl (.scope inBlock))
  | none =>
    rw [outcome] at rest does
    have held' := (unchanged _ (slotted.low l isLive)).trans held
    exact (isRest bindings locals' stack kept' held' result rest).imp fun _ others =>
      .seq does (.no rfl others)

end Patterns

/-! ## Trees -/

section Trees

/-- A way through a part of the text gives a flow that follows an evaluation. -/
abbrev Gives (ops : Operators) (captured : List Local) (env : Env) (g : Gen (Flow Op)) (m : Eval α)
    (after : α → List Datum) : Prop :=
  Along captured env g (fun _ => env) fun flow => Follows ops captured env [] flow m env after

/-- It also declares variables for what stands behind it. -/
abbrev GivesOn (ops : Operators) (captured : List Local) (env : Env) (g : Gen (Flow Op × Env))
    (m : Eval α) (after : α → List Datum) : Prop :=
  Along captured env g Prod.snd fun made => Follows ops captured env [] made.1 m made.2 after

theorem Along.block {env : Env} {flows : Env → Gen (Flow Op × Env)} {m : Eval α}
    {after : α → List Datum} (body : GivesOn ops captured env.enter (flows env.enter) m after) :
    Gives ops captured env (Gen.scope env flows) (Eval.inBlock m) after := by
  refine body.inScope.seq fun made isMade => .pure rfl ?_
  obtain ⟨ending, inner, grown, follows⟩ := isMade
  rw [ending]
  exact (follows.inBlock grown).scope

theorem Gen.bind_follows (ops : Operators) {env : Env} (name : String) :
    Along captured env (Gen.bind env name) Prod.snd fun made => ∀ v,
      Follows ops captured env [v] (.ops made.1) (Eval.declare name v) made.2 fun _ => [] := by
  refine .given fun slotted => ?_
  refine (Along.declare (some name)).bind fun made _ _ isMade => .pure rfl fun v => ?_
  obtain ⟨l, rfl, isName, isSlot, own⟩ := isMade
  exact .declare slotted isName isSlot own v

theorem Stmt.along_next {site : Site} {env : Env} {stmt : Stmt} {rest : List Stmt} {rounds : Nat}
    (flow : Stmt.blockFlow site env (stmt :: rest) = (do
      let (first, env) ← stmt.flow site env
      let (others, env) ← Stmt.blockFlow site env rest
      return (first ++ others, env)))
    (eval : Stmt.evalBlock ops rounds (stmt :: rest) = (do
      stmt.eval ops rounds
      Stmt.evalBlock ops rounds rest))
    (isStmt : GivesOn ops captured env (stmt.flow site env) (stmt.eval ops rounds) fun _ => [])
    (isRest : ∀ inner, GivesOn ops captured inner (Stmt.blockFlow site inner rest)
      (Stmt.evalBlock ops rounds rest) fun v => [v]) :
    GivesOn ops captured env (Stmt.blockFlow site env (stmt :: rest))
      (Stmt.evalBlock ops rounds (stmt :: rest)) fun v => [v] := by
  rw [flow, eval]
  refine isStmt.bind fun first _ _ isFirst => (isRest _).bind fun others _ _ isOthers =>
    .pure rfl ?_
  exact isFirst.bind fun _ => isOthers

/-- Which programs are evaluated: those with patterns only where the operators are those on
integers. -/
structure Fragment (ops : Operators) where
  patterns : Bool
  fits : patterns = true → ops = .onIntegers

variable (rounds : Nat) (part : Fragment ops)

mutual

/-- **The flow of an expression follows its evaluation.** -/
theorem Expr.along (e : Expr) (site : Site) {env : Env} (core : e.isCore part.patterns) :
    Gives ops captured env (e.flow site env) (e.eval ops rounds) fun v => [v] := by
  cases e with
  | literal _ value => exact .pure rfl (.literal value)
  | sequence _ kind items =>
    rw [Expr.isCore] at core
    refine (Expr.along_all items site core).seq fun flow isFlow => .pure rfl ?_
    rw [Expr.eval]
    refine isFlow.bind_of (P := fun values => values.length = items.length) length_of_evals
      fun values isLength => .give fun locals stack => ?_
    exact collect_reverse values locals stack kind.datum isLength
  | map _ entries =>
    rw [Expr.isCore] at core
    refine (Expr.along_entries entries site core).seq fun flow isFlow => .pure rfl ?_
    rw [Expr.eval]
    refine isFlow.bind_of (P := fun pairs => pairs.length = entries.length) length_of_evalEntries
      fun pairs isLength => .give fun locals stack => ?_
    have isCount : (flatEntries pairs).length = 2 * entries.length := by
      rw [length_flatEntries, isLength]
    have collected := collect_reverse (flatEntries pairs) locals stack
      (fun items => .map (pairUp items))
      isCount
    rw [pairUp_flatEntries] at collected
    exact collected
  | «local» _ name =>
    refine .given fun slotted => ?_
    exact (Along.mention name).seq fun found finds => .pure rfl (.read slotted finds)
  | assign _ target operator value =>
    cases target with
    | ivar => simp [Expr.isCore] at core
    | «local» name =>
      rw [Expr.isCore] at core
      refine .given fun slotted => (Along.mention name).seq fun found finds => ?_
      refine (Expr.along value site core).seq fun flow isFlow => .pure rfl ?_
      cases operator with
      | none =>
        rw [Expr.eval]
        exact isFlow.bind fun v => (Follows.write slotted finds v).map fun _ => rfl
      | some operator =>
        rw [Expr.eval]
        refine .assoc (.assoc ((Follows.read slotted finds).bind fun old => ?_))
        refine (isFlow.frame [old]).bind fun v => (Follows.binary operator old v).bind fun v => ?_
        exact (Follows.write slotted finds v).map fun _ => rfl
  | binary _ operator left right =>
    rw [Expr.isCore, Bool.and_eq_true] at core
    refine (Expr.along left site core.1).seq fun first isFirst => ?_
    refine (Expr.along right site core.2).seq fun second isSecond => .pure rfl ?_
    rw [Expr.eval]
    refine .assoc (isFirst.bind fun l => (isSecond.frame [l]).bind fun r => ?_)
    exact .binary operator l r
  | unary _ operator operand =>
    rw [Expr.isCore] at core
    refine (Expr.along operand site core).seq fun flow isFlow => .pure rfl ?_
    rw [Expr.eval]
    exact isFlow.bind fun v => .unary operator v
  | logical _ operator left right =>
    rw [Expr.isCore, Bool.and_eq_true] at core
    refine (Expr.along left site core.1).seq fun first isFirst => ?_
    refine (Expr.along right site core.2).seq fun second isSecond => .pure rfl ?_
    rw [Expr.eval]
    exact isFirst.bind fun l => .logical operator l isSecond
  | block _ body =>
    rw [Expr.isCore] at core
    rw [Expr.eval]
    exact Along.block (Stmt.along_block body site.inBody core)
  | conditional _ condition thenBranch elseBranch =>
    rw [Expr.isCore, Bool.and_eq_true, Bool.and_eq_true] at core
    refine (Expr.along condition site core.1.1).seq fun first isFirst => ?_
    refine (Along.block (Stmt.along_block thenBranch site.inBody core.1.2)).seq fun yes isYes => ?_
    refine (Stmt.along_else elseBranch site core.2).seq fun no isNo => .pure rfl ?_
    rw [Expr.eval]
    exact isFirst.bind fun holds => .choose isYes isNo holds
  | switch span subject cases elseBranch =>
    rw [Expr.isCore, Bool.and_eq_true, Bool.and_eq_true, Bool.and_eq_true] at core
    obtain ⟨⟨⟨isOn, coreSubject⟩, coreCases⟩, coreElse⟩ := core
    refine Along.seq (Along.inScope (Q := fun made => ∃ l : Local, l.name = none ∧
      made.2 = env.enter.declared l ∧ Follows ops captured env.enter [] made.1
        ((Expr.switch span subject cases elseBranch).eval ops rounds) (env.enter.declared l)
        fun v => [v]) ?_) fun made isMade => .pure rfl ?_
    · refine .given fun slotted => ?_
      refine (Expr.along subject site coreSubject).seq fun value isValue => ?_
      refine (Along.declare none).bind fun made _ _ isMade => ?_
      obtain ⟨l, rfl, noName, isSlot, own⟩ := isMade
      have isLive : l ∈ (env.enter.declared l).live := by
        rw [Env.live_declared]
        exact mem_cons_self
      refine (Stmt.along_cases cases site isLive isOn coreCases).seq fun arms isArms => ?_
      refine (Stmt.along_else elseBranch site coreElse).seq fun last isLast => .pure rfl ?_
      refine ⟨l, noName, rfl, ?_⟩
      rw [Expr.eval]
      exact .assoc (isValue.bind fun v => FollowsWith.store slotted noName isSlot own
        (isArms last _ isLast v))
    · obtain ⟨whole, closings, ending⟩ := made
      obtain ⟨rfl, inner, -, l, noName, -, follows⟩ := isMade
      exact (follows.leave noName).scope
  | subscript _ receiver index =>
    rw [Expr.isCore, Bool.and_eq_true] at core
    refine (Expr.along receiver site core.1).seq fun first isFirst => ?_
    refine (Expr.along index site core.2).seq fun second isSecond => .pure rfl ?_
    rw [Expr.eval]
    refine .assoc (isFirst.bind fun l => (isSecond.frame [l]).bind fun r => ?_)
    exact .subscript l r
  | raise _ error =>
    rw [Expr.isCore] at core
    refine (Expr.along error site core).seq fun flow isFlow => .pure rfl ?_
    rw [Expr.eval]
    exact isFlow.bind fun v => .stop fun _ _ => rfl
  | _ => simp [Expr.isCore] at core

theorem Expr.along_all : ∀ (items : List Expr) (site : Site) {env : Env},
    Expr.allCore part.patterns items →
    Gives ops captured env (Expr.flows site env items)
      (Expr.evals ops rounds items) fun values => values.reverse
  | [], _, _, _ => .pure rfl (.nothing rfl)
  | e :: rest, site, env, core => by
    rw [Expr.allCore, Bool.and_eq_true] at core
    refine (Expr.along e site core.1).seq fun first isFirst => ?_
    refine (Expr.along_all rest site core.2).seq fun others isOthers => .pure rfl ?_
    rw [Expr.evals]
    refine isFirst.bind fun v => (isOthers.frame [v]).map fun values => ?_
    exact reverse_cons

theorem Expr.along_entries : ∀ (entries : List (Expr × Expr)) (site : Site) {env : Env},
    Expr.entriesCore part.patterns entries →
    Gives ops captured env (Expr.entryFlows site env entries)
      (Expr.evalEntries ops rounds entries) fun pairs => (flatEntries pairs).reverse
  | [], _, _, _ => .pure rfl (.nothing rfl)
  | (key, value) :: rest, site, env, core => by
    rw [Expr.entriesCore, Bool.and_eq_true, Bool.and_eq_true] at core
    refine (Expr.along key site core.1.1).seq fun first isFirst => ?_
    refine (Expr.along value site core.1.2).seq fun second isSecond => ?_
    refine (Expr.along_entries rest site core.2).seq fun others isOthers => .pure rfl ?_
    rw [Expr.evalEntries]
    refine .assoc (isFirst.bind fun k => (isSecond.frame [k]).bind fun v => ?_)
    refine (isOthers.frame [v, k]).map fun pairs => ?_
    show ([k, v] ++ flatEntries pairs).reverse = _
    rw [reverse_append]
    rfl

theorem Stmt.along_else : ∀ (branch : Option (List Stmt)) (site : Site) {env : Env},
    Stmt.elseCore part.patterns branch →
    Gives ops captured env (Stmt.elseFlow site env branch)
      (Stmt.evalElse ops rounds branch) fun v => [v]
  | none, _, _, _ => .pure rfl (.give fun _ _ => rfl)
  | some body, site, env, core => by
    rw [Stmt.elseCore] at core
    rw [Stmt.evalElse]
    exact Along.block (Stmt.along_block body site.inBody core)

theorem Stmt.along_cases : ∀ (cases : List SwitchCase) (site : Site) {env : Env} {l : Local},
    l ∈ env.live → part.patterns = true → Stmt.casesCore part.patterns cases →
    Along captured env (Stmt.caseFlows site env l cases) (fun _ => env) fun arms =>
      ∀ (last : Flow Op) (m : Eval Datum), Follows ops captured env [] last m env (fun v => [v]) →
        ∀ v, FollowsWith ops captured l v env (.switch arms last)
          (Stmt.evalCases ops rounds v m cases) env fun v => [v]
  | [], _, _, _, _, _, _ => by
    refine .pure rfl fun last m isLast v bindings locals stack kept _ result run => ?_
    rw [Stmt.evalCases] at run
    exact isLast bindings locals stack kept result run
  | ⟨pattern, body, _⟩ :: rest, site, env, l, isLive, isOn, core => by
    rw [Stmt.casesCore, Bool.and_eq_true] at core
    refine .given fun slotted => ?_
    refine Along.seq (Along.inScope (Q := fun made => ∃ envT,
      pattern.Tests captured env.enter l (made.1.1, envT) ∧
        Follows ops captured envT [] made.1.2 (Stmt.evalBlock ops rounds body) made.2 fun v =>
          [v]) ?_)
      fun made isMade => ?_
    · have isLive' : l ∈ env.enter.live := isLive
      refine (pattern.flow_along isLive').bind fun test _ _ isTest => ?_
      refine (Stmt.along_block body site.inBody core.1).bind fun block _ _ isBlock => .pure rfl ?_
      exact ⟨test.2, isTest, isBlock⟩
    · obtain ⟨⟨test, block⟩, closings, ending⟩ := made
      obtain ⟨rfl, inner, grown, envT, isTest, isBlock⟩ := isMade
      refine (Stmt.along_cases rest site isLive isOn core.2).seq fun arms isArms => .pure rfl ?_
      intro last m isLast v
      rw [Stmt.evalCases]
      exact Flow.switch_arm (part.fits isOn) slotted isLive isTest isBlock grown
        (isArms last m isLast v)

theorem Stmt.along_block : ∀ (body : List Stmt) (site : Site) {env : Env},
    Stmt.allCore part.patterns body →
    GivesOn ops captured env (Stmt.blockFlow site env body)
      (Stmt.evalBlock ops rounds body) fun v => [v]
  | [], _, _, _ => .pure rfl (.give fun _ _ => rfl)
  | stmt :: rest, site, env, core => by
    rw [Stmt.allCore, Bool.and_eq_true] at core
    have next (flow : Stmt.blockFlow site env (stmt :: rest) = _)
        (eval : Stmt.evalBlock ops rounds (stmt :: rest) = _) :=
      Stmt.along_next flow eval (Stmt.along stmt site core.1) fun inner =>
        Stmt.along_block rest site core.2
    cases stmt with
    | expression last value =>
      cases rest with
      | nil =>
        rw [Stmt.isCore] at core
        exact (Expr.along value site core.1).seq fun flow isFlow => .pure rfl isFlow
      | cons after rest => exact next rfl rfl
    | _ => exact next rfl rfl

theorem Stmt.along_all : ∀ (body : List Stmt) (site : Site) {env : Env},
    Stmt.allCore part.patterns body →
    GivesOn ops captured env (Stmt.flows site env body) (Stmt.evals ops rounds body) fun _ => []
  | [], _, _, _ => .pure rfl (.nothing rfl)
  | stmt :: rest, site, env, core => by
    rw [Stmt.allCore, Bool.and_eq_true] at core
    refine (Stmt.along stmt site core.1).bind fun first _ _ isFirst => ?_
    refine (Stmt.along_all rest site core.2).bind fun others _ _ isOthers => .pure rfl ?_
    rw [Stmt.evals]
    exact isFirst.bind fun _ => isOthers

theorem Expr.along_optional : ∀ (value : Option Expr) (site : Site) {env : Env},
    Expr.optionalCore part.patterns value →
    Gives ops captured env (Expr.optionalFlow site env value)
      (Expr.evalOptional ops rounds value) fun v => [v]
  | none, _, _, _ => .pure rfl (.give fun _ _ => rfl)
  | some value, site, env, core => by
    rw [Expr.optionalCore] at core
    exact Expr.along value site core

theorem Stmt.along (stmt : Stmt) (site : Site) {env : Env} (core : stmt.isCore part.patterns) :
    GivesOn ops captured env (stmt.flow site env) (stmt.eval ops rounds) fun _ => [] := by
  cases stmt with
  | expression _ value =>
    rw [Stmt.isCore] at core
    refine (Expr.along value site core).seq fun flow isFlow => .pure rfl ?_
    rw [Stmt.eval]
    exact isFlow.bind fun v => .drop v
  | ret _ value =>
    rw [Stmt.isCore] at core
    refine (Expr.along_optional value site core).seq fun flow isFlow => .pure rfl ?_
    rw [Stmt.eval]
    exact isFlow.bind fun v => .stop fun _ _ => rfl
  | loop _ condition body =>
    rw [Stmt.isCore, Bool.and_eq_true] at core
    refine (Expr.along condition site core.1).seq fun first isFirst => ?_
    refine (Along.block (Stmt.along_all body site.inBody core.2)).seq fun made isMade =>
      .pure rfl ?_
    rw [Stmt.eval]
    exact .loop isFirst isMade rounds
  | «variable» _ name _ _ initializer =>
    cases initializer with
    | none => simp [Stmt.isCore] at core
    | some initializer =>
      rw [Stmt.isCore] at core
      refine (Expr.along initializer site core).seq fun flow isFlow => ?_
      refine (Gen.bind_follows ops name).bind fun store _ _ isStore => .pure rfl ?_
      rw [Stmt.eval]
      exact isFlow.bind fun v => isStore v
  | patternVariable _ pattern mutable initializer =>
    rw [Stmt.isCore, Bool.and_eq_true] at core
    refine (Expr.along initializer site core.2).seq fun flow isFlow => ?_
    rw [Stmt.eval]
    exact Gen.takeApart_follows (part.fits core.1) pattern mutable isFlow
  | _ => simp [Stmt.isCore] at core

end

end Trees

/-! ## Units -/

section Units

variable {patterns : Bool} {rounds : Nat}
variable {body : List Stmt} {p : Program} {options : Options} {nesting : List String}
  {r : Registry}

theorem collectBody_core (core : Stmt.allCore patterns body) (c : Collection) :
    collectBody r nesting body c = c := by
  induction body with
  | nil => rfl
  | cons stmt rest ih =>
    rw [Stmt.allCore, Bool.and_eq_true] at core
    have here : collectStmt r nesting stmt c = c := by
      cases stmt <;> first | rfl | simp [Stmt.isCore] at core
    rw [collectBody, here, ih core.2]

theorem linkBody_core {owner : Option Owner} (core : Stmt.allCore patterns body) (l : Linking) :
    linkBody r nesting owner body l = l := by
  induction body with
  | nil => rfl
  | cons stmt rest ih =>
    rw [Stmt.allCore, Bool.and_eq_true] at core
    have here : linkStmt r nesting owner stmt l = l := by
      cases stmt <;> first | rfl | simp [Stmt.isCore] at core
    rw [linkBody, here, ih core.2]

theorem changes_core (core : p.isCore patterns) :
    (p.unitInfo options r).layouts.changes = [] := by
  have collected : collect r p.statements = ⟨.empty, #[]⟩ := collectBody_core core _
  have linked : (p.linked r).declared =
      { Declared.empty with namespaces :=
        OrderedMap.empty.map DeclaredNamespace.withDefaultSuperclass } := by
    rw [Program.linked, collected, link, linkBody_core core]
    rfl
  show (layOut r (p.linked r).declared _).layouts.changes = []
  rw [linked]
  rfl

/-- **A unit does what its evaluation comes to.** -/
theorem Program.scheme_does (core : p.isCore patterns)
    (fits : patterns = true → ops = .onIntegers) {result : Ending}
    (evaluates : p.eval ops rounds = some result) (locals : List Datum) :
    Does ops [] (p.scheme (p.unitInfo options r)).body ⟨locals, []⟩
      (.ended result) := by
  let unit := p.unitInfo options r
  have settled : Env.atTop.Settled [] .start := ⟨trivial, Nat.le_refl _, nofun, nofun, nofun, nofun⟩
  obtain ⟨passes, -, -, follows⟩ :=
    Stmt.along_all rounds ⟨patterns, fits⟩ p.statements ⟨unit, [rootName], .topLevel⟩ core
      .start settled
  have hoisted : unit.hoistedOps (p.flow unit).2.records
      (p.flow unit).2.members = [] := by
    have records : (p.flow unit).2.records = .empty := passes.records
    have members : (p.flow unit).2.members = [] := passes.members
    have changes : unit.layouts.changes = [] := changes_core core
    rw [records, members, UnitInfo.hoistedOps, changes]
    rfl
  have scheme : (p.scheme unit).body =
      .ops [] ++ (p.flow unit).1 ++ .ops [.plain .pushNil, .plain .ret] := by
    show Flow.ops (List.flatMap _ (unit.hoistedOps (p.flow unit).2.records
      (p.flow unit).2.members)) ++ _ ++ _ = _
    rw [hoisted]
    rfl
  obtain ⟨outcome, run, rfl⟩ := map_eq_some_iff.1 evaluates
  have agrees := follows [] locals [] .nil outcome run
  show Does ops [] (p.scheme unit).body _ _
  rw [scheme]
  cases outcome with
  | error result => exact .leave (.seq .nil agrees) rfl
  | ok made =>
    obtain ⟨locals', -, does⟩ := agrees
    exact .seq (.seq .nil does) (.step rfl (.stop rfl))

end Units

/-! ## Runs -/

theorem Assembled.ends {scheme : Scheme} {room instrs : List Instr} {f : CompiledFunction}
    (assembled : Assembled scheme room instrs f) (noCapture : scheme.captured = [])
    {result : Ending}
    (does : ∀ locals, Does ops [] scheme.body ⟨locals, []⟩ (.ended result)) :
    Machine.Ends ops f .start result := by
  have stands : StandsAt f (codeSize room) instrs :=
    ⟨room, [], by simpa using assembled.written, rfl⟩
  -- What is left behind making room for variables is the code of the scheme.
  have ends (locals : List Datum) : Machine.Ends ops f ⟨codeSize room, locals, []⟩ result := by
    have does := does locals
    rw [← noCapture] at does
    exact Codes.comes (W := f.world scheme.captured) rfl does (assembled.codes 0) stands
  have written := assembled.written
  rcases assembled.isRoom with rfl | ⟨count, rfl⟩
  · exact ends [.nil]
  · have makesRoom : Machine.step ops f .start =
        some (.ok ⟨codeSize [.indexed .prepLocals count],
          (⟨[.nil], []⟩ : Memory).prepare count.toNat⟩) := by
      have first : WrittenAs f.code ([] ++ .indexed .prepLocals count :: instrs) := written
      have size : codeSize [.indexed .prepLocals count] =
          codeSize [] + (Instr.indexed .prepLocals count).size := by
        rw [codeSize_cons, Nat.add_comm]
      rw [size]
      exact Machine.step_perform first rfl _
    exact Machine.Leads.ends (.single makesRoom) (ends _)

/-- **The machine runs a unit of the core language as the unit is evaluated**: if the evaluation
returns or throws a value, so does the run, whatever operators and subscripts give. -/
theorem compileAgainst_runs {options : Options} {base current : Registry} {p : Program}
    {f : CompiledFunction} {rounds : Nat} {result : Ending} (core : p.isCore false)
    (compiled : (compileAgainst options base current p).1.function = some f)
    (evaluates : p.eval ops rounds = some result) :
    ∃ enough, ∀ steps ≥ enough, Machine.run ops f steps .start = some result := by
  obtain ⟨⟨room, instrs, assembled⟩, -⟩ := compileAgainst_assembled compiled
  exact (assembled.ends rfl fun locals => Program.scheme_does core nofun evaluates locals).run

/-- Numbers that are added up in a loop, with a variable of its body. -/
def summingUnit : Program :=
  let at_ := Span.zero
  let get (name : String) : Expr := .local at_ name
  let number (n : Int64) : Expr := .literal at_ (.int n)
  .ofStatements [
    .variable at_ "i" true none (some (number 0)),
    .variable at_ "sum" true none (some (number 0)),
    .loop at_ (.binary at_ .less (get "i") (number 4)) [
      .variable at_ "next" false none (some (.binary at_ .add (get "i") (number 1))),
      .expression at_ (.assign at_ (.local "sum") (some .add) (get "next")),
      .expression at_ (.assign at_ (.local "i") none (get "next"))],
    .ret at_ (some (.sequence at_ .list [get "sum", get "i"]))]

theorem compileAgainst_runs_summing :
    ∃ f, (compileAgainst (.forFile "summing") .prelude .prelude summingUnit).1.function = some f ∧
      ∃ enough, ∀ steps ≥ enough, Machine.run .onIntegers f steps .start =
        some (.returned (.list [.int 10, .int 4])) := by
  have compiles : (compileAgainst (.forFile "summing") .prelude .prelude
      summingUnit).1.function.isSome := by
    decide +kernel
  obtain ⟨f, compiled⟩ := Option.isSome_iff_exists.1 compiles
  have evaluates : summingUnit.eval .onIntegers 5 = some (.returned (.list [.int 10, .int 4])) := by
    rfl
  exact ⟨f, compiled, compileAgainst_runs (by decide) compiled evaluates⟩

end StackCode
