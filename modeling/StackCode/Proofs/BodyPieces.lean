import StackCode.Proofs.DeclarationPieces

/-!
# The code of expressions and statements

The code of an expression is that of its flow, and leaves one operand more. The code of a statement
is that of its flow, and leaves the stack as it was. Both are shown together, by one induction over
the syntax, whose cases are the rules for pieces.
-/

namespace StackCode

open Builds

/-! ## Code behind other code -/

/-- Code that is put behind other code, for a part of the text that declares nothing. -/
abbrev PushesBehind (count : Nat) (env : Env) (code : Code) (c : Compile Code) (g : Gen (Flow Op)) :
    Prop :=
  ∀ P : World → Prop, Builds env P c g (fun _ => env) fun W whole flow =>
    ∃ more, whole = code ++ more ∧ Coded W 0 count flow more

/-- The same for a part of the text behind which more may be visible. -/
abbrev RunsBehind (count : Nat) (env : Env) (code : Code) (c : Compile Code)
    (g : Gen (Flow Op × Env)) : Prop :=
  ∀ P : World → Prop, Builds env P c g Prod.snd fun W whole made =>
    ∃ more, whole = code ++ more ∧ Coded W 0 count made.1 more

variable {env : Env} {count : Nat} {code : Code} {c : Compile Code}

theorem PushesBehind.pushes {g : Gen (Flow Op)} (behind : PushesBehind count env #[] c g) :
    Pushes count env c g := by
  refine fun P => (behind P).imp fun W whole flow _ made => ?_
  obtain ⟨more, rfl, coded⟩ := made
  rwa [Array.empty_append]

theorem RunsBehind.runs {g : Gen (Flow Op × Env)} (behind : RunsBehind count env #[] c g) :
    Runs count env c g := by
  refine fun P => (behind P).imp fun W whole flow _ made => ?_
  obtain ⟨more, rfl, coded⟩ := made
  rwa [Array.empty_append]

theorem Pushes.runs {g : Gen (Flow Op)} (pushes : Pushes count env c g) :
    Runs count env c (do
      let flow ← g
      return (flow, env)) :=
  fun P => (pushes P).gen_map (fun _ => rfl) fun _ _ _ _ _ coded => coded

theorem Runs.behind {g : Gen (Flow Op × Env)} {next : Code → Compile Code}
    {h : Env → Gen (Flow Op × Env)} (runs : Runs 0 env c g)
    (rest : ∀ more inner, RunsBehind count inner (code ++ more) (next more) (h inner)) :
    RunsBehind count env code (c >>= next) (do
      let (first, env) ← g
      let (others, env) ← h env
      return (first ++ others, env)) := by
  refine fun P => (runs P).bind fun more made => ?_
  refine (rest more made.2 _).gen_map (fun _ => rfl) fun W whole others given _ made => ?_
  obtain ⟨last, rfl, coded⟩ := made
  exact ⟨more ++ last, Array.append_assoc, given.2.2.append coded⟩

theorem block_last_runs {site : Site} {span last : Span} {value : Expr} {returned warned : Bool}
    (isValue : Pushes 1 env (compileExpr site value) (value.flow site env)) :
    RunsBehind 1 env code (compileBlock site span returned warned code [.expression last value])
      (Stmt.blockFlow site env [.expression last value]) :=
  fun _ => Builds.warned fun P => (isValue P).seq fun more _ => pure rfl fun _ given =>
    ⟨more, rfl, given.2⟩

theorem block_next_runs {site : Site} {span : Span} {stmt : Stmt} {rest : List Stmt}
    {returned warned : Bool}
    (next : compileBlock site span returned warned code (stmt :: rest) = (do
      let isLate := returned && !warned && stmt.producesCode
      if isLate then Compile.warnUnreachable site stmt.span
      let more ← compileStmt site stmt
      compileBlock site span (returned || stmt.isReturn) (warned || isLate) (code ++ more) rest))
    (flow : Stmt.blockFlow site env (stmt :: rest) = (do
      let (first, env) ← stmt.flow site env
      let (others, env) ← Stmt.blockFlow site env rest
      return (first ++ others, env)))
    (isStmt : Runs 0 env (compileStmt site stmt) (stmt.flow site env))
    (isRest : ∀ returned warned code inner, RunsBehind 1 inner code
      (compileBlock site span returned warned code rest) (Stmt.blockFlow site inner rest)) :
    RunsBehind 1 env code (compileBlock site span returned warned code (stmt :: rest))
      (Stmt.blockFlow site env (stmt :: rest)) := by
  rw [next, flow]
  exact fun _ => Builds.warned (Runs.behind isStmt fun more inner =>
    isRest _ _ (code ++ more) inner)

theorem functionBody_returns {params : List Parameter} {defaults : List (Option Nat) → Compile Code}
    {block : Code → Compile Code} {g : Env → List Local → Gen (Flow Op)}
    {h : Env → Gen (Flow Op × Env)}
    (failed : ∀ (slots : List (Option Nat)) (s : CompileState), Failed s.issues →
      Failed (defaults slots s).2.issues)
    (isDefaults : ∀ (locals : List Local) (inner : Env) (P : World → Prop),
      (∀ W, P W → ∀ l ∈ locals, l ∈ inner.live) →
      Builds inner P (defaults (locals.map (some ·.slot))) (g inner locals) (fun _ => inner)
        fun W whole flow => ∃ more, whole = #[] ++ more ∧ Coded W 0 0 flow more)
    (isBlock : ∀ code inner, RunsBehind 1 inner code (block code) (h inner)) (inner : Env) :
    Builds inner (fun _ => True) (do
      let slots ← declareParams .empty false #[] params
      let code ← defaults slots
      block code) (do
      let (locals, env) ← Gen.params inner params
      let defaults ← g env locals
      let (block, env) ← h env
      return (defaults ++ block ++ .ops [.plain .ret], env)) Prod.snd
      fun W code found => Returns W code found.1 := by
  refine (Builds.declareParams params .empty false #[]).bind fun slots made => ?_
  obtain ⟨locals, env⟩ := made
  refine known (φ := slots = locals.map (some ·.slot)) (fun s before => ?_)
    (fun W given => given.2.2.1) fun isSlots => ?_
  · exact (isBlock _ inner (fun _ => True)).failed _ (failed slots s before)
  subst isSlots
  refine (isDefaults locals env _ fun W given => given.2.2.2).seq fun code flow => ?_
  refine (isBlock code env _).gen_map (fun _ => rfl) fun W whole found given _ made => ?_
  obtain ⟨first, rfl, isFirst⟩ := given.2
  obtain ⟨more, rfl, coded⟩ := made
  rw [Array.empty_append]
  exact ⟨List.cons_ne_nil _ _, fun span stop =>
    (isFirst.append coded).append (coded_ret span stop)⟩

theorem compileDefaults_failed (site : Site) (params : List Parameter) (slots : List (Option Nat))
    (s : CompileState) (before : Failed s.issues) :
    Failed (compileDefaults site #[] params slots s).2.issues :=
  (@compileDefaults_makes site [] params slots #[] .forbidden).failed s before

theorem chain_take {op : Op} {start : Nat} (effect : op.effect = ⟨count, 1, false⟩)
    (takes : start = count) : Chain Op.effect start [op] 1 := by
  subst takes
  refine .one ?_ ?_
  · exact Nat.le_of_eq (congrArg Effect.pops effect)
  · rw [effect]
    exact congrArg (· + 1) (Nat.sub_self _)

mutual

/-- **The code of an expression** is that of its flow, and leaves one operand more. -/
theorem compileExpr_pushes (site : Site) : ∀ (e : Expr) {env : Env},
    Pushes 1 env (compileExpr site e) (e.flow site env)
  | .literal span value, _ => fun _ =>
    load_last (Loads.loadLiteral value span) rfl fun _ _ _ loaded => loaded.coded (value.chain 0)
  | .self span, _ => fun _ => pure rfl fun _ _ => .one (.plain _) span (.one (Nat.zero_le _) rfl)
  | .sequence span .list items, _ => fun P => by
    refine ((compileExprs_push site items #[]).pushes P).seq fun code flow => ?_
    refine load (Loads.sequence .list items.length span) fun make => pure rfl fun W given => ?_
    exact given.1.2.append (given.2.coded (chain_take rfl rfl))
  | .sequence span .tuple items, _ => fun P => by
    refine ((compileExprs_push site items #[]).pushes P).seq fun code flow => ?_
    refine load (Loads.sequence .tuple items.length span) fun make => pure rfl fun W given => ?_
    exact given.1.2.append (given.2.coded (chain_take rfl rfl))
  | .map span entries, _ => fun P => by
    refine ((compileEntries_push site entries #[]).pushes P).seq fun code flow => ?_
    refine load (Loads.map entries.length span) fun make => pure rfl fun W given => ?_
    exact given.1.2.append (given.2.coded (chain_take rfl rfl))
  | .local span name, _ => getVariable name span
  | .ivar span name, _ => getIvar site name span
  | .constant span path, _ => fun _ =>
    load_last (Loads.getPath site path span) rfl fun _ _ _ loaded =>
      loaded.coded (.one (Nat.zero_le _) rfl)
  | .assign span (.local name) operator value, _ =>
    assignVariable name operator span (compileExpr_pushes site value)
  | .assign span (.ivar name) operator value, _ =>
    assignIvar site name operator span (compileExpr_pushes site value)
  | .binary span operator left right, _ => fun P => by
    refine (compileExpr_pushes site left P).seq fun left first => ?_
    refine (compileExpr_pushes site right _).seq fun right second => pure rfl fun W given => ?_
    exact (given.1.2.append (given.2.frame 1)).append
      (.one (.plain _) span (.one (Nat.le_refl _) rfl))
  | .unary span operator operand, _ => fun P => by
    refine (compileExpr_pushes site operand P).seq fun operand flow => pure rfl fun W given => ?_
    exact given.2.append (.one (.plain _) span (.one (Nat.le_refl _) rfl))
  | .logical span .and left right, _ =>
    shortCircuit .whenFalseKeep nofun rfl rfl span (compileExpr_pushes site left)
      (compileExpr_pushes site right)
  | .logical span .or left right, _ =>
    shortCircuit .whenTrueKeep nofun rfl rfl span (compileExpr_pushes site left)
      (compileExpr_pushes site right)
  | .block span body, _ =>
    inScope span (compileBlock_runs site.inBody span body false false #[]).runs
  | .conditional span condition thenBranch elseBranch, env => by
    have isThen : Pushes 1 env _
        (Gen.scope env fun env => Stmt.blockFlow site.inBody env thenBranch) :=
      inScope span (compileBlock_runs site.inBody span thenBranch false false #[]).runs
    exact conditional span (compileExpr_pushes site condition) isThen
      (compileElse_pushes site span elseBranch)
  | .switch span subject cases elseBranch, env => by
    refine inScope span fun P => (compileExpr_pushes site subject P).seq fun value flow => ?_
    refine declareHidden_bind "switch subject" span (fun s before => ?_) fun l inner => ?_
    · -- Without a slot for the subject there was a failure.
      have isCases := (@compileCases_makes site [] true none cases #[] .forbidden True).failed s
        before
      have isElse := (@compileElse_pushes site span elseBranch env fun _ => True).failed _ isCases
      exact (Loads.joinArms (P := fun _ => True) span _ _ _ #[] rfl).failed _ isElse
    · refine (setSlot span fun W given => given.2.2).step fun store => ?_
      refine (compileCases_arms site cases #[] fun W given => given.1.2.2).seq fun arms flows => ?_
      refine (compileElse_pushes site span elseBranch _).seq fun last lastFlow => ?_
      refine (Builds.switch span arms last flows lastFlow fun W given => ?_).step
        fun branches => pure rfl fun W given => ?_
      · obtain ⟨⟨-, more, rfl, each⟩, isLast⟩ := given
        exact ⟨each, isLast⟩
      · obtain ⟨⟨⟨⟨⟨⟨-, coded⟩, -⟩, isStore⟩, -⟩, -⟩, isBranches⟩ := given
        have stored : Coded W 1 0 (.ops [.set inner.live l, .plain .pop])
            (store ++ Code.plain span .pop) := by
          refine .ops ?_ ⟨Nat.le_refl _, 1, fun _ => rfl, Nat.le_refl _, 0, fun _ => rfl, rfl⟩
          rw [Code.instrs_append]
          exact List.rel_append isStore (.cons (.plain _) .nil)
        simpa only [Array.append_assoc] using (coded.append stored).append isBranches
  | .closure span params body, _ => by
    refine Builds.makeClosure site params span fun inner => ?_
    exact functionBody_returns (compileDefaults_failed site.inBody params)
      (fun locals inner P isLive => compileDefaults_run site.inBody params locals #[] isLive)
      (fun code inner => compileBlock_runs site.inBody span body false false code) inner
  | .methodCall span receiver name arguments, _ => fun P => by
    refine (compileExpr_pushes site receiver P).seq fun receiver first => ?_
    refine (compileExprs_push site arguments receiver _).seq fun code second => ?_
    refine load (Loads.send .method name _ span) fun call => pure rfl fun W given => ?_
    obtain ⟨⟨⟨-, isFirst⟩, more, rfl, isSecond⟩, isCall⟩ := given
    exact (isFirst.append (isSecond.frame 1)).append
      (isCall.coded (chain_take rfl (Nat.add_comm 1 _)))
  | .selfCall span name arguments, _ => fun P => by
    refine ((compileExprs_push site arguments #[]).pushes P).seq fun code flow => ?_
    refine load (Loads.send .self name _ span) fun call => pure rfl fun W given => ?_
    exact given.1.2.append (given.2.coded (chain_take rfl rfl))
  | .call span callee arguments, _ => fun P => by
    refine (compileExpr_pushes site callee P).seq fun callee first => ?_
    refine (compileExprs_push site arguments callee _).seq fun code second => ?_
    refine load (Loads.argumentCount _ span) fun argc => pure rfl fun W given => ?_
    obtain ⟨⟨⟨-, isFirst⟩, more, rfl, isSecond⟩, counted⟩ := given
    exact (isFirst.append (isSecond.frame 1)).append
      (.one (.call counted) span (chain_take rfl (Nat.add_comm 1 _)))
  | .subscript span receiver index, _ => fun P => by
    refine (compileExpr_pushes site receiver P).seq fun left first => ?_
    refine (compileExpr_pushes site index _).seq fun right second => pure rfl fun W given => ?_
    exact (given.1.2.append (given.2.frame 1)).append
      (.one (.plain _) span (.one (Nat.le_refl _) rfl))
  | .new span className arguments, _ => fun P => by
    refine load (Loads.getPath site className span) fun className => ?_
    refine (compileExprs_push site arguments className _).seq fun code flow => ?_
    refine load (Loads.argumentCount _ span) fun argc => pure rfl fun W given => ?_
    obtain ⟨⟨⟨-, isClass⟩, more, rfl, coded⟩, counted⟩ := given
    have first : Coded W 0 1 (.ops [.constant none]) className :=
      isClass.coded (.one (Nat.zero_le _) rfl)
    exact (first.append (coded.frame 1)).append
      (.one (.instantiate counted) span (chain_take rfl (Nat.add_comm 1 _)))
  | .raise span error, _ => fun P => by
    refine (compileExpr_pushes site error P).seq fun error flow => pure rfl fun W given => ?_
    exact given.2.append (.one (.plain _) span ⟨Nat.le_refl _, 1, nofun, rfl⟩)

theorem compileExprs_push (site : Site) : ∀ (items : List Expr) (code : Code) {env : Env},
    PushesBehind items.length env code (compileExprs site code items) (Expr.flows site env items)
  | [], code, _ => fun _ => pure rfl fun _ _ => ⟨#[], by rw [Array.append_empty], .nil⟩
  | e :: rest, code, _ => fun P => by
    refine (compileExpr_pushes site e P).seq fun more first => ?_
    refine (compileExprs_push site rest (code ++ more) _).gen_map (fun _ => rfl)
      fun W whole others given _ made => ?_
    obtain ⟨last, rfl, coded⟩ := made
    refine ⟨more ++ last, Array.append_assoc, ?_⟩
    rw [List.length_cons, Nat.add_comm]
    exact given.2.append (coded.frame 1)

theorem compileEntries_push (site : Site) :
    ∀ (entries : List (Expr × Expr)) (code : Code) {env : Env},
    PushesBehind (2 * entries.length) env code (compileEntries site code entries)
      (Expr.entryFlows site env entries)
  | [], code, _ => fun _ => pure rfl fun _ _ => ⟨#[], by rw [Array.append_empty], .nil⟩
  | (key, value) :: rest, code, _ => fun P => by
    refine (compileExpr_pushes site key P).seq fun more first => ?_
    refine (compileExpr_pushes site value _).seq fun more' second => ?_
    refine (compileEntries_push site rest (code ++ more ++ more') _).gen_map (fun _ => rfl)
      fun W whole others given _ made => ?_
    obtain ⟨last, rfl, coded⟩ := made
    refine ⟨more ++ more' ++ last, by simp only [Array.append_assoc], ?_⟩
    rw [List.length_cons, Nat.mul_add, Nat.add_comm]
    exact (given.1.2.append (given.2.frame 1)).append (coded.frame 2)

theorem compileElse_pushes (site : Site) (span : Span) : ∀ (body : Option (List Stmt)) {env : Env},
    Pushes 1 env (compileElse site span body) (Stmt.elseFlow site env body)
  | none, _ => fun _ => pure rfl fun _ _ => .one (.plain _) span (.one (Nat.zero_le _) rfl)
  | some body, _ => inScope span (compileBlock_runs site.inBody span body false false #[]).runs

theorem compileCases_arms (site : Site) :
    ∀ (cases : List SwitchCase) (arms : Array Compile.Arm) {env : Env} {l : Local}
      {P : World → Prop}, (∀ W, P W → l ∈ env.live) →
    Builds env P (compileCases site (some l.slot) arms cases) (Stmt.caseFlows site env l cases)
      (fun _ => env) fun W all flows => ∃ more, all = arms.toList ++ more ∧
        List.Forall₂ (ArmCoded W) flows more
  | [], arms, _, _, _, _ => pure rfl fun _ _ => ⟨[], by rw [List.append_nil], .nil⟩
  | ⟨pattern, body, span⟩ :: rest, arms, env, l, P, isLive => by
    have isArm : Builds env.enter P (do
        let test ← Compile.patternTest pattern l.slot false
        let body ← compileBlock site.inBody span false false #[] body
        return (test, body)) (do
        let (test, env) ← pattern.flow env.enter l
        let (block, env) ← Stmt.blockFlow site.inBody env body
        return ((test, block), env)) Prod.snd fun W codes made =>
          Coded W 0 1 made.1.1 codes.1 ∧ Coded W 0 1 made.1.2 codes.2 := by
      have isLive' : ∀ W, P W → l ∈ env.enter.live := isLive
      refine (patternTest pattern false isLive').bind fun test made => ?_
      refine ((compileBlock_runs site.inBody span body false false #[]).runs _).bind
        fun block made => pure rfl fun W given => ?_
      exact ⟨given.1.2.2, given.2.2⟩
    refine (Builds.arm span isArm).seq fun next made => ?_
    refine (compileCases_arms site rest (arms.push next) fun W given => isLive W given.1).gen_map
      (fun _ => rfl) fun W all flows given _ made => ?_
    obtain ⟨more, rfl, each⟩ := made
    exact ⟨next :: more, by simp, .cons given.2 each⟩

theorem compileDefaults_run (site : Site) :
    ∀ (params : List Parameter) (locals : List Local) (code : Code) {env : Env} {P : World → Prop},
    (∀ W, P W → ∀ l ∈ locals, l ∈ env.live) →
    Builds env P (compileDefaults site code params (locals.map (some ·.slot)))
      (Expr.defaultFlows site env params locals) (fun _ => env) fun W whole flow =>
        ∃ more, whole = code ++ more ∧ Coded W 0 0 flow more
  | [], _, code, _, _, _ => pure rfl fun _ _ => ⟨#[], by rw [Array.append_empty], .nil⟩
  | ⟨_, none, _, _⟩ :: _, [], code, _, _, _ =>
    pure rfl fun _ _ => ⟨#[], by rw [Array.append_empty], .nil⟩
  | ⟨_, some _, _, _⟩ :: _, [], code, _, _, _ =>
    pure rfl fun _ _ => ⟨#[], by rw [Array.append_empty], .nil⟩
  | ⟨_, none, _, _⟩ :: params, l :: locals, code, _, _, isLive =>
    compileDefaults_run site params locals code fun W given l' member =>
      isLive W given l' (List.mem_cons_of_mem l member)
  | ⟨_, some value, _, span⟩ :: params, l :: locals, code, _, _, isLive => by
    refine (Builds.defaultValue span (fun W given => isLive W given l List.mem_cons_self)
      (compileExpr_pushes site value)).seq fun more first => ?_
    refine (compileDefaults_run site params locals (code ++ more) fun W given l' member =>
      isLive W given.1 l' (List.mem_cons_of_mem l member)).gen_map (fun _ => rfl)
      fun W whole others given _ made => ?_
    obtain ⟨last, rfl, coded⟩ := made
    exact ⟨more ++ last, Array.append_assoc, given.2.append coded⟩

theorem compileBlock_runs (site : Site) (span : Span) :
    ∀ (stmts : List Stmt) (returned warned : Bool) (code : Code) {env : Env},
    RunsBehind 1 env code (compileBlock site span returned warned code stmts)
      (Stmt.blockFlow site env stmts)
  | [], _, _, _, _ => fun _ => pure rfl fun _ _ =>
    ⟨_, rfl, .one (.plain _) span (.one (Nat.zero_le _) rfl)⟩
  | stmt :: rest, returned, warned, code, env => by
    cases stmt with
    | expression last value =>
      cases rest with
      | nil => exact block_last_runs (compileExpr_pushes site value)
      | cons next rest =>
        exact block_next_runs rfl rfl (compileStmt_runs site _) fun _ _ _ _ =>
          compileBlock_runs site span _ _ _ _
    | _ =>
      exact block_next_runs rfl rfl (compileStmt_runs site _) fun _ _ _ _ =>
        compileBlock_runs site span _ _ _ _

theorem compileStmts_run (site : Site) :
    ∀ (stmts : List Stmt) (returned warned : Bool) (code : Code) {env : Env},
    RunsBehind 0 env code (compileStmts site returned warned code stmts) (Stmt.flows site env stmts)
  | [], _, _, _, _ => fun _ => pure rfl fun _ _ => ⟨#[], by rw [Array.append_empty], .nil⟩
  | stmt :: rest, _, _, code, _ => fun _ =>
    Builds.warned (Runs.behind (compileStmt_runs site stmt) fun more _ =>
      compileStmts_run site rest _ _ (code ++ more))

theorem compileOptional_pushes (site : Site) (span : Span) : ∀ (value : Option Expr) {env : Env},
    Pushes 1 env (compileOptional site span value) (Expr.optionalFlow site env value)
  | none, _ => fun _ => pure rfl fun _ _ => .one (.plain _) span (.one (Nat.zero_le _) rfl)
  | some value, _ => compileExpr_pushes site value

/-- **The code of a statement** is that of its flow, and leaves the stack as it was. -/
theorem compileStmt_runs (site : Site) : ∀ (stmt : Stmt) {env : Env},
    Runs 0 env (compileStmt site stmt) (stmt.flow site env)
  | .expression span value, _ => fun P => by
    refine (compileExpr_pushes site value P).seq fun code flow => ?_
    have dropped (W : World) : Coded W 1 0 (.ops [.plain .pop]) (Code.plain span .pop) :=
      .one (.plain _) span (.one (Nat.le_refl _) rfl)
    refine branch (load (Loads.warnUnused site _) fun _ => ?_) ?_
    · exact pure rfl fun W given => given.1.2.append (dropped W)
    · exact pure rfl fun W given => given.2.append (dropped W)
  | .ret span value, _ => fun P => by
    refine (compileOptional_pushes site span value P).seq fun code flow => ?_
    exact pure rfl fun W given => given.2.append (coded_ret span 0)
  | .loop span condition body, env => by
    have isBody : Pushes 0 env _ (Gen.scope env fun env => Stmt.flows site.inBody env body) :=
      inScope span (compileStmts_run site.inBody body false false #[]).runs
    exact (loop span (compileExpr_pushes site condition) isBody).runs
  | .variable span name mutable _ none, _ => fun P =>
    (declareLocal name mutable span).bind fun _ _ => pure rfl fun _ _ => .nil
  | .variable span name mutable _ (some initializer), _ => fun P => by
    refine (compileExpr_pushes site initializer P).seq fun value flow => ?_
    refine (bindLocal name mutable span).bind fun store made => pure rfl fun W given => ?_
    exact given.1.2.append (.ops given.2.2.1 given.2.2.2)
  | .patternVariable span pattern mutable initializer, _ =>
    patternDeclaration pattern mutable span (compileExpr_pushes site initializer)
  | .constant span name _ value, _ =>
    Builds.defineConstant site name (staticLiteral? value) value.span span
      (fun literal isLiteral => (trace_of_staticLiteral isLiteral site .forbidden).1)
      (compileExpr_pushes site value)
  | .namespace span kind path _ body, _ => by
    rw [Stmt.flow, compileStmt]
    exact Builds.declareNamespace site kind path (Stmt.anyRunsAtDeclaration body) span
      fun site inner => (compileStmts_run site body false false #[]).runs
  | .singleton span body, _ =>
    (Builds.singletonBlock site span fun site inner =>
      (compileStmts_run site body false false #[]).runs).runs
  | .method span name params body, env => fun P => by
    have declared : Builds env P
        (declareMethod site name params span fun site => do
          let slots ← declareParams .empty false #[] params
          let code ← compileDefaults site #[] params slots
          compileBlock site span false false code body) (do
        let scheme ← Gen.nested env false fun env => do
          let (locals, env) ← Gen.params env params
          let defaults ← Expr.defaultFlows site.inBody env params locals
          let (block, env) ← Stmt.blockFlow site.inBody env body
          return (defaults ++ block ++ .ops [.plain .ret], env)
        Gen.defineOn site.definitionTarget? fun target => target.methodOps name scheme)
        (fun _ => env) fun _ _ _ => True := by
      refine Builds.declareMethod site name params span fun inner => ?_
      exact functionBody_returns (compileDefaults_failed site.inBody params)
        (fun locals inner P isLive => compileDefaults_run site.inBody params locals #[] isLive)
        (fun code inner => compileBlock_runs site.inBody span body false false code) inner
    have whole : Builds env P (_ >>= fun _ => Pure.pure #[])
        (_ >>= fun _ => Pure.pure (Flow.ops [], env)) Prod.snd fun W code made =>
          Coded W 0 0 made.1 code :=
      declared.seq fun _ _ => pure rfl fun _ _ => .nil
    exact whole
  | .signature span _ _, _ => checkOnly site .signature span
  | .attribute span kind entries, _ => fun P => by
    refine (defineEntries site kind.declaration span entries (fun target entry _ => ?_)
      fun target entry => ?_).seq fun _ _ => pure rfl fun _ _ => .nil
    · exact Loads.defineAttribute target kind entry.name span
    · exact target.chain_attribute kind entry.name
  | .aliases span entries, _ => fun P => by
    refine (defineEntries site .aliases span entries (fun target entry _ => ?_)
      fun target entry => ?_).seq fun _ _ => pure rfl fun _ _ => .nil
    · exact Loads.defineAlias target entry span
    · exact target.chain_alias entry
  | .ivar span _ _, _ => checkOnly site .ivar span
  | .include span _, _ => checkOnly site .include span
  | .using span entries, _ => fun P =>
    load (Loads.useImports site entries span) fun _ => pure rfl fun _ _ => .nil

end

end StackCode
