import StackCode.Proofs.Passages

/-!
# Scopes of programs

All parts of a unit are passages, so its scopes close what was captured of them
(`Program.tidy_scheme`), and what is noted on the way through it is read off the declarations of
namespaces that stand in the text (`Program.records_eq`).
-/

namespace StackCode

variable {env : Env} {t : Progress} {opened : List NamespaceRecord}

theorem Op.inert_read (live : List Local) (found : Option Local) :
    [Op.read live found].all inert = true := by
  cases found <;> rfl

theorem Op.inert_write (live : List Local) (found : Option Local) :
    [Op.write live found].all inert = true := by
  cases found <;> rfl

namespace Gen

/-- A way through a part of the text that declares nothing for what stands behind it. -/
def Stays (env : Env) (g : Gen (Flow Op)) : Prop :=
  ∀ t, env.Ordered t → Passage env t (g t).1 env (g t).2

/-- A way through a part of the text that opens some namespaces. -/
def Goes (opened : List NamespaceRecord) (env : Env) (g : Gen (Flow Op × Env)) : Prop :=
  ∀ t, env.Ordered t → Passing opened env t (g t).1.1 (g t).1.2 (g t).2

namespace Stays

variable {g h : Gen (Flow Op)} {operations : List Op}

theorem ops (inert : operations.all Op.inert = true) : Stays env (return .ops operations) :=
  fun _ ordered => .ops ordered inert

theorem seq (first : Stays env g) (second : Stays env h) :
    Stays env (do
      let a ← g
      let b ← h
      return a ++ b) :=
  fun t ordered => (first t ordered).append ordered (second _ (first t ordered).ordered)

theorem behind (part : Stays env g) (inert : operations.all Op.inert = true) :
    Stays env (do return (← g) ++ .ops operations) :=
  fun t ordered => (part t ordered).ops_behind ordered inert

theorem before (part : Stays env g) (inert : operations.all Op.inert = true) :
    Stays env (do return .ops operations ++ (← g)) :=
  fun t ordered => (part t ordered).ops_before ordered inert

theorem skip (part : Stays env g) (kind : JumpKind) : Stays env (do return .skip kind (← g)) :=
  fun t ordered => (part t ordered).skip kind

theorem mention (name : String) {used : Option Local → List Op}
    (inert : ∀ l, (used l).all Op.inert = true) :
    Stays env (do return .ops (used (← Gen.mention env name))) :=
  fun _ ordered => .mention ordered name (.ops (List.all_eq_true.1 (inert _)))

end Stays

theorem Stays.scope {part : Env → Gen (Flow Op × Env)} (goes : Goes [] env.enter (part env.enter)) :
    Stays env (Gen.scope env part) :=
  fun t ordered => .scope ordered (.refl ordered.enter) (goes t ordered.enter)

theorem Goes.body (params : List Parameter) {defaults : Env → List Local → Gen (Flow Op)}
    {block : Env → Gen (Flow Op × Env)} (isDefaults : ∀ env locals, Stays env (defaults env locals))
    (isBlock : ∀ env, Goes [] env (block env)) :
    Goes [] env (do
      let (locals, env) ← Gen.params env params
      let defaults ← defaults env locals
      let (block, env) ← block env
      return (defaults ++ block ++ .ops [.plain .ret], env)) := by
  intro t ordered
  have declaring := Declaring.params params ordered
  have first := isDefaults (Gen.params env params t).1.2 (Gen.params env params t).1.1 _
    declaring.ordered
  have second := isBlock (Gen.params env params t).1.2 _ first.ordered
  exact .absorb ordered (.inert declaring (.ops nofun))
    ((first.append declaring.ordered second).ops_behind declaring.ordered rfl)

/-- A way through the arms of a switch. The last branch stands behind them. -/
def ArmsStay (env : Env) (g : Gen (List (Flow Op × Flow Op))) : Prop :=
  ∀ t, env.Ordered t → env.Ordered (g t).2 ∧ ∀ {last : Flow Op} {t' : Progress},
    Passage env (g t).2 last env t' → Passage env t (.switch (g t).1 last) env t'

theorem Goes.switch {value : Gen (Flow Op)} {arms : Env → Local → Gen (List (Flow Op × Flow Op))}
    {last : Env → Gen (Flow Op)} (isValue : Stays env value)
    (isArms : ∀ env l, ArmsStay env (arms env l)) (isLast : ∀ env, Stays env (last env)) :
    Goes [] env (do
      let value ← value
      let (l, env) ← Gen.declare env none
      let store : Flow Op := .ops [.set env.live l, .plain .pop]
      let arms ← arms env l
      let last ← last env
      return (value ++ store ++ .switch arms last, env)) := by
  intro t ordered
  have first := isValue t ordered
  generalize made : Gen.declare env none (value t).2 = holding
  have declaring := Declaring.declare first.ordered none
  rw [made] at declaring
  have held : Passage env _ (.ops [.set holding.1.2.live holding.1.1, .plain .pop]) _ _ :=
    .inert declaring (.ops (List.all_eq_true.1 rfl))
  obtain ⟨ordered', branches⟩ := isArms holding.1.2 holding.1.1 _ declaring.ordered
  have whole := (first.append ordered held).append ordered
    (branches (isLast holding.1.2 _ ordered'))
  rw [← made] at whole
  exact whole

theorem Goes.takeApart {value : Flow Op} {t t' : Progress} (ordered : env.Ordered t)
    (isValue : Passage env t value env t') (pattern : Pattern) (mutable : Bool) :
    Passage env t (Gen.takeApart env pattern mutable value t').1.1
      (Gen.takeApart env pattern mutable value t').1.2
      (Gen.takeApart env pattern mutable value t').2 := by
  have declaring := Declaring.declare isValue.ordered none
  have held : Passage env t' (.ops [.set (Gen.declare env none t').1.2.live
      (Gen.declare env none t').1.1, .plain .pop]) (Gen.declare env none t').1.2 _ :=
    .inert declaring (.ops (List.all_eq_true.1 rfl))
  obtain ⟨declaring', isTest⟩ := pattern.tests_flow (Gen.declare env none t').1.2
    (Gen.declare env none t').1.1 _ declaring.ordered
  have thrown : (Flow.skip .whenTrue (.ops [.constant (some patternErrorName),
      .value (.string (Compile.mismatchMessage mutable)), .instantiate 1, .plain .raise])).Inert :=
    .skip _ (.ops (List.all_eq_true.1 rfl))
  exact ((isValue.append ordered held).append ordered (.inert declaring' isTest)).append ordered
    (.inert (.refl declaring'.ordered) thrown)

end Gen

open Gen

/-! ## Members and namespaces -/

namespace DefinitionTarget

variable (target : DefinitionTarget)

theorem inert_ops : target.ops.all Op.inert = true := by
  unfold ops
  split <;> rfl

theorem inert_attributeOps (kind : AttributeKind) (name : String) :
    (target.attributeOps kind name).all Op.inert = true := by
  have accessor (op : PlainOp) : (target.accessorOps op name).all Op.inert = true := by
    rw [accessorOps, List.all_append, inert_ops]
    rfl
  cases kind with
  | getter => exact accessor .defGetter
  | setter => exact accessor .defSetter
  | accessor => rw [attributeOps, List.all_append, accessor, accessor]; rfl

theorem inert_aliasOps (entry : Alias) : (target.aliasOps entry).all Op.inert = true := by
  rw [aliasOps, List.all_append, inert_ops]
  rfl

theorem tidy_methodOps (name : String) {scheme : Scheme} (tidy : scheme.Tidy) :
    ∀ op ∈ target.methodOps name scheme, op.Tidy := by
  rw [methodOps, List.forall_mem_append]
  refine ⟨fun op member => Op.tidy_of_inert (List.all_eq_true.1 target.inert_ops op member), ?_⟩
  intro op member
  simp only [List.mem_cons, List.not_mem_nil, or_false] at member
  rcases member with rfl | rfl | rfl
  · rintro _ ⟨⟩
    exact tidy
  · rintro _ ⟨⟩
  · rintro _ ⟨⟩

end DefinitionTarget

theorem tidy_flatMap {γ : Type} {operations : γ → List Op} {entries : List γ}
    (inert : ∀ entry, (operations entry).all Op.inert = true) :
    ∀ op ∈ entries.flatMap operations, op.Tidy := by
  intro op member
  obtain ⟨entry, -, inside⟩ := List.mem_flatMap.1 member
  exact Op.tidy_of_inert (List.all_eq_true.1 (inert entry) op inside)

theorem Passing.defineOn {env' : Env} {t' : Progress} {flow : Flow Op}
    (passage : Passage env t flow env' t') (target : Option DefinitionTarget)
    {operations : DefinitionTarget → List Op} (tidy : ∀ target, ∀ op ∈ operations target, op.Tidy) :
    Passage env t flow env' (Gen.defineOn target operations t').2 := by
  cases target with
  | none => exact passage
  | some target => exact passage.define (tidy target)

theorem Passing.recordOpened (ordered : env.Ordered t) (kind : NamespaceKind) (span : Span)
    (opened : Option (String × String × String)) :
    Passing (opened.map fun (parent, fullName, name) => ⟨fullName, parent, name, kind, span⟩).toList
      env t (.ops []) env (Gen.recordOpened kind span opened t).2 := by
  cases opened with
  | none => exact .ops ordered rfl
  | some opened =>
    change Passing _ env t (.ops []) env (if _ then t else _)
    split
    · rename_i noted
      refine .quiet (.ops nofun) (Nat.le_refl _) (.refl env _) ordered
        ⟨[], (List.append_nil _).symm, nofun⟩ rfl ?_
      exact (if_pos noted).symm
    · rename_i new
      refine .quiet (.ops nofun) (Nat.le_refl _) (.refl env _)
        (ordered.later (Nat.le_refl _) ordered.noted) ⟨[], (List.append_nil _).symm, nofun⟩ rfl ?_
      exact (if_neg new).symm

theorem Gen.Goes.declaration {part : Env → Gen (Flow Op × Env)}
    (isPart : ∀ env, Goes opened env (part env)) (kind : NamespaceKind) (span : Span)
    (target : Option (String × String × String)) (fullName : String) (runs : Bool) :
    Goes ((target.map fun (parent, fullName, name) =>
      ⟨fullName, parent, name, kind, span⟩).toList ++
        opened) env (do
      Gen.recordOpened kind span target
      let scheme ← Gen.nested env false fun env => do
        let (body, env) ← part env
        return (body ++ .ops [.plain .pushNil, .plain .ret], env)
      if runs then
        return (.ops [.constant (some fullName), .function scheme, .plain .initNamespace], env)
      else
        return (.ops [], env)) := by
  intro t ordered
  have noted := Passing.recordOpened ordered kind span target
  have nested := noted.ordered.nested false
  have body := (isPart _ _ nested).ops_behind nested
    (rfl : [Op.plain .pushNil, .plain .ret].all _ = _)
  refine noted.absorb ordered ?_
  cases runs with
  | false => exact .function noted.ordered body nofun
  | true =>
    refine .function noted.ordered body ?_
    simp only [List.forall_mem_cons]
    exact ⟨.inl rfl, .inr rfl, .inl rfl, nofun⟩

theorem Gen.Goes.next {site : Site} {stmt : Stmt} {rest : List Stmt}
    {opened later : List NamespaceRecord}
    (isStmt : Goes opened env (stmt.flow site env))
    (isRest : ∀ env, Goes later env (Stmt.blockFlow site env rest))
    (flow : Stmt.blockFlow site env (stmt :: rest) = (do
      let (first, env) ← stmt.flow site env
      let (others, env) ← Stmt.blockFlow site env rest
      return (first ++ others, env))) :
    Goes (opened ++ later) env (Stmt.blockFlow site env (stmt :: rest)) := by
  intro t ordered
  rw [flow]
  have first := isStmt t ordered
  exact first.append ordered (isRest _ _ first.ordered)

theorem Gen.Goes.closed {body : List Stmt} {site : Site} {g : Gen (Flow Op × Env)}
    (goes : Goes (Stmt.allOpenings site body) env g)
    (illegal : ∀ kind, site.context.permits (.namespace kind) = false) : Goes [] env g := by
  rwa [Stmt.allOpenings_eq_nil body site illegal] at goes

theorem Gen.Goes.inBody {body : List Stmt} {site : Site} {g : Gen (Flow Op × Env)}
    (goes : Goes (Stmt.allOpenings site.inBody body) env g) : Goes [] env g :=
  goes.closed fun _ => rfl

/-! ## Expressions and statements -/

mutual

theorem Expr.stays : ∀ (e : Expr) (site : Site) (env : Env), Stays env (e.flow site env)
  | .literal _ value, _, _ => .ops (List.all_eq_true.2 value.inert_ops)
  | .self _, _, _ => .ops rfl
  | .sequence _ _ items, site, env => (Expr.stay items site env).behind rfl
  | .map _ entries, site, env => (Expr.stay_entries entries site env).behind rfl
  | .local _ name, _, env => .mention name fun l => Op.inert_read env.live l
  | .ivar _ _, _, _ => .ops rfl
  | .constant _ _, _, _ => .ops rfl
  | .assign _ (.local name) (some _) value, site, env => fun t ordered =>
    have used := Stays.mention name (Op.inert_read env.live) t ordered
    have made := value.stays site env _ used.ordered
    ((used.append ordered made).ops_behind ordered rfl).ops_behind ordered (Op.inert_write _ _)
  | .assign _ (.local name) none value, site, env => fun t ordered =>
    have used : Passage env t (.ops []) env _ := .mention ordered name (.ops nofun)
    (used.absorb ordered (value.stays site env _ used.ordered)).ops_behind ordered
      (Op.inert_write _ _)
  | .assign _ (.ivar _) (some _) value, site, env =>
    (((value.stays site env).before rfl).behind rfl).behind rfl
  | .assign _ (.ivar _) none value, site, env => (value.stays site env).behind rfl
  | .binary _ _ left right, site, env =>
    ((left.stays site env).seq (right.stays site env)).behind rfl
  | .unary _ _ operand, site, env => (operand.stays site env).behind rfl
  | .logical _ _ left right, site, env =>
    (left.stays site env).seq (((right.stays site env).before rfl).skip _)
  | .block _ body, site, env => .scope (Stmt.block_goes body site.inBody env.enter).inBody
  | .conditional _ condition thenBranch elseBranch, site, env => fun t ordered =>
    have first := condition.stays site env t ordered
    have isYes : Stays env (Gen.scope env fun env => Stmt.blockFlow site.inBody env thenBranch) :=
      .scope (Stmt.block_goes thenBranch site.inBody env.enter).inBody
    have yes := isYes _ first.ordered
    have no := Stmt.else_stays elseBranch site env _ yes.ordered
    first.append ordered (yes.choose first.ordered no)
  | .switch _ subject cases elseBranch, site, env =>
    .scope (Goes.switch (subject.stays site env.enter) (Stmt.cases_stay cases site)
      (Stmt.else_stays elseBranch site))
  | .closure _ params body, site, _ => fun t ordered =>
    .closure ordered (Goes.body params (Expr.stay_defaults params site.inBody)
      (fun env => (Stmt.block_goes body site.inBody env).inBody) t (ordered.nested true))
  | .methodCall _ receiver _ arguments, site, env =>
    ((receiver.stays site env).seq (Expr.stay arguments site env)).behind rfl
  | .selfCall _ _ arguments, site, env => (Expr.stay arguments site env).behind rfl
  | .call _ callee arguments, site, env =>
    ((callee.stays site env).seq (Expr.stay arguments site env)).behind rfl
  | .subscript _ receiver index, site, env =>
    ((receiver.stays site env).seq (index.stays site env)).behind rfl
  | .new _ _ arguments, site, env => ((Expr.stay arguments site env).before rfl).behind rfl
  | .raise _ error, site, env => (error.stays site env).behind rfl

theorem Expr.stay : ∀ (items : List Expr) (site : Site) (env : Env),
    Stays env (Expr.flows site env items)
  | [], _, _ => .ops rfl
  | e :: rest, site, env => (e.stays site env).seq (Expr.stay rest site env)

theorem Expr.stay_entries : ∀ (entries : List (Expr × Expr)) (site : Site) (env : Env),
    Stays env (Expr.entryFlows site env entries)
  | [], _, _ => .ops rfl
  | (key, value) :: rest, site, env =>
    ((key.stays site env).seq (value.stays site env)).seq (Expr.stay_entries rest site env)

theorem Stmt.else_stays : ∀ (branch : Option (List Stmt)) (site : Site) (env : Env),
    Stays env (Stmt.elseFlow site env branch)
  | none, _, _ => .ops rfl
  | some body, site, env => .scope (Stmt.block_goes body site.inBody env.enter).inBody

theorem Stmt.cases_stay : ∀ (cases : List SwitchCase) (site : Site) (env : Env) (l : Local),
    ArmsStay env (Stmt.caseFlows site env l cases)
  | [], _, _, _, _, ordered => ⟨ordered, id⟩
  | ⟨pattern, body, _⟩ :: rest, site, env, l, t, ordered => by
    obtain ⟨declaring, isTest⟩ := pattern.tests_flow env.enter l t ordered.enter
    have block := (Stmt.block_goes body site.inBody _).inBody _ declaring.ordered
    have arm := Passing.scope ordered declaring block
    obtain ⟨ordered', others⟩ := Stmt.cases_stay rest site env l _ arm.ordered
    exact ⟨ordered', fun isLast =>
      (Passing.inert (.refl ordered) isTest).append ordered (arm.choose ordered (others isLast))⟩

theorem Expr.stay_defaults : ∀ (params : List Parameter) (site : Site) (env : Env)
    (locals : List Local), Stays env (Expr.defaultFlows site env params locals)
  | ⟨_, some value, _, _⟩ :: params, site, env, _ :: locals =>
    ((((value.stays site env).behind rfl).skip _).before rfl).seq
      (Expr.stay_defaults params site env locals)
  | ⟨_, none, _, _⟩ :: params, site, env, _ :: locals => Expr.stay_defaults params site env locals
  | [], _, _, [] => .ops rfl
  | [], _, _, _ :: _ => .ops rfl
  | ⟨_, some _, _, _⟩ :: _, _, _, [] => .ops rfl
  | ⟨_, none, _, _⟩ :: _, _, _, [] => .ops rfl

theorem Stmt.block_goes : ∀ (body : List Stmt) (site : Site) (env : Env),
    Goes (Stmt.allOpenings site body) env (Stmt.blockFlow site env body)
  | [], _, _, _, ordered => .ops ordered rfl
  | stmt :: rest, site, env, t, ordered => by
    have next := Goes.next (stmt.goes site env) (Stmt.block_goes rest site)
    cases stmt with
    | expression span value =>
      cases rest with
      | nil => exact value.stays site env t ordered
      | cons => exact next rfl t ordered
    | _ => exact next rfl t ordered

theorem Stmt.go : ∀ (body : List Stmt) (site : Site) (env : Env),
    Goes (Stmt.allOpenings site body) env (Stmt.flows site env body)
  | [], _, _, _, ordered => .ops ordered rfl
  | stmt :: rest, site, env, t, ordered =>
    have first := stmt.goes site env t ordered
    first.append ordered (Stmt.go rest site _ _ first.ordered)

theorem Expr.optional_stays : ∀ (value : Option Expr) (site : Site) (env : Env),
    Stays env (Expr.optionalFlow site env value)
  | none, _, _, _, ordered => .ops ordered rfl
  | some value, site, env, t, ordered => value.stays site env t ordered

theorem Stmt.goes : ∀ (stmt : Stmt) (site : Site) (env : Env),
    Goes (stmt.openings site) env (stmt.flow site env)
  | .expression _ value, site, env, t, ordered =>
    (value.stays site env t ordered).ops_behind ordered rfl
  | .ret _ value, site, env, t, ordered =>
    (Expr.optional_stays value site env t ordered).ops_behind ordered rfl
  | .loop _ condition body, site, env, t, ordered =>
    have first := condition.stays site env t ordered
    have isBody : Stays env (Gen.scope env fun env => Stmt.flows site.inBody env body) :=
      .scope (Stmt.go body site.inBody env.enter).inBody
    first.loop ordered (isBody _ first.ordered)
  | .variable _ name _ _ none, _, _, _, ordered =>
    .inert (.declare ordered (some name)) (.ops nofun)
  | .variable _ name _ _ (some initializer), site, env, t, ordered => by
    have value := initializer.stays site env t ordered
    obtain ⟨declaring, isStore⟩ := Tests.bindName name _ value.ordered
    exact value.append ordered (.inert declaring (.ops isStore))
  | .patternVariable _ pattern mutable initializer, site, env, t, ordered =>
    Goes.takeApart ordered (initializer.stays site env t ordered) pattern mutable
  | .constant _ _ _ value, site, env, t, ordered => by
    rw [Stmt.flow]
    cases staticLiteral? value with
    | some literal =>
      have loaded : Passage env t (.ops [.value literal]) env t := .ops ordered rfl
      exact (loaded.ops_before ordered rfl).ops_behind ordered rfl
    | none => exact ((value.stays site env t ordered).ops_before ordered rfl).ops_behind ordered rfl
  | .namespace span kind _ _ body, site, env, t, ordered =>
    Goes.declaration (fun env => Stmt.go body _ env) kind span _ _ _ t ordered
  | .singleton _ body, site, env, t, ordered =>
    have isBody : Stays env (Gen.scope env fun env =>
        Stmt.flows (site.within (.inSingleton site.singletonOwner true)) env body) :=
      .scope ((Stmt.go body _ env.enter).closed fun _ => rfl)
    isBody t ordered
  | .method _ name params body, site, env, t, ordered => by
    have isBody := Goes.body params (fun env locals =>
      Expr.stay_defaults params site.inBody env locals)
      (fun env => (Stmt.block_goes body site.inBody env).inBody) t (ordered.nested false)
    have made : Passage env t (.ops []) env _ := .function ordered isBody nofun
    exact made.defineOn site.definitionTarget? fun target =>
      target.tidy_methodOps name isBody.tidy_nested
  | .signature _ _ _, _, _, _, ordered => .ops ordered rfl
  | .attribute _ kind entries, site, env, t, ordered =>
    (Passing.ops ordered rfl).defineOn site.definitionTarget? fun target =>
      tidy_flatMap fun entry => target.inert_attributeOps kind entry.name
  | .aliases _ entries, site, env, t, ordered =>
    (Passing.ops ordered rfl).defineOn site.definitionTarget? fun target =>
      tidy_flatMap target.inert_aliasOps
  | .ivar _ _ _, _, _, _, ordered => .ops ordered rfl
  | .include _ _, _, _, _, ordered => .ops ordered rfl
  | .using _ _, _, _, _, ordered => .ops ordered rfl

end

open List

/-! ## Units -/

theorem Env.ordered_atTop : Env.atTop.Ordered .start :=
  ⟨trivial, Nat.le_refl _, nofun, nofun, nofun⟩

theorem Program.records_eq (program : Program) (unit : UnitInfo) :
    (program.flow unit).2.records = (program.openings unit).foldl noteOpening .empty :=
  (Stmt.go program.statements ⟨unit, [rootName], .topLevel⟩ .atTop .start Env.ordered_atTop).records

theorem NamespaceRecord.inert_ops (record : NamespaceRecord) : record.ops.all Op.inert = true := rfl

theorem DeclaredNamespace.inert_linkOps (ns : DeclaredNamespace) :
    ns.linkOps.all Op.inert = true := by
  have links : ns.superclassOps.all Op.inert = true := by
    unfold superclassOps
    split
    · split <;> rfl
    · rfl
  have mixes : (ns.mixins.flatMap ns.mixinOps).all Op.inert = true := by
    rw [all_flatMap, List.all_eq_true]
    exact fun _ _ => rfl
  rw [linkOps, all_append, links, mixes]
  rfl

theorem LayoutChange.inert_ops (unit : UnitInfo) (change : LayoutChange) :
    (change.ops unit).all Op.inert = true := by
  unfold ops
  split
  · rfl
  · split <;> rfl

theorem UnitInfo.tidy_hoistedOps (unit : UnitInfo) (records : OrderedMap NamespaceRecord)
    {members : List Op} (tidy : ∀ op ∈ members, op.Tidy) :
    ∀ operations ∈ unit.hoistedOps records members, ∀ op ∈ operations, op.Tidy := by
  intro operations member
  have only {c : Prop} [Decidable c] {part : List Op}
      (member : operations ∈ if c then [] else [part]) : operations = part := by
    split at member
    · cases member
    · exact mem_singleton.1 member
  rcases mem_append.1 member with member | member
  · rcases mem_append.1 member with member | member
    · rw [only member]
      exact List.forall_mem_append.2 ⟨tidy_flatMap NamespaceRecord.inert_ops,
        tidy_flatMap DeclaredNamespace.inert_linkOps⟩
    · rw [only member]
      exact tidy_flatMap (LayoutChange.inert_ops unit)
  · rw [only member]
    exact tidy

theorem Scheme.tidy_straight {operations : List Op} (tidy : ∀ op ∈ operations, op.Tidy) :
    (Scheme.straight operations).Tidy := by
  refine .intro nofun nofun fun op member => ?_
  rcases mem_append.1 member with early | late
  · exact tidy op early
  · simp only [mem_cons, not_mem_nil, or_false] at late
    rcases late with rfl | rfl <;> exact nofun

/-- **All scopes of a unit close what was captured of them.** -/
theorem Program.tidy_scheme (unit : UnitInfo) (program : Program) : (program.scheme unit).Tidy := by
  have body := Stmt.go program.statements ⟨unit, [rootName], .topLevel⟩ .atTop .start
    Env.ordered_atTop
  have members := body.members nofun
  generalize isMade : Stmt.flows ⟨unit, [rootName], .topLevel⟩ .atTop program.statements
    .start = made
    at body members
  have isScheme : program.scheme unit = ⟨[], .ops ((unit.hoistedOps made.2.records
      made.2.members).flatMap fun operations => (Scheme.straight operations).runOps) ++ made.1.1 ++
      .ops [.plain .pushNil, .plain .ret]⟩ := by
    rw [← isMade]
    rfl
  rw [isScheme]
  have hoisted := unit.tidy_hoistedOps made.2.records members
  generalize unit.hoistedOps made.2.records made.2.members = parts at hoisted ⊢
  have uncaptured (l : Local) :
      capturedBy (parts.flatMap fun operations => (Scheme.straight operations).runOps) l =
        false := by
    refine List.any_eq_false.2 fun op member => ?_
    obtain ⟨operations, -, inside⟩ := mem_flatMap.1 member
    simp only [Scheme.runOps, mem_cons, not_mem_nil, or_false] at inside
    rcases inside with rfl | rfl | rfl <;> exact Bool.false_ne_true
  have inside {n : Nat} {r : Region Op} (member : r ∈ (Flow.ops (parts.flatMap fun operations =>
      (Scheme.straight operations).runOps) ++ made.1.1 ++
        .ops [.plain .pushNil, .plain .ret]).regions n) :
      ∃ m, r ∈ made.1.1.regions m := by
    rcases mem_append.1 member with member | never
    · exact ⟨_, member⟩
    · cases never
  refine .intro (fun n r member => ?_) (fun _ _ _ _ _ => not_mem_nil) fun op member => ?_
  · obtain ⟨m, member⟩ := inside member
    refine (body.closed m r member).congr fun l _ => ?_
    rw [Flow.operations_append, Flow.operations_append, countP_append, countP_append,
      Flow.operations_ops, countP_captures (uncaptured l), Nat.zero_add]
    rfl
  · rcases mem_append.1 member with early | late
    · rcases mem_append.1 early with first | second
      · obtain ⟨operations, isPart, inside⟩ := mem_flatMap.1 first
        simp only [Scheme.runOps, mem_cons, not_mem_nil, or_false] at inside
        rcases inside with rfl | rfl | rfl
        · rintro _ ⟨⟩
          exact Scheme.tidy_straight (hoisted operations isPart)
        · exact nofun
        · exact nofun
      · exact body.tidy op second
    · simp only [Flow.operations_ops, mem_cons, not_mem_nil, or_false] at late
      rcases late with rfl | rfl <;> exact nofun

end StackCode
