import StackCode.Proofs.Captures

/-!
# Scopes of programs

Every part of a program is a passage: that of a construct is put together from those of its parts,
and a scope closes what was captured of it. A variable of the scope that was mentioned in another
function was captured by a closure that is made in the scope, because a function that is no closure
does not see it. And what a closure captured was mentioned. So the mentions tell what is to be
closed.
-/

namespace StackCode

open List

/-! ## Code without closures -/

namespace Flow

/-- A flow that has nothing to do with closures. -/
structure Inert (flow : Flow Op) : Prop where
  operations : ∀ op ∈ flow.operations, op.inert = true
  regions : ∀ n, flow.regions n = []
  guarded : flow.Guarded

namespace Inert

variable {a b : Flow Op}

theorem ops {operations : List Op} (inert : ∀ op ∈ operations, op.inert = true) :
    (Flow.ops operations).Inert := ⟨inert, fun _ => rfl, trivial⟩

theorem skip (kind : JumpKind) (body : a.Inert) : (Flow.skip kind a).Inert :=
  ⟨body.operations, fun n => body.regions (n + 1), body.guarded⟩

end Inert

end Flow

/-- A part of a test that has nothing to do with closures. -/
def Check.inert : Check → Bool
  | .run op => op.inert
  | .need => true

theorem Flow.Inert.test {checks : List Check} (inert : ∀ check ∈ checks, check.inert = true) :
    (Flow.test checks).Inert := by
  -- Only the guard needs the checks to stand in an attempt.
  have inside : ∀ checks : List Check, (∀ check ∈ checks, check.inert = true) →
      (∀ op ∈ (Flow.ofChecks checks).operations, op.inert = true) ∧
        (∀ n, (Flow.ofChecks checks).regions n = []) ∧
        (checks.any Check.canFail = false → (Flow.ofChecks checks).Guarded) := by
    intro checks inert
    induction checks with
    | nil => exact ⟨nofun, fun _ => rfl, fun _ => trivial⟩
    | cons check rest ih =>
      obtain ⟨operations, regions, guarded⟩ :=
        ih fun other member => inert other (mem_cons_of_mem check member)
      cases check with
      | run op =>
        refine ⟨fun other member => ?_, fun n => regions _, fun safe => ⟨trivial, guarded safe⟩⟩
        rcases mem_cons.1 member with rfl | later
        · exact inert _ mem_cons_self
        · exact operations other later
      | need => exact ⟨operations, fun n => regions _, nofun⟩
  obtain ⟨operations, regions, guarded⟩ := inside checks inert
  have ending : ∀ op ∈ (Flow.ofChecks checks ++ .ops [.plain .pushTrue]).operations,
      op.inert = true := by
    intro op member
    rcases mem_append.1 member with early | late
    · exact operations op early
    · rw [mem_singleton.1 late]
      rfl
  have none : ∀ n, (Flow.ofChecks checks ++ .ops [.plain .pushTrue]).regions n = [] := fun n => by
    show (Flow.ofChecks checks).regions n ++ [] = []
    rw [regions, append_nil]
  unfold Flow.test
  split
  · refine ⟨fun op member => ?_, fun n => ?_, trivial⟩
    · rcases mem_append.1 member with early | late
      · exact ending op early
      · rw [mem_singleton.1 late]
        rfl
    · show (Flow.ofChecks checks ++ .ops [.plain .pushTrue]).regions n ++ [] = []
      rw [none, append_nil]
  · rename_i safe
    exact ⟨ending, none, guarded (Bool.eq_false_iff.2 safe), trivial⟩

/-! ## Declarations -/

/-- From a place to another one in the same scope only variables were declared. -/
structure Declaring (env : Env) (t : Progress) (env' : Env) (t' : Progress) : Prop where
  count : t.count ≤ t'.count
  grows : env.Grows t.count env'
  ordered : env'.Ordered t'
  mentions : t'.mentions = t.mentions
  members : t'.members = t.members
  records : t'.records = t.records

namespace Declaring

variable {env env₁ env₂ : Env} {t t₁ t₂ : Progress}

theorem refl (ordered : env.Ordered t) : Declaring env t env t :=
  ⟨Nat.le_refl _, .refl env _, ordered, rfl, rfl, rfl⟩

theorem trans (first : Declaring env t env₁ t₁) (second : Declaring env₁ t₁ env₂ t₂) :
    Declaring env t env₂ t₂ where
  count := Nat.le_trans first.count second.count
  grows := first.grows.trans second.grows first.count
  ordered := second.ordered
  mentions := second.mentions.trans first.mentions
  members := second.members.trans first.members
  records := second.records.trans first.records

theorem declare (ordered : env.Ordered t) (name : Option String) :
    Declaring env t (Gen.declare env name t).1.2 (Gen.declare env name t).2 := by
  let l : Local := ⟨name, env.live.length + 1, t.count⟩
  have behind := Env.Extends.declared env l
  have live : (env.declared l).live = l :: env.live := env.live_declared l
  show Declaring env t (env.declared l) { t with count := t.count + 1 }
  refine ⟨Nat.le_succ _, ⟨behind, [l], live, ?_⟩,
    ⟨?_, ?_, fun l' member => ?_, ?_, fun l' noted => ?_⟩,
    rfl, rfl, rfl⟩
  · intro l' member
    obtain rfl := mem_singleton.1 member
    exact Nat.le_refl _
  · rw [live]
    exact ⟨rfl, ordered.laid⟩
  · rw [behind.first]
    exact Nat.le_succ_of_le ordered.first
  · rw [behind.first]
    rw [live] at member
    rcases mem_cons.1 member with rfl | old
    · exact ⟨ordered.first, Nat.lt_succ_self _⟩
    · exact ⟨(ordered.own l' old).1, Nat.lt_succ_of_lt (ordered.own l' old).2⟩
  · rw [behind.first, behind.outer]
    exact ordered.outer
  · exact Nat.lt_succ_of_lt (ordered.noted l' noted)

theorem params : ∀ (params : List Parameter) {env : Env} {t : Progress}, env.Ordered t →
    Declaring env t (Gen.params env params t).1.2 (Gen.params env params t).2
  | [], _, _, ordered => refl ordered
  | param :: rest, _, _, ordered =>
    (declare ordered (some param.name)).trans
      (params rest (declare ordered (some param.name)).ordered)

end Declaring

/-! ## Tests -/

theorem inert_intOps (value : Int) : ∀ op ∈ intOps value, op.inert = true := by
  unfold intOps
  split <;> simp [Op.inert, Op.scheme?, Op.closed?]

theorem Literal.inert_ops (value : Literal) : ∀ op ∈ value.ops, op.inert = true := by
  cases value with
  | bool value => cases value <;> simp [ops, Op.inert, Op.scheme?, Op.closed?]
  | int n => exact inert_intOps _
  | _ => simp [ops, Op.inert, Op.scheme?, Op.closed?]

theorem Tested.inert_ops (live : List Local) (tested : Tested) :
    ∀ op ∈ tested.ops live, op.inert = true := by
  cases tested with
  | held l => simp [ops, Op.inert, Op.scheme?, Op.closed?]
  | element sequence index =>
    have := inert_intOps index
    simp only [ops, mem_append, mem_singleton]
    rintro op ((rfl | member) | rfl)
    · rfl
    · exact this op member
    · rfl
  | entry map key =>
    have := key.inert_ops
    simp only [ops, mem_append, mem_singleton]
    rintro op ((rfl | member) | rfl)
    · rfl
    · exact this op member
    · rfl

theorem Check.inert_ofOps {operations : List Op} (inert : ∀ op ∈ operations, op.inert = true) :
    ∀ check ∈ Check.ofOps operations, check.inert = true := by
  intro check member
  obtain ⟨op, isOp, rfl⟩ := List.mem_map.1 member
  exact inert op isOp

/-- From a place a way through a part of a test finds what has nothing to do with closures. -/
def Gen.Tests {α : Type} (env : Env) (g : Gen α) (after : α → Env) (inert : α → Prop) : Prop :=
  ∀ t, env.Ordered t → Declaring env t (after (g t).1) (g t).2 ∧ inert (g t).1

namespace Gen.Tests

variable {α β : Type} {env : Env} {g : Gen α} {h : α → Gen β} {after : α → Env} {after' : β → Env}
  {inert : α → Prop} {inert' : β → Prop}

theorem pure {a : α} (here : after a = env) (isInert : inert a) :
    Tests env (Pure.pure a : Gen α) after inert := by
  intro t ordered
  refine ⟨?_, isInert⟩
  show Declaring env t (after a) t
  rw [here]
  exact .refl ordered

theorem bind (first : Tests env g after inert)
    (second : ∀ a, inert a → Tests (after a) (h a) after' inert') :
    Tests env (g >>= h) after' inert' := by
  intro t ordered
  obtain ⟨declaring, isInert⟩ := first t ordered
  obtain ⟨declaring', isInert'⟩ := second _ isInert _ declaring.ordered
  exact ⟨declaring.trans declaring', isInert'⟩

theorem declare (name : Option String) :
    Tests env (Gen.declare env name) Prod.snd fun _ => True :=
  fun _ ordered => ⟨.declare ordered name, trivial⟩

theorem hold (tested : Tested) :
    Tests env (Gen.hold env tested) (·.2.2) fun made => ∀ op ∈ made.2.1, op.inert = true := by
  have holds (tested : Tested) : Tests env (do
      let made ← Gen.declare env none
      return (made.1, tested.ops made.2.live ++ [.set made.2.live made.1, .plain .pop], made.2) :
        Gen (Local × List Op × Env))
      (·.2.2) fun made => ∀ op ∈ made.2.1, op.inert = true := by
    refine (declare none).bind fun made _ => .pure rfl ?_
    exact forall_mem_append.2 ⟨tested.inert_ops made.2.live, by
      simp [Op.inert, Op.scheme?, Op.closed?]⟩
  cases tested with
  | held l => exact .pure rfl (forall_mem_nil _)
  | element sequence index => exact holds _
  | entry map key => exact holds _

theorem bindName (name : String) :
    Tests env (Gen.bind env name) Prod.snd fun made => ∀ op ∈ made.1, op.inert = true :=
  (declare (some name)).bind fun _ _ => .pure rfl (by simp [Op.inert, Op.scheme?, Op.closed?])

theorem bindRest (sequence : Local) (leading trailing : Nat) (rest : Option Rest) :
    Tests env (Gen.bindRest env sequence leading trailing rest) Prod.snd
      fun made => ∀ op ∈ made.1, op.inert = true := by
  unfold Gen.bindRest
  cases rest.bind Rest.binding with
  | none => exact .pure rfl nofun
  | some name =>
    exact (bindName name).bind fun _ isInert => .pure rfl
      (forall_mem_append.2 ⟨by simp [Op.inert, Op.scheme?, Op.closed?], isInert⟩)

end Gen.Tests

section Patterns

variable (live : List Local) (l : Local)

open Check

theorem inert_classChecks (fullName : String) :
    ∀ check ∈ classChecks live l fullName, check.inert = true :=
  forall_mem_append.2 ⟨inert_ofOps (by simp [Op.inert, Op.scheme?, Op.closed?]), by simp [inert]⟩

theorem inert_lengthChecks (count : Nat) (hasRest : Bool) :
    ∀ check ∈ lengthChecks live l count hasRest, check.inert = true := by
  refine forall_mem_append.2 ⟨inert_ofOps (forall_mem_append.2 ⟨forall_mem_append.2 ⟨?_, ?_⟩, ?_⟩),
    ?_⟩
  · simp [Op.inert, Op.scheme?, Op.closed?]
  · exact inert_intOps count
  · simp [Op.inert, Op.scheme?, Op.closed?]
  · simp [inert]

theorem inert_keyChecks (key : Literal) : ∀ check ∈ keyChecks live l key, check.inert = true := by
  refine forall_mem_append.2 ⟨inert_ofOps (forall_mem_append.2 ⟨forall_mem_append.2 ⟨?_, ?_⟩, ?_⟩),
    ?_⟩
  · simp [Op.inert, Op.scheme?, Op.closed?]
  · exact key.inert_ops
  · simp [Op.inert, Op.scheme?, Op.closed?]
  · simp [inert]

mutual

theorem Pattern.tests_checks : ∀ (pattern : Pattern) (env : Env) (tested : Tested),
    Gen.Tests env (pattern.checks env tested) Prod.snd
      fun made => ∀ check ∈ made.1, check.inert = true
  | .wildcard _, _, _ => .pure rfl nofun
  | .binding _ name, env, tested =>
    (Gen.Tests.bindName name).bind fun _ isInert => .pure rfl
      (inert_ofOps (forall_mem_append.2 ⟨tested.inert_ops env.live, isInert⟩))
  | .literal _ value, env, tested => by
    refine .pure rfl (forall_mem_append.2 ⟨inert_ofOps
      (forall_mem_append.2 ⟨forall_mem_append.2 ⟨tested.inert_ops env.live, value.inert_ops⟩, ?_⟩),
        ?_⟩)
    · simp [Op.inert, Op.scheme?, Op.closed?]
    · simp [inert]
  | .sequence _ kind elements rest, env, tested =>
    (Gen.Tests.hold tested).bind fun (l, held, env) isHeld =>
      (Pattern.tests_elementChecks elements env l _ _ _).bind fun (inside, env) isInside =>
        (Gen.Tests.bindRest l _ _ rest).bind fun _ isTail => .pure rfl
          (forall_mem_append.2 ⟨forall_mem_append.2 ⟨forall_mem_append.2 ⟨forall_mem_append.2
            ⟨inert_ofOps isHeld, inert_classChecks _ _ _⟩, inert_lengthChecks _ _ _ _⟩, isInside⟩,
            inert_ofOps isTail⟩)
  | .map _ entries, env, tested =>
    (Gen.Tests.hold tested).bind fun (l, held, env) isHeld =>
      (Pattern.tests_entryChecks entries env l).bind fun _ isInside => .pure rfl
        (forall_mem_append.2 ⟨forall_mem_append.2 ⟨inert_ofOps isHeld, inert_classChecks _ _ _⟩,
          isInside⟩)

theorem Pattern.tests_elementChecks : ∀ (elements : List Pattern) (env : Env) (l : Local)
    (leading count position : Nat),
    Gen.Tests env (Pattern.elementChecks env l leading count position elements) Prod.snd
      fun made => ∀ check ∈ made.1, check.inert = true
  | [], _, _, _, _, _ => .pure rfl nofun
  | element :: rest, env, l, leading, count, position =>
    (Pattern.tests_checks element env _).bind fun (_, env) isFirst =>
      (Pattern.tests_elementChecks rest env l leading count (position + 1)).bind fun _ isRest =>
        .pure rfl (forall_mem_append.2 ⟨isFirst, isRest⟩)

theorem Pattern.tests_entryChecks : ∀ (entries : List (Literal × Pattern)) (env : Env) (l : Local),
    Gen.Tests env (Pattern.entryChecks env l entries) Prod.snd
      fun made => ∀ check ∈ made.1, check.inert = true
  | [], _, _ => .pure rfl nofun
  | (_, pattern) :: rest, env, l =>
    (Pattern.tests_checks pattern env _).bind fun (_, env) isFirst =>
      (Pattern.tests_entryChecks rest env l).bind fun _ isRest => .pure rfl
        (forall_mem_append.2 ⟨forall_mem_append.2 ⟨inert_keyChecks _ _ _, isFirst⟩, isRest⟩)

end

theorem Pattern.tests_flow (pattern : Pattern) (env : Env) (l : Local) :
    Gen.Tests env (pattern.flow env l) Prod.snd fun made => made.1.Inert :=
  (pattern.tests_checks env (.held l)).bind fun _ isInert => .pure rfl (.test isInert)

end Patterns

/-! ## Passages -/

theorem Laid.slot_lt {a b : List Local} {l : Local} (laid : Laid (a ++ b)) (member : l ∈ a) :
    b.length < l.slot := by
  induction a with
  | nil => cases member
  | cons first rest ih =>
    rcases mem_cons.1 member with rfl | later
    · have isSlot : l.slot = (rest ++ b).length + 1 := laid.1
      rw [length_append] at isSlot
      omega
    · exact ih laid.2 later

theorem filterMap_closed? (live locals : List Local) :
    (locals.map (Op.close live)).filterMap Op.closed? = locals := by
  rw [filterMap_map]
  exact filterMap_some

theorem capturedBy_close (live locals : List Local) (l : Local) :
    capturedBy (locals.map (Op.close live)) l = false := by
  refine List.any_eq_false.2 fun op member => ?_
  obtain ⟨_, -, rfl⟩ := List.mem_map.1 member
  exact Bool.false_ne_true

theorem closedBy_close (live locals : List Local) (l : Local) :
    closedBy (locals.map (Op.close live)) l = true ↔ l ∈ locals := by
  simp [closedBy, Op.closed?]

theorem Op.captures_closure (live : List Local) (scheme : Scheme) (l : Local) :
    capturedBy [.closure live scheme] l = true ↔ l ∈ scheme.mentions := by
  simp [capturedBy, Op.captures, Scheme.captured]

theorem Env.Ordered.nested {env : Env} {t : Progress} (ordered : env.Ordered t)
    (isClosure : Bool) :
    (⟨Gen.nestedLevel isClosure t, env.here :: env.outer⟩ : Env).Ordered t where
  laid := trivial
  first := Nat.le_refl _
  own := nofun
  outer level member l isLocal := by
    rcases mem_cons.1 member with rfl | outer
    · exact (ordered.own l isLocal).2
    · exact Nat.lt_of_lt_of_le (ordered.outer level outer l isLocal) ordered.first
  noted := ordered.noted

namespace Passing

variable {env env' env₁ inner : Env} {t t' t₁ t₂ : Progress} {flow : Flow Op}
  {opened later : List NamespaceRecord}
variable {isClosure : Bool} {operations : List Op}

/-- Code without closures, in which variables of the functions around may be mentioned. -/
theorem quiet (inert : flow.Inert) (count : t.count ≤ t'.count) (grows : env.Grows t.count env')
    (ordered : env'.Ordered t')
    (noted : ∃ new, t'.mentions = t.mentions ++ new ∧ ∀ l ∈ new, env.Sees l ∧ l.id < env.here.first)
    (members : t'.members = t.members) (records : t'.records = opened.foldl noteOpening t.records) :
    Passing opened env t flow env' t' where
  count := count
  grows := grows
  ordered := ordered
  noted := by
    obtain ⟨new, isNew, outside⟩ := noted
    refine ⟨new, isNew, fun l member => .inl (outside l member).1, fun l member live => ?_,
      fun l captured => ?_⟩
    · have := (outside l member).2
      have := (ordered.own l live).1
      have := grows.behind.first
      omega
    · rw [capturedBy_of_inert inert.operations] at captured
      cases captured
  closes l closed := by
    rw [closedBy_of_inert inert.operations] at closed
    cases closed
  hides n r member := by
    rw [inert.regions] at member
    cases member
  closed n r member := by
    rw [inert.regions] at member
    cases member
  guarded := inert.guarded
  declares l _ _ := ⟨flow, .ops [], .stop flow, capturedBy_of_inert inert.operations l, nofun⟩
  tidy op member := Op.tidy_of_inert (inert.operations op member)
  members given := by rwa [members]
  records := records

/-- Code without closures, where variables may be declared. -/
theorem inert (declaring : Declaring env t env' t') (inert : flow.Inert) :
    Passage env t flow env' t' :=
  .quiet inert declaring.count declaring.grows declaring.ordered
    ⟨[], by rw [declaring.mentions, append_nil], nofun⟩ declaring.members declaring.records

theorem ops {operations : List Op} (ordered : env.Ordered t)
    (inert : operations.all Op.inert = true) : Passage env t (.ops operations) env t :=
  .inert (.refl ordered) (.ops (List.all_eq_true.1 inert))

theorem ops_behind (passage : Passing opened env t flow env' t') (ordered : env.Ordered t)
    (inert : operations.all Op.inert = true) :
    Passing opened env t (flow ++ .ops operations) env' t' := by
  have both := passage.append ordered (.ops passage.ordered inert)
  rwa [append_nil] at both

theorem ops_before (passage : Passing opened env t flow env' t') (ordered : env.Ordered t)
    (inert : operations.all Op.inert = true) :
    Passing opened env t (.ops operations ++ flow) env' t' :=
  (ops ordered inert).append ordered passage

/-- A part before which something is done that has no code. -/
theorem absorb (ordered : env.Ordered t) (first : Passing opened env t (.ops []) env₁ t₁)
    (second : Passing later env₁ t₁ flow env' t') :
      Passing (opened ++ later) env t flow env' t' := by
  refine first.join ordered second ⟨rfl, fun n r member => .inr ⟨n, member⟩, fun _ => id⟩
    fun l live new => ?_
  by_cases early : l ∈ env₁.live
  · refine ⟨.ops [], flow, .start flow, rfl, fun other closed => ?_⟩
    have := (second.closes other closed).slot
    have := (first.ordered.laid.slot_bounds early).2
    omega
  · exact second.declares l live early

theorem mention (ordered : env.Ordered t) (name : String) (inert : flow.Inert) :
    Passage env t flow env (Gen.mention env name t).2 := by
  cases isFound : env.here.find? name with
  | some l =>
    rw [Gen.mention_here isFound]
    exact .inert (.refl ordered) inert
  | none =>
    rw [Gen.mention_elsewhere isFound]
    have outside : ∀ l ∈ (env.here.resolve? name env.outer).toList,
        env.Sees l ∧ l.id < env.here.first := by
      intro l member
      have resolved := Option.mem_toList.1 member
      exact ⟨Level.sees_of_resolve? resolved,
        Level.id_lt_of_resolve? ordered.outer isFound resolved⟩
    refine .quiet inert (Nat.le_refl _) (.refl env _)
      (ordered.later (Nat.le_refl _) fun l member => ?_)
      ⟨_, rfl, outside⟩ rfl rfl
    rcases mem_append.1 member with old | new
    · exact ordered.noted l old
    · exact Nat.lt_of_lt_of_le (outside l new).2 ordered.first

/-- **A scope.** Its variables are declared in the block, or in a test before it. -/
theorem scope (ordered : env.Ordered t) (opens : Declaring env.enter t env₁ t₁)
    (block : Passage env₁ t₁ flow inner t₂) :
    Passage env t (.scope ((inner.here.scopes.headD []).reverse.map (.close inner.live)) flow
      (((inner.here.scopes.headD []).reverse.filter (· ∈ t₂.mentions)).map (.close inner.live)))
      env t₂ := by
  generalize isOwn : inner.here.scopes.headD [] = own
  have grows : env.enter.Grows t.count inner := opens.grows.trans block.grows opens.count
  have count : t.count ≤ t₂.count := Nat.le_trans opens.count block.count
  have live : inner.live = own ++ env.live := by
    have tail : inner.here.scopes.tail = env.here.scopes := grows.behind.scopes
    show inner.here.scopes.flatten = own ++ env.here.scopes.flatten
    rw [← isOwn, ← tail]
    cases inner.here.scopes <;> rfl
  have laid : Laid (own ++ env.live) := live ▸ block.ordered.laid
  have young : ∀ l ∈ own, t.count ≤ l.id := by
    obtain ⟨new, isNew, ids⟩ := grows.fresh
    rw [live] at isNew
    rw [append_cancel_right isNew]
    exact ids
  have isLive : ∀ l ∈ own, l ∈ inner.live := fun l member => by
    rw [live]
    exact mem_append.2 (.inl member)
  have hidden : ∀ l ∈ own, Hidden env t env t₂ l := by
    intro l member
    refine ⟨laid.slot_lt member, young l member, (block.ordered.own l (isLive l member)).2,
      fun old => ?_⟩
    have := (ordered.own l old).2
    have := young l member
    omega
  have inside {l : Local} (hidden : Hidden env₁ t₁ inner t₂ l) : Hidden env t env t₂ l :=
    ⟨Nat.lt_of_le_of_lt opens.grows.length_le hidden.slot, Nat.le_trans opens.count hidden.young,
      hidden.old, fun old => hidden.gone (grows.subset old)⟩
  obtain ⟨new, isNew, notes⟩ := block.noted
  rw [opens.mentions] at isNew
  -- What was mentioned of the scope was captured in it, and the other way around.
  have mentioned : ∀ l ∈ own, (decide (l ∈ t₂.mentions)) = capturedBy flow.operations l := by
    intro l member
    rw [Bool.eq_iff_iff, decide_eq_true_iff, isNew, mem_append]
    refine ⟨fun noted => ?_, fun captured => .inr (notes.captures l captured)⟩
    rcases noted with old | noted
    · have := ordered.noted l old
      have := young l member
      omega
    · exact notes.captured l noted (isLive l member)
  have uncaptured (l : Local) :=
    capturedBy_close inner.live (own.reverse.filter (· ∈ t₂.mentions)) l
  have regionLocals (n : Nat) (ending : List Op) :
      Region.locals ⟨n, own.reverse.map (.close inner.live), flow, ending⟩ = own.reverse :=
    filterMap_closed? inner.live own.reverse
  refine ⟨count, .refl env _, ordered.later count block.ordered.noted, ⟨new, isNew, ?_, ?_, ?_⟩,
    ?_, ?_, ?_, block.guarded, fun l live new => absurd live new, ?_, fun given => ?_,
    block.records.trans opens.records⟩
  · intro l member
    rcases notes.seen l member with sees | late
    · exact opens.grows.sees_or sees
    · exact .inr (Nat.le_trans opens.count late)
  · intro l member live
    rw [Flow.operations, capturedBy_append, notes.captured l member (grows.subset live)]
    rfl
  · intro l captured
    rw [Flow.operations, capturedBy_append, uncaptured, Bool.or_false] at captured
    exact notes.captures l captured
  · intro l closed
    rw [Flow.operations, closedBy_append, Bool.or_eq_true] at closed
    rcases closed with closed | closed
    · exact inside (block.closes l closed)
    · have member := mem_of_mem_filter ((closedBy_close _ _ l).1 closed)
      exact hidden l (mem_reverse.1 member)
  · intro n r member l isLocal
    rcases mem_cons.1 member with rfl | deeper
    · rw [regionLocals, mem_reverse] at isLocal
      exact hidden l isLocal
    · exact inside (block.hides n r deeper l isLocal)
  · intro n r member
    have same (l : Local) : (Flow.scope (own.reverse.map (.close inner.live)) flow
        ((own.reverse.filter (· ∈ t₂.mentions)).map (.close inner.live))).operations.countP
          (Op.captures l) = flow.operations.countP (Op.captures l) := by
      rw [Flow.operations, countP_append, countP_captures (uncaptured l), Nat.add_zero]
    rcases mem_cons.1 member with rfl | deeper
    · refine Region.Closed.congr (?_ : Region.Closed flow.operations _) fun l _ => same l
      refine ⟨fun op closing => ?_, ?_, ?_, block.guarded, ?_, ?_, fun _ _ => rfl⟩
      · obtain ⟨l, -, rfl⟩ := List.mem_map.1 closing
        exact ⟨l, rfl⟩
      · rw [List.filter_map]
        refine congrArg _ (filter_congr fun l member => ?_)
        exact mentioned l (mem_reverse.1 member)
      · rw [regionLocals, pairwise_reverse]
        exact (pairwise_append.1 laid.distinct).1.imp Ne.symm
      · intro l isLocal
        rw [regionLocals, mem_reverse] at isLocal
        rw [Bool.eq_false_iff]
        exact fun closed => (block.closes l closed).gone (isLive l isLocal)
      · intro l isLocal
        rw [regionLocals, mem_reverse] at isLocal
        by_cases tested : l ∈ env₁.live
        · -- A variable of the test is declared before all of the block.
          refine ⟨.ops [], flow, .start flow, rfl, fun other closed same => ?_⟩
          have := (block.closes other closed).slot
          have := (opens.ordered.laid.slot_bounds tested).2
          omega
        · exact block.declares l (isLive l isLocal) tested
    · exact (block.closed n r deeper).congr fun l _ => same l
  · intro op member
    rcases mem_append.1 member with early | late
    · exact block.tidy op early
    · obtain ⟨l, -, rfl⟩ := List.mem_map.1 late
      rintro _ ⟨⟩
  · exact block.members (by rwa [opens.members])

/-! ## Functions -/

/-- What a function notes that is no variable of its own can be seen from outside, if the function
is a closure. -/
theorem seen_of_nested {l : Local} {new : List Local}
    (notes : Notes ⟨Gen.nestedLevel isClosure t, env.here :: env.outer⟩ t.count flow inner new)
    (member : l ∈ new) :
    isClosure = true ∧ env.Sees l ∨ t.count ≤ l.id := by
  rcases notes.seen l member with (own | outside) | late
  · cases own
  · exact .inl outside
  · exact .inr late

theorem tidy_nested
    (body : Passing opened ⟨Gen.nestedLevel isClosure t, env.here :: env.outer⟩ t flow inner t') :
    Scheme.Tidy ⟨(Gen.nestedLevel isClosure t).mentioned t'.mentions, flow⟩ := by
  refine .intro body.closed (fun n r member l isLocal captured => ?_) body.tidy
  have early : l ∈ (Gen.nestedLevel isClosure t).mentioned t'.mentions := mem_eraseDups.1 captured
  have : l.id < t.count := of_decide_eq_true (mem_filter.1 early).2
  have := (body.hides n r member l isLocal).young
  omega

/-- **A closure.** It captures what is mentioned in it, also in functions in it. -/
theorem closure (ordered : env.Ordered t)
    (body : Passage ⟨Gen.nestedLevel true t, env.here :: env.outer⟩ t flow inner t') :
    Passage env t (.ops [.closure env.live ⟨(Gen.nestedLevel true t).mentioned t'.mentions, flow⟩])
      env t' := by
  obtain ⟨new, isNew, notes⟩ := body.noted
  have mentioned {l : Local} : l ∈ (Gen.nestedLevel true t).mentioned t'.mentions ↔
      l ∈ new ∧ l.id < t.count := by
    rw [Level.mentioned, isNew]
    show l ∈ ((t.mentions ++ new).drop t.mentions.length).filter (·.id < t.count) ↔ _
    rw [drop_left]
    simp
  refine ⟨body.count, .refl env _, ordered.later body.count body.ordered.noted,
    ⟨new, isNew, fun l member => ?_, fun l member live => ?_, fun l captured => ?_⟩,
    fun l closed => absurd closed Bool.false_ne_true,
    fun n r member => absurd member not_mem_nil,
    fun n r member => absurd member not_mem_nil, trivial,
    fun l live new => absurd live new, fun op member scheme isScheme => ?_, body.members,
      body.records⟩
  · exact (seen_of_nested notes member).imp_left And.right
  · exact (Op.captures_closure _ _ l).2 (mentioned.2 ⟨member, (ordered.own l live).2⟩)
  · exact (mentioned.1 ((Op.captures_closure _ _ l).1 captured)).1
  · cases mem_singleton.1 member
    cases isScheme
    exact tidy_nested body

theorem function (ordered : env.Ordered t)
    (body : Passing opened ⟨Gen.nestedLevel false t, env.here :: env.outer⟩ t flow inner t')
    (loads : ∀ op ∈ operations, op.inert = true ∨
      op = .function ⟨(Gen.nestedLevel false t).mentioned t'.mentions, flow⟩) :
    Passing opened env t (.ops operations) env t' := by
  obtain ⟨new, isNew, notes⟩ := body.noted
  have uncaptured (l : Local) : capturedBy operations l = false := by
    refine List.any_eq_false.2 fun op member => ?_
    rcases loads op member with inert | rfl
    · rw [Op.captures_of_inert inert]
      exact Bool.false_ne_true
    · exact Bool.false_ne_true
  have unclosed (l : Local) : closedBy operations l = false := by
    refine List.any_eq_false.2 fun op member => ?_
    rcases loads op member with inert | rfl
    · have isInert : ∀ other ∈ [op], other.inert = true := by simpa using inert
      simpa [closedBy] using closedBy_of_inert isInert l
    · simp [Op.closed?]
  refine ⟨body.count, .refl env _, ordered.later body.count body.ordered.noted,
    ⟨new, isNew, fun l member => ?_, fun l member live => ?_, fun l captured => ?_⟩,
    fun l closed => ?_, nofun, nofun, trivial, fun l live new => absurd live new,
    fun op member => ?_, body.members, body.records⟩
  · exact (seen_of_nested notes member).imp_left And.right
  · rcases seen_of_nested notes member with ⟨never, -⟩ | late
    · cases never
    · have := (ordered.own l live).2
      omega
  · exact absurd captured (by rw [Flow.operations, uncaptured]; exact Bool.false_ne_true)
  · exact absurd closed (by rw [Flow.operations, unclosed]; exact Bool.false_ne_true)
  · rcases loads op member with inert | rfl
    · exact Op.tidy_of_inert inert
    · rintro scheme ⟨⟩
      exact tidy_nested body

theorem define (passage : Passing opened env t flow env' t') (tidy : ∀ op ∈ operations, op.Tidy) :
    Passing opened env t flow env' { t' with members := t'.members ++ operations } :=
  { passage with
    ordered := ⟨passage.ordered.laid, passage.ordered.first, passage.ordered.own,
      passage.ordered.outer, passage.ordered.noted⟩
    closes := fun l closed =>
      have hidden := passage.closes l closed
      ⟨hidden.slot, hidden.young, hidden.old, hidden.gone⟩
    hides := fun n r member l own =>
      have hidden := passage.hides n r member l own
      ⟨hidden.slot, hidden.young, hidden.old, hidden.gone⟩
    members := fun given => List.forall_mem_append.2 ⟨passage.members given, tidy⟩ }

end Passing

end StackCode
