import StackCode.Proofs.Steps

/-!
# Pieces of code and what the text asks for

A function that is complete is finished: room for its variables is made before its code, and the
whole is assembled from its scheme, in the world that is read off it. For each construction around
pieces of code, what it makes is the code of a flow if what it is made from is.
-/

namespace StackCode

open List Option Code

/-! ## Finished functions -/

theorem CompiledFunction.mem_walk_cases {f h : CompiledFunction} (member : h ∈ f.walk) :
    h = f ∨ ∃ g, .function g ∈ f.constants ∧ h ∈ g.walk := by
  obtain ⟨name, code, location, lines, constants, required, optional, upvalues⟩ := f
  rw [walk, walkPool_eq, mem_cons, mem_flatMap] at member
  refine member.imp id fun nested => ?_
  obtain ⟨g, inPool, inside⟩ := nested
  obtain ⟨value, isConstant, isFunction⟩ := mem_filterMap.1 inPool
  cases value <;> cases isFunction
  exact ⟨g, isConstant, inside⟩

namespace CompleteFrame

variable {W : World} {live : List Local} {isClosure : Bool} {frame : Frame} {scheme : Scheme}
  {code : Code}

section

variable (complete : CompleteFrame W live isClosure frame scheme)
  (coded : ∀ W', frame.world scheme ≤ W' → ∀ stop, Coded W' 0 stop scheme.body code)
  (ends : scheme.body.Ends) (name : String) (named : isClosure = true → name = "<closure>")
  (file : String) (span : Span) (required optional : Nat)

include complete coded ends name named file span required optional

/-- **A complete function with the code of its scheme is assembled from it.** -/
theorem assembled :
    ∃ room, Assembled scheme room code.instrs
      (frame.finish name file span required optional code) := by
  let count := frame.scopes.localCount - (required + optional)
  let room : Code := if count = 0 then #[] else
    Code.one span (.indexed .prepLocals (UInt16.ofNat count))
  let f := frame.finish name file span required optional code
  have written : f.code = (room ++ code).bytes := by
    simp only [f, room, Frame.finish, count]
    split <;> simp
  have codes := (coded _ (World.le_refl _) 0).codes 0
  have isRoom : room.instrs = [] ∨ ∃ i, room.instrs = [.indexed .prepLocals i] := by
    simp only [room]
    split
    · exact .inl rfl
    · exact .inr ⟨_, rfl⟩
  have writtenAs : WrittenAs f.code (room.instrs ++ code.instrs) := by
    refine ⟨by rw [written, toList_bytes, instrs_append], fun i member => ?_⟩
    rcases mem_append.1 member with inRoom | inCode
    · rcases isRoom with none | ⟨index, one⟩
      · rw [none] at inRoom
        cases inRoom
      · rw [one] at inRoom
        rw [mem_singleton.1 inRoom]
        trivial
    · exact codes.fits inCode
  -- The room that is made is what the variables beyond the parameters need.
  have small : count < 65536 := by
    have := complete.small
    simp only [count, ScopeStack.localCount]
    omega
  have frameSize : f.frameSize = required + optional + count := by
    have noRoom : code.instrs.findSome? Instr.room? = Option.none :=
      List.findSome?_eq_none_iff.2 fun i member => codes.room?_eq_none member
    have isCount : (room.instrs.findSome? Instr.room?).getD 0 = count := by
      simp only [room]
      split
      · rename_i zero
        exact zero.symm
      · exact UInt16.toNat_ofNat_of_lt' small
    rw [CompiledFunction.frameSize, writtenAs.reads, List.findSome?_append, noRoom,
      or_none, isCount]
    rfl
  have grown : frame.world scheme ≤ f.world scheme.captured := by
    refine ⟨prefix_refl _, prefix_refl _, ?_⟩
    show frame.scopes.localCount ≤ f.frameSize
    rw [frameSize]
    omega
  have upvalues : f.upvalues = scheme.captured.length := by
    rw [← complete.captures.length_eq]
    exact (CaptureList.length_sources _).symm
  refine ⟨room.instrs, writtenAs, isRoom, (coded _ grown 0).codes, ends, fun stop => ?_, upvalues,
    complete.pool.indexed.right, fun some => ?_⟩
  · have typed := (coded _ grown stop).typed stop 0
    rwa [Nat.zero_add, Nat.zero_add] at typed
  · change 0 < f.upvalues at some
    cases isClosure with
    | true => exact named rfl
    | false =>
      rw [upvalues, complete.none rfl] at some
      cases some

theorem built :
    Built scheme (frame.finish name file span required optional code) ∧
      ∀ h ∈ (frame.finish name file span required optional code).walk, h.Sound := by
  obtain ⟨room, assembled⟩ := complete.assembled coded ends name named file span required optional
  refine ⟨assembled.built, fun h member => ?_⟩
  rcases CompiledFunction.mem_walk_cases member with rfl | ⟨g, inPool, inside⟩
  · exact ⟨scheme, room, code.instrs, assembled⟩
  · exact complete.pool.sound g inPool h inside

end

end CompleteFrame

/-! ## Rules for pieces -/

/-- A step makes the code of a part of the text that declares nothing, and that leaves so many
operands more. -/
abbrev Pushes (count : Nat) (env : Env) (c : Compile Code) (g : Gen (Flow Op)) : Prop :=
  ∀ P : World → Prop, Builds env P c g (fun _ => env) fun W code flow => Coded W 0 count flow code

/-- The same for a part of the text behind which more may be visible. -/
abbrev Runs (count : Nat) (env : Env) (c : Compile Code) (g : Gen (Flow Op × Env)) : Prop :=
  ∀ P : World → Prop, Builds env P c g Prod.snd fun W code made => Coded W 0 count made.1 code

namespace Builds

variable {α β δ : Type} {env : Env} {P : World → Prop}
variable {place : Place} {value : Compile Code} {g : Gen (Flow Op)} {c : Compile α} (site : Site)
  (name : String) (operator : Option BinaryOp) (found : Option Local) (span : Span)
  {after : δ → Env} {Q' : World → α → δ → Prop}

theorem gen_map {g : Gen β} {after : β → Env} {after' : δ → Env} {Q : World → α → β → Prop}
    {k : β → δ} (builds : Builds env P c g after Q) (here : ∀ b, after' (k b) = after b)
    (made : ∀ W a b, P W → env.Extends (after b) → Q W a b → Q' W a (k b)) :
    Builds env P c (g >>= fun b => Pure.pure (k b)) after' Q' where
  failed := builds.failed
  holds s t tracks given clean := by
    obtain ⟨tracks', behind, isMade⟩ := builds.holds s t tracks given clean
    have grown := behind.world tracks.head.start
    show Tracks (c s).2 (after' (k (g t).1)) (g t).2 ∧
      Behind s env t (c s).2 (after' (k (g t).1)) (g t).2 ∧
      ∀ W, worldOf (c s).2 (after' (k (g t).1)) (g t).2 ≤ W → Q' W (c s).1 (k (g t).1)
    rw [here]
    exact ⟨tracks', behind, fun W le =>
      made W _ _ (given W (World.le_trans grown le)) behind.env (isMade W le)⟩

theorem last {Q : World → α → Prop} {b : δ} (quiet : Quiet env P c Q) (here : after b = env)
    (made : ∀ W a, P W → Q W a → Q' W a b) :
    Builds env P c (Pure.pure b) after Q' :=
  quiet.gen_map (fun _ => here) fun W a _ given _ => made W a given

theorem load_last {Q₀ : List Value → α → Prop} {b : δ} (loads : Loads (fun _ => True) c Q₀)
    (here : after b = env) (made : ∀ W a, P W → Q₀ W.pool a → Q' W a b) :
    Builds env P c (Pure.pure b) after Q' :=
  last (quiet_of_loads loads fun _ _ => trivial) here made

/-! ## Variables -/

theorem atPlace {family : Family} {index : Nat} {op : Local → Op}
    (denotes : ∀ W, P W → ∃ l, found = some l ∧ W.Denotes env.live place l)
    (encoded : ∀ {W l} {i : UInt16}, i.toNat = index → W.Denotes env.live place l →
      Encoded W (op l) (.indexed family i)) :
    Quiet env P (Compile.indexed family index span) fun W code =>
      ∃ l, found = some l ∧ Forall₂ (Encoded W) [op l] code.instrs := by
  refine load_last (Loads.indexed family index span) rfl fun W code given made => ?_
  obtain ⟨i, rfl, isIndex⟩ := made
  obtain ⟨l, isFound, isPlace⟩ := denotes W given
  exact ⟨l, isFound, .cons (encoded isIndex isPlace) .nil⟩

theorem getPlace (denotes : ∀ W, P W → ∃ l, found = some l ∧ W.Denotes env.live place l) :
    Quiet env P (Compile.getPlace place span) fun W code =>
      ∃ l, found = some l ∧ Forall₂ (Encoded W) [.get env.live l] code.instrs := by
  cases place with
  | «local» slot => exact atPlace found span denotes fun same isPlace => .getLocal (same ▸ isPlace)
  | upvalue index =>
    exact atPlace found span denotes fun same isPlace => .getUpvalue (same ▸ isPlace)

theorem setPlace (denotes : ∀ W, P W → ∃ l, found = some l ∧ W.Denotes env.live place l) :
    Quiet env P (Compile.setPlace place span) fun W code =>
      ∃ l, found = some l ∧ Forall₂ (Encoded W) [.set env.live l] code.instrs := by
  cases place with
  | «local» slot =>
    refine (atPlace found span denotes fun same isPlace => .setLocal (same ▸ isPlace)).step
      fun code => ?_
    exact (markInitialized slot).step fun _ => pure rfl fun W given => given.1.2
  | upvalue index =>
    exact atPlace found span denotes fun same isPlace => .setUpvalue (same ▸ isPlace)

theorem getVariable :
    Pushes 1 env (Compile.getVariable name span) (do
      let l ← Gen.mention env name
      return .ops [.read env.live l]) := by
  refine fun P => (resolveVariable name span).seq fun v found => ?_
  cases v with
  | none => exact fail fun _ before => before
  | some v =>
    refine failIf (last (getPlace found span fun W given => given.2 v rfl) rfl fun W code _ made =>
      ?_)
    obtain ⟨l, rfl, each⟩ := made
    exact .ops each (.one (Nat.le_refl _) rfl)

theorem assignVariable (isValue : Pushes 1 env value g) :
    Pushes 1 env (Compile.assignVariable name operator span value) (do
      let l ← Gen.mention env name
      let value ← g
      let assigned : Flow Op :=
        match operator with
        | some op => .ops [.read env.live l] ++ value ++ .ops [.plain (.binary op)]
        | none => value
      return assigned ++ .ops [.write env.live l]) := by
  refine fun P => (resolveVariable name span).seq fun v found => ?_
  cases v with
  | none => exact fail (isValue (fun _ => True)).failed
  | some v =>
    refine failIf ?_
    cases operator with
    | some op =>
      refine failIf ((getPlace found span fun W given => given.2 v rfl).step fun old => ?_)
      refine (isValue _).seq fun value flow => ?_
      rw [pure_bind]
      refine (setPlace found span fun W given => given.1.1.2 v rfl).step fun store => pure rfl
        fun W given => ?_
      obtain ⟨⟨⟨-, l, rfl, isOld⟩, coded⟩, l', isFound, isStore⟩ := given
      cases isFound
      have read : Coded W 0 1 (.ops [.get env.live l]) old := .ops isOld (.one (Nat.le_refl _) rfl)
      have combined : Coded W 2 1 (.ops [.plain (.binary op)]) (Code.plain span (.binary op)) :=
        .one (.plain _) span (.one (Nat.le_refl _) rfl)
      have stored : Coded W 1 1 (.ops [.set env.live l]) store :=
        .ops isStore (.one (Nat.le_refl _) rfl)
      exact ((read.append (coded.frame 1)).append combined).append stored
    | none =>
      refine (isValue _).seq fun value flow => ?_
      refine (setPlace found span fun W given => given.1.2 v rfl).step fun store => pure rfl
        fun W given => ?_
      obtain ⟨⟨-, coded⟩, l, rfl, isStore⟩ := given
      exact coded.append (.ops isStore (.one (Nat.le_refl _) rfl))

theorem bindLocal (mutable : Bool) (span : Span) :
    Builds env P (Compile.bindLocal name mutable span) (Gen.bind env name) Prod.snd
      fun W code made => Forall₂ (Encoded W) made.1 code.instrs ∧
        Chain Op.effect 1 made.1 0 := by
  refine (declareLocal name mutable span).bind fun slot made => ?_
  obtain ⟨l, inner⟩ := made
  cases slot with
  | none =>
    refine absurd (fun _ before => before) fun W given => ?_
    cases given.2.2.1
  | some slot =>
    refine denotes (l := l) ?_ fun W given => given.2.2.2
    refine (setPlace (some l) span fun W given => ⟨l, rfl, ?_⟩).step fun store =>
      pure rfl fun W given => ?_
    · obtain ⟨⟨-, -, isSlot, -⟩, isPlace⟩ := given
      cases isSlot
      exact isPlace
    · obtain ⟨-, l', isFound, isStore⟩ := given
      cases isFound
      refine ⟨?_, .append (.one (Nat.le_refl _) rfl) (.one (Nat.le_refl _) rfl)⟩
      rw [instrs_append]
      exact rel_append isStore (.cons (.plain _) .nil)

theorem declareHidden_bind {γ : Type} {f : Option Nat → Compile γ} {h : Local × Env → Gen δ}
    {Q : World → γ → δ → Prop} (purpose : String) (span : Span)
    (failed : ∀ s : CompileState, Failed s.issues → Failed (f none s).2.issues)
    (rest : ∀ (l : Local) (inner : Env), Builds inner (fun W => P W ∧ env.Extends inner ∧
      l ∈ inner.live) (f (some l.slot)) (h (l, inner)) after Q) :
    Builds env P (Compile.declareHidden purpose span >>= f) (Gen.declare env none >>= h)
      after Q := by
  refine (declareHidden purpose span).bind fun slot made => ?_
  obtain ⟨l, inner⟩ := made
  cases slot with
  | none => exact absurd failed fun W given => nomatch given.2.2.1
  | some slot =>
    by_cases isSlot : slot = l.slot
    · subst isSlot
      exact (rest l inner).pre fun W given => ⟨given.1, given.2.1, given.2.2.2⟩
    · refine absurd (rest ⟨none, slot, 0⟩ env).failed fun W given => isSlot ?_
      exact Option.some.inj given.2.2.1

theorem getSlot {l : Local} (isLive : ∀ W, P W → l ∈ env.live) :
    Quiet env P (Compile.indexed .getLocal l.slot span) fun W code =>
      Forall₂ (Encoded W) [.get env.live l] code.instrs := by
  refine denotes (load_last (Loads.indexed .getLocal l.slot span) rfl fun W code given made =>
    ?_) isLive
  obtain ⟨i, rfl, isSlot⟩ := made
  exact .cons (.getLocal (isSlot ▸ given.2)) .nil

theorem setSlot {l : Local} (isLive : ∀ W, P W → l ∈ env.live) :
    Quiet env P (Compile.indexed .setLocal l.slot span) fun W code =>
      Forall₂ (Encoded W) [.set env.live l] code.instrs := by
  refine denotes (load_last (Loads.indexed .setLocal l.slot span) rfl fun W code given made =>
    ?_) isLive
  obtain ⟨i, rfl, isSlot⟩ := made
  exact .cons (.setLocal (isSlot ▸ given.2)) .nil

/-! ## Instance variables -/

theorem getIvar : Pushes 1 env (Compile.getIvar site name span) (return .ops [.getIvar]) := by
  refine fun P => load (Loads.ivarOperand site name span) fun operand => ?_
  refine last (quiet_of_loads (Loads.getIvarOperand (P := fun _ => True) operand span)
    fun W given => ⟨trivial, given.2⟩) rfl fun W code _ loaded => ?_
  exact loaded.coded (.one (Nat.le_refl _) rfl)

theorem assignIvar (isValue : Pushes 1 env value g) :
    Pushes 1 env (Compile.assignIvar site name operator span value) (do
      let value ← g
      let assigned : Flow Op :=
        match operator with
        | some op => .ops [.getIvar] ++ value ++ .ops [.plain (.binary op)]
        | none => value
      return assigned ++ .ops [.setIvar]) := by
  refine fun P => load (Loads.ivarOperand site name span) fun operand => ?_
  have store (P : List Value → Prop) := Loads.setIvarOperand (P := P) operand span
  cases operator with
  | some op =>
    refine (quiet_of_loads (Loads.getIvarOperand (P := fun _ => True) operand span)
      fun W given => ⟨trivial, given.2⟩).step fun old => ?_
    refine (isValue _).seq fun value flow => ?_
    rw [pure_bind]
    refine (quiet_of_loads (store fun _ => True) fun W given => ⟨trivial, given.1.1.2⟩).step
      fun store => pure rfl fun W given => ?_
    obtain ⟨⟨⟨-, isOld⟩, coded⟩, isStore⟩ := given
    have read : Coded W 0 1 (.ops [.getIvar]) old := isOld.coded (.one (Nat.le_refl _) rfl)
    have combined : Coded W 2 1 (.ops [.plain (.binary op)]) (Code.plain span (.binary op)) :=
      .one (.plain _) span (.one (Nat.le_refl _) rfl)
    exact ((read.append (coded.frame 1)).append combined).append
      (isStore.coded (.one (Nat.le_refl _) rfl))
  | none =>
    refine (isValue _).seq fun value flow => ?_
    refine (quiet_of_loads (store fun _ => True) fun W given => ⟨trivial, given.1.2⟩).step
      fun store => pure rfl fun W given => ?_
    exact given.1.2.append (given.2.coded (.one (Nat.le_refl _) rfl))

/-! ## Control flow -/

theorem inScope {count : Nat} {body : Compile Code} {part : Env → Gen (Flow Op × Env)}
    (isBody : Runs count env.enter body (part env.enter)) :
    Pushes count env (Compile.inScope span body) (Gen.scope env part) := by
  intro P
  refine (withScope (Q := fun W code flow => Coded W 0 count flow code) span (isBody P)).seq
    fun made parts => pure rfl fun W given => ?_
  obtain ⟨-, coded, each, chain⟩ := given
  exact .scope (coded.append ((Coded.ops each chain).frame count))

theorem shortCircuit (kind : JumpKind) (forward : kind ≠ .back) (tests : kind.tests = true)
    (keeps : kind.effect.after 1 = 1) (span : Span) {left right : Compile Code} {h : Gen (Flow Op)}
    (isLeft : Pushes 1 env left g) (isRight : Pushes 1 env right h) :
    Pushes 1 env (Compile.shortCircuit kind span left right) (do
      let left ← g
      let right ← h
      return left ++ .skip kind (.ops [.plain .pop] ++ right)) := by
  refine fun P => (isLeft P).seq fun left first => (isRight _).seq fun right second => ?_
  refine load (Loads.jump kind _ span span) fun skip => pure rfl fun W given => ?_
  obtain ⟨⟨⟨-, isFirst⟩, isSecond⟩, distance, rfl, goes⟩ := given
  have dropped : Coded W 1 0 (.ops [.plain .pop]) (Code.plain span .pop) :=
    .one (.plain _) span (.one (Nat.le_refl _) rfl)
  have body := dropped.append isSecond
  have size : distance.toNat = (Code.plain span .pop ++ right).byteSize := by
    rw [goes, byteSize_eq, byteSize_eq, instrs_append, codeSize_append, Nat.add_comm]
    rfl
  have skipped := Coded.skip kind forward tests span (by rwa [keeps]) size
  rw [keeps] at skipped
  simpa only [Array.append_assoc] using isFirst.append skipped

theorem conditional {condition thenBranch elseBranch : Compile Code} {yes no : Gen (Flow Op)}
    (isCondition : Pushes 1 env condition g) (isThen : Pushes 1 env thenBranch yes)
    (isElse : Pushes 1 env elseBranch no) :
    Pushes 1 env (Compile.conditional span condition thenBranch elseBranch) (do
      let condition ← g
      let yes ← yes
      let no ← no
      return condition ++ .choose yes no) := by
  refine fun P => (isCondition P).seq fun condition flow => (isThen _).seq fun first yes => ?_
  refine load (Loads.jump .whenFalse _ span span) fun otherwise => ?_
  refine (isElse _).seq fun second no => ?_
  refine load (Loads.jump .always _ span span) fun done => pure rfl fun W given => ?_
  obtain ⟨⟨⟨⟨⟨-, isFlow⟩, isYes⟩, past, rfl, pastGoes⟩, isNo⟩, leave, rfl, leaveGoes⟩ := given
  simpa only [Array.append_assoc] using
    isFlow.append (Coded.choose span span isYes isNo pastGoes leaveGoes)

theorem loop (span : Span) {condition body : Compile Code} {g h : Gen (Flow Op)}
    (isCondition : Pushes 1 env condition g) (isBody : Pushes 0 env body h) :
    Pushes 0 env (Compile.loop span condition body) (do
      let condition ← g
      let body ← h
      return .loop condition body) := by
  refine fun P => (isCondition P).seq fun condition flow => (isBody _).seq fun body inside => ?_
  refine load (Loads.jump .back _ span span) fun back => ?_
  refine load (Loads.jump .whenFalse _ span span) fun leave => pure rfl fun W given => ?_
  obtain ⟨⟨⟨⟨-, isFlow⟩, isInside⟩, distance, rfl, backGoes⟩, past, rfl, pastGoes⟩ := given
  exact .loop span isFlow isInside pastGoes backGoes

end Builds

/-! ## Switches -/

/-- The code of an arm: its test, a jump over its body and the jump that leaves it, and its body. -/
structure ArmCoded (W : World) (flows : Flow Op × Flow Op) (arm : Compile.Arm) : Prop where
  intro ::
  parts : ∃ (span : Span) (test body : Code) (past : UInt16),
    arm.code = test ++ Code.one span (.jump .whenFalse past) ++ body ∧
      past.toNat = body.byteSize + 3 ∧ Coded W 0 1 flows.1 test ∧ Coded W 0 1 flows.2 body

/-- Arms are joined, each with a jump to the end, and the last branch is behind them. -/
inductive Joined (last : Code) : List Compile.Arm → Code → Prop where
  | nil : Joined last [] last
  | cons {arm : Compile.Arm} {rest : List Compile.Arm} {code : Code} {leave : UInt16}
      (others : Joined last rest code) (goes : leave.toNat = code.byteSize) :
      Joined last (arm :: rest) (arm.code ++ Code.one arm.span (.jump .always leave) ++ code)

namespace Joined

variable {last code : Code} {arms : List Compile.Arm}

theorem byteSize (joined : Joined last arms code) :
    code.byteSize = Ensures.switchSize arms last := by
  induction joined with
  | nil => rfl
  | @cons arm rest code leave others goes ih =>
    rw [byteSize_eq] at ih ⊢
    rw [instrs_append, instrs_append, codeSize_append, codeSize_append, ih,
      ← byteSize_eq]
    rfl

theorem coded {W : World} {flows : List (Flow Op × Flow Op)} {flow : Flow Op}
    (joined : Joined last arms code) (each : Forall₂ (ArmCoded W) flows arms)
    (isLast : Coded W 0 1 flow last) : Coded W 0 1 (Flow.switch flows flow) code := by
  induction joined generalizing flows with
  | nil =>
    cases each
    exact isLast
  | @cons arm rest code leave others goes ih =>
    cases each with
    | cons first remaining =>
      obtain ⟨span, test, body, past, isCode, pastGoes, isTest, isBody⟩ := first.parts
      rw [isCode]
      have whole := isTest.append
        (Coded.choose span arm.span isBody (ih remaining) pastGoes goes)
      simp only [Array.append_assoc] at whole ⊢
      exact whole

end Joined

theorem Loads.joinArms (span : Span) (last : Code) (arms : List Compile.Arm) (size : Nat)
    (code : Code) (isSize : size = Ensures.switchSize arms last) {P : List Value → Prop} :
    Loads P (Compile.joinArms span last size code arms) fun _ whole =>
      ∃ more, whole = code ++ more ∧ Joined last arms more := by
  induction arms generalizing size code P with
  | nil => exact pure fun _ _ => ⟨last, rfl, .nil⟩
  | cons arm rest ih =>
    unfold Compile.joinArms
    -- What is left behind the jump is the size less the arm and the jump.
    have left : size - (arm.code.byteSize + 3) = Ensures.switchSize rest last := by
      rw [isSize]
      exact Nat.add_sub_cancel_left _ _
    refine (jump .always _ arm.span span).bind fun leave => (ih _ _ left).imp
      fun values whole given made => ?_
    obtain ⟨more, rfl, joined⟩ := made
    obtain ⟨-, distance, rfl, goes⟩ := given
    rw [left, ← joined.byteSize] at goes
    exact ⟨_, by simp only [Array.append_assoc], .cons joined goes⟩

namespace Builds

variable {env : Env} {P : World → Prop}

theorem arm (span : Span) {test body : Compile Code} {part : Env → Gen ((Flow Op × Flow Op) × Env)}
    (isArm : Builds env.enter P (do
      let test ← test
      let body ← body
      return (test, body)) (part env.enter) Prod.snd fun W codes made =>
        Coded W 0 1 made.1.1 codes.1 ∧ Coded W 0 1 made.1.2 codes.2) :
    Builds env P (Compile.arm span test body) (Gen.inScope env part) (fun _ => env)
      fun W arm made => ArmCoded W (made.1.1, .scope made.2.1 made.1.2 made.2.2) arm := by
  have scope := withScope (Q := fun W (codes : Code × Code) (flows : Flow Op × Flow Op) =>
    Coded W 0 1 flows.1 codes.1 ∧ Coded W 0 1 flows.2 codes.2) span isArm
  rw [← bind_pure (Gen.inScope env part)]
  refine scope.seq fun ⟨⟨test, body⟩, ending⟩ made => ?_
  refine load (Loads.jump .whenFalse _ span span) fun next => pure rfl fun W given => ?_
  obtain ⟨⟨-, ⟨isTest, isBody⟩, each, chain⟩, past, rfl, goes⟩ := given
  refine ⟨span, test, body ++ ending, past, ?_, ?_, isTest, ?_⟩
  · simp only [Array.append_assoc]
  · rw [goes, byteSize_eq, byteSize_eq, byteSize_eq, instrs_append, codeSize_append]
  · exact .scope (isBody.append ((Coded.ops each chain).frame 1))

theorem switch (span : Span) (arms : List Compile.Arm) (last : Code)
    (flows : List (Flow Op × Flow Op)) (flow : Flow Op)
    (given : ∀ W, P W → Forall₂ (ArmCoded W) flows arms ∧ Coded W 0 1 flow last) :
    Quiet env P (Compile.switch span arms last) fun W code =>
      Coded W 0 1 (Flow.switch flows flow) code := by
  refine load_last (Loads.joinArms span last arms _ #[] rfl) rfl fun W code isP made => ?_
  obtain ⟨more, rfl, joined⟩ := made
  obtain ⟨each, isLast⟩ := given W isP
  rw [Array.empty_append]
  exact joined.coded each isLast

end Builds

end StackCode
