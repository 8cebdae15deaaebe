import StackCode.Proofs.PatternCode
import StackCode.Proofs.Pieces

/-!
# The tests of patterns

The steps of a pattern are the parts of its test, one by one. When they are turned into code, each
check becomes a jump to the branch behind all of them, so the code is that of an attempt; a pattern
that cannot fail has no such branch, and no jumps.
-/

namespace StackCode

open List Code

/-! ## Steps and checks -/

/-- A step is the code of a check. -/
inductive StepOf (W : World) : Check → Step → Prop where
  | run {op : Op} {i : Located} (encoded : Encoded W op i.instr) : StepOf W (.run op) (.run i)
  | need (line : Nat) : StepOf W .need (.require line)

/-- The parts of a test take the stack from one depth to another. Where a check fails, nothing is
left of what the test pushed. -/
inductive Balanced : Nat → List Check → Nat → Prop where
  | nil {depth : Nat} : Balanced depth [] depth
  | run {op : Op} {start between stop : Nat} {rest : List Check} (enough : op.effect.pops ≤ start)
      (falls : op.effect.ends = false → between = op.effect.after start)
      (others : Balanced between rest stop) : Balanced start (.run op :: rest) stop
  | need {stop : Nat} {rest : List Check} (others : Balanced 0 rest stop) :
      Balanced 1 (.need :: rest) stop

namespace Balanced

variable {start between stop : Nat} {a b : List Check}

theorem append (first : Balanced start a between) (second : Balanced between b stop) :
    Balanced start (a ++ b) stop := by
  induction first with
  | nil => exact second
  | run enough falls _ ih => exact .run enough falls (ih second)
  | need _ ih => exact .need (ih second)

theorem ofOps {operations : List Op} (chain : Chain Op.effect start operations stop) :
    Balanced start (Check.ofOps operations) stop := by
  induction operations generalizing start with
  | nil =>
    cases chain
    exact .nil
  | cons op rest ih =>
    obtain ⟨enough, between, falls, others⟩ := chain
    exact .run enough falls (ih others)

/-- The flow of the parts of a test, above some operands that it leaves alone. If it has checks,
these are all that is there where one fails. -/
theorem typed (balanced : Balanced start a stop) {failed depth : Nat}
    (same : a.any Check.canFail = true → failed = depth) :
    Typed Op.effect failed (depth + start) (Flow.ofChecks a) (depth + stop) := by
  induction balanced with
  | nil => exact .ops rfl
  | @run op start between stop rest enough falls _ ih =>
    refine .seq (.ops ⟨by omega, depth + between, fun goesOn => ?_, rfl⟩) (ih same)
    rw [falls goesOn]
    simp only [Effect.after]
    omega
  | need _ ih =>
    cases same rfl
    exact .seq .require (ih fun _ => rfl)

end Balanced

/-- Steps are the code of checks. -/
structure TestOf (W : World) (start stop : Nat) (checks : List Check) (steps : Steps) : Prop where
  each : List.Forall₂ (StepOf W) checks steps.toList
  balanced : Balanced start checks stop

namespace TestOf

variable {W : World} {start between stop : Nat} {a b : List Check} {steps steps' : Steps}

theorem nil : TestOf W start start [] #[] := ⟨.nil, .nil⟩

theorem append (first : TestOf W start between a steps) (second : TestOf W between stop b steps') :
    TestOf W start stop (a ++ b) (steps ++ steps') := by
  refine ⟨?_, first.balanced.append second.balanced⟩
  rw [Array.toList_append]
  exact rel_append first.each second.each

theorem ofOps {operations : List Op} {code : Code}
    (each : Forall₂ (Encoded W) operations code.instrs)
    (chain : Chain Op.effect start operations stop) :
    TestOf W start stop (Check.ofOps operations) (Steps.ofCode code) := by
  refine ⟨?_, .ofOps chain⟩
  rw [Steps.ofCode, Array.toList_map, Check.ofOps, forall₂_map_left_iff, forall₂_map_right_iff]
  exact (forall₂_map_right_iff.1 each).imp fun _ _ => .run

theorem need (span : Span) : TestOf W 1 0 [.need] (Steps.require span) :=
  ⟨.cons (.need _) .nil, .need .nil⟩

theorem any_canFail (test : TestOf W start stop a steps) :
    steps.any Compile.Step.canFail = a.any Check.canFail := by
  obtain ⟨each, -⟩ := test
  rw [← Array.any_toList]
  generalize steps.toList = list at each
  induction each with
  | nil => rfl
  | cons first _ ih =>
    rw [any_cons, any_cons, ih]
    cases first <;> rfl

end TestOf

/-! ## From steps to code -/

/-- Steps are turned into code, whose checks go on `n` bytes behind it. -/
inductive Resolved (n : Nat) : List Step → Code → Prop where
  | nil : Resolved n [] #[]
  | run {i : Located} {rest : List Step} {code : Code} (others : Resolved n rest code) :
      Resolved n (.run i :: rest) (#[i] ++ code)
  | require {line : Nat} {rest : List Step} {code : Code} {leave : UInt16} {span : Span}
      (others : Resolved n rest code) (goes : leave.toNat = code.byteSize + n) :
      Resolved n (.require line :: rest) (Code.one span (.jump .whenFalse leave) ++ code)

namespace Resolved

variable {n : Nat} {steps : List Step} {code : Code} {W : World} {checks : List Check}

theorem byteSize (resolved : Resolved n steps code) : code.byteSize = Ensures.stepsSize steps := by
  induction resolved with
  | nil => rfl
  | @run i rest code _ ih =>
    rw [byteSize_eq] at ih ⊢
    rw [instrs_append, codeSize_append, ih]
    simp [Ensures.stepsSize, Step.size, Code.instrs]
  | @require line rest code leave span _ _ ih =>
    rw [byteSize_eq] at ih ⊢
    rw [instrs_append, codeSize_append, ih]
    rfl

/-- The code is that of the test. If it has checks, they go on where they should. -/
theorem codes (resolved : Resolved n steps code) (each : Forall₂ (StepOf W) checks steps)
    {m : Nat} (same : checks.any Check.canFail = true → m = n) :
    Codes (Encoded W) m (Flow.ofChecks checks) code.instrs := by
  induction resolved generalizing checks with
  | nil =>
    cases each
    exact .ops .nil
  | @run i rest code _ ih =>
    cases each with
    | cons first others =>
      cases first with
      | run encoded =>
        rw [instrs_append]
        exact .seq (.ops (.cons encoded .nil)) (ih others same)
  | @require line rest code leave span _ goes ih =>
    cases each with
    | cons first others =>
      cases first with
      | need =>
        cases same rfl
        rw [instrs_append]
        refine .seq (.require ?_) (ih others fun _ => rfl)
        rw [goes, byteSize_eq]

end Resolved

theorem Loads.resolveSteps (span : Span) (n : Nat) (steps : List Step) (size : Nat) (code : Code)
    (isSize : size = Ensures.stepsSize steps + n) {P : List Value → Prop} :
    Loads P (Compile.resolveSteps span size code steps) fun _ whole =>
      ∃ more, whole = code ++ more ∧ Resolved n steps more := by
  induction steps generalizing size code P with
  | nil => exact pure fun _ _ => ⟨#[], by rw [Array.append_empty], .nil⟩
  | cons step rest ih =>
    -- The distance to the place behind all steps shrinks by what is written.
    have left : size - step.size = Ensures.stepsSize rest + n := by
      rw [isSize, Ensures.stepsSize, map_cons, sum_cons, Nat.add_assoc]
      exact Nat.add_sub_cancel_left _ _
    cases step with
    | run i =>
      refine (ih _ _ left).imp fun values whole _ made => ?_
      obtain ⟨more, rfl, resolved⟩ := made
      exact ⟨#[i] ++ more, by simp, .run resolved⟩
    | require line =>
      refine (jump .whenFalse _ _ span).bind fun leave => (ih _ _ left).imp
        fun values whole given made => ?_
      obtain ⟨more, rfl, resolved⟩ := made
      obtain ⟨-, distance, rfl, goes⟩ := given
      refine ⟨_, Array.append_assoc, .require resolved ?_⟩
      rw [goes, resolved.byteSize]
      exact left

/-! ## Patterns -/

theorem chain_intOps (value : Int) (depth : Nat) :
    Chain Op.effect depth (intOps value) (depth + 1) := by
  unfold intOps
  split <;> exact .one (Nat.zero_le _) rfl

theorem Literal.chain (value : Literal) (depth : Nat) :
    Chain Op.effect depth value.ops (depth + 1) := by
  cases value with
  | bool value => cases value <;> exact .one (Nat.zero_le _) rfl
  | int n => exact chain_intOps _ depth
  | _ => exact .one (Nat.zero_le _) rfl

namespace Tested

/-- Where the value is found. -/
def subject : Tested → Subject
  | .held l => .slot l.slot
  | .element sequence index => .element sequence.slot index
  | .entry map key => .entry map.slot key

/-- The variable that the value is read from. -/
def source : Tested → Local
  | .held l => l
  | .element sequence _ => sequence
  | .entry map _ => map

theorem chain (tested : Tested) (live : List Local) : Chain Op.effect 0 (tested.ops live) 1 := by
  cases tested with
  | held l => exact .one (Nat.zero_le _) rfl
  | element sequence index =>
    have value : Chain Op.effect 0 [.get live sequence] 1 := .one (Nat.zero_le _) rfl
    exact (value.append (chain_intOps index 1)).append (.one (Nat.le_refl _) rfl)
  | entry map key =>
    have value : Chain Op.effect 0 [.get live map] 1 := .one (Nat.zero_le _) rfl
    exact (value.append (key.chain 1)).append (.one (Nat.le_refl _) rfl)

end Tested

namespace Builds

variable {env : Env} {P : World → Prop}
variable (tested : Tested) (pattern : Pattern) (mutable : Bool) (span : Span)

theorem loadSubject (isLive : ∀ W, P W → tested.source ∈ env.live) :
    Quiet env P (Compile.loadSubject tested.subject span) fun W code =>
      Forall₂ (Encoded W) (tested.ops env.live) code.instrs := by
  cases tested with
  | held l => exact getSlot span isLive
  | element sequence index =>
    refine (getSlot span isLive).step fun value => ?_
    refine load (Loads.loadInt index span) fun index => pure rfl fun W given => ?_
    simp only [instrs_append]
    exact rel_append (rel_append given.1.2 given.2.each) (.cons (.plain _) .nil)
  | entry map key =>
    refine (getSlot span isLive).step fun value => ?_
    refine load (Loads.loadLiteral key span) fun key => pure rfl fun W given => ?_
    simp only [instrs_append]
    exact rel_append (rel_append given.1.2 given.2.each) (.cons (.plain _) .nil)

theorem holdSubject_eq {γ : Type} (subject : Subject) (notHeld : ∀ slot, subject ≠ .slot slot)
    (span : Span) (f : Option (Nat × Code) → Compile γ) :
    Compile.holdSubject subject span >>= f = (do
      match ← Compile.declareHidden "pattern element" span with
      | none => f none
      | some slot =>
        let value ← Compile.loadSubject subject span
        let store ← Compile.indexed .setLocal slot span
        f (some (slot, value ++ store ++ Code.plain span .pop))) := by
  have cases (c : Compile (Option Nat)) (g : Nat → Compile (Option (Nat × Code))) :
      (c >>= fun slot => match slot with
        | none => Pure.pure none
        | some slot => g slot) >>= f = (c >>= fun slot => match slot with
        | none => f none
        | some slot => g slot >>= f) := by
    rw [bind_assoc]
    congr 1
    funext slot
    cases slot <;> rfl
  cases subject with
  | slot slot => exact (notHeld slot rfl).elim
  | element sequence index => exact cases _ _
  | entry map key => exact cases _ _

theorem hold_eq {δ : Type} (notHeld : ∀ l, tested ≠ .held l) (h : Local × List Op × Env → Gen δ) :
    Gen.hold env tested >>= h = (do
      let made ← Gen.declare env none
      h (made.1, tested.ops made.2.live ++ [.set made.2.live made.1, .plain .pop], made.2)) := by
  cases tested with
  | held l => exact (notHeld l rfl).elim
  | element sequence index => rfl
  | entry map key => rfl

theorem holdSubject_bind {γ δ : Type} {f : Option (Nat × Code) → Compile γ}
    {h : Local × List Op × Env → Gen δ} {after : δ → Env} {Q : World → γ → δ → Prop}
    (isLive : ∀ W, P W → tested.source ∈ env.live)
    (failed : ∀ s : CompileState, Failed s.issues → Failed (f none s).2.issues)
    (rest : ∀ (l : Local) (held : Code) (operations : List Op) (inner : Env),
      Builds inner (fun W => P W ∧ env.Extends inner ∧ l ∈ inner.live ∧
        TestOf W 0 0 (Check.ofOps operations) (Steps.ofCode held))
        (f (some (l.slot, held))) (h (l, operations, inner)) after Q) :
    Builds env P (Compile.holdSubject tested.subject span >>= f) (Gen.hold env tested >>= h) after
      Q := by
  -- A value that is not held yet is put into a hidden variable.
  have stored (tested : Tested) (isLive : ∀ W, P W → tested.source ∈ env.live) (l : Local)
      (inner : Env) : Builds inner (fun W => P W ∧ env.Extends inner ∧ l ∈ inner.live) (do
        let value ← Compile.loadSubject tested.subject span
        let store ← Compile.indexed .setLocal l.slot span
        f (some (l.slot, value ++ store ++ Code.plain span .pop)))
        (h (l, tested.ops inner.live ++ [.set inner.live l, .plain .pop], inner)) after Q := by
    refine (loadSubject tested span fun W given => given.2.1.live (isLive W given.1)).step
      fun value => ?_
    refine (setSlot span fun W given => given.1.2.2).step fun store => ?_
    refine (rest l _ _ inner).pre fun W given => ?_
    obtain ⟨⟨⟨isP, here, live⟩, isValue⟩, isStore⟩ := given
    refine ⟨isP, here, live, .ofOps ?_ ?_⟩
    · rw [instrs_append, instrs_append, List.append_assoc]
      exact rel_append isValue (rel_append isStore (.cons (.plain _) .nil))
    · exact (tested.chain inner.live).append (.append (.one (Nat.le_refl _) rfl)
        (.one (Nat.le_refl _) rfl) : Chain Op.effect 1 ([.set inner.live l] ++ [.plain .pop]) 0)
  cases tested with
  | held l =>
    refine (rest l #[] [] env).pre fun W given => ?_
    exact ⟨given, .refl env, isLive W given, .ofOps .nil rfl⟩
  | element sequence index =>
    rw [Tested.subject, holdSubject_eq (.element sequence.slot index) nofun span f,
      hold_eq (.element sequence index) nofun h]
    exact declareHidden_bind "pattern element" span failed (stored (.element sequence index) isLive)
  | entry map key =>
    rw [Tested.subject, holdSubject_eq (.entry map.slot key) nofun span f,
      hold_eq (.entry map key) nofun h]
    exact declareHidden_bind "pattern element" span failed (stored (.entry map key) isLive)

variable {l : Local}

theorem classCheck (fullName : String) (span : Span) (isLive : ∀ W, P W → l ∈ env.live) :
    Quiet env P (Compile.classCheck l.slot fullName span) fun W steps =>
      TestOf W 0 0 (classChecks env.live l fullName) steps := by
  refine (getSlot span isLive).step fun value => ?_
  refine load (Loads.getConst fullName span) fun expected => pure rfl fun W given => ?_
  refine .append (.ofOps ?_ ?_) (.need span)
  · simp only [instrs_append]
    exact rel_append (rel_append given.1.2 given.2.each) (.cons (.plain _) .nil)
  · exact ⟨Nat.zero_le _, 1, fun _ => rfl, Nat.zero_le _, 2, fun _ => rfl, Nat.le_refl _, 1,
      fun _ => rfl, rfl⟩

theorem lengthCheck (count : Nat) (hasRest : Bool) (span : Span)
    (isLive : ∀ W, P W → l ∈ env.live) :
    Quiet env P (Compile.lengthCheck l.slot count hasRest span) fun W steps =>
      TestOf W 0 0 (lengthChecks env.live l count hasRest) steps := by
  refine (getSlot span isLive).step fun value => ?_
  refine load (Loads.loadInt count span) fun expected => pure rfl fun W given => ?_
  refine .append (.ofOps ?_ ?_) (.need span)
  · simp only [instrs_append]
    have length := rel_append given.1.2 (.cons (.plain .length) .nil)
    exact rel_append (rel_append length given.2.each) (.cons (.plain _) .nil)
  · have length : Chain Op.effect 0 [.get env.live l, .plain .length] 1 :=
      ⟨Nat.zero_le _, 1, fun _ => rfl, Nat.le_refl _, 1, fun _ => rfl, rfl⟩
    exact (length.append (chain_intOps count 1)).append (.one (Nat.le_refl _) rfl)

theorem keyCheck (key : Literal) (span : Span) (isLive : ∀ W, P W → l ∈ env.live) :
    Quiet env P (Compile.keyCheck l.slot key span) fun W steps =>
      TestOf W 0 0 (keyChecks env.live l key) steps := by
  refine (getSlot span isLive).step fun value => ?_
  refine load (Loads.loadLiteral key span) fun expected => pure rfl fun W given => ?_
  refine .append (.ofOps ?_ ?_) (.need span)
  · simp only [instrs_append]
    exact rel_append (rel_append given.1.2 given.2.each) (.cons (.plain _) .nil)
  · have value : Chain Op.effect 0 [.get env.live l] 1 := .one (Nat.zero_le _) rfl
    exact (value.append (key.chain 1)).append (.one (Nat.le_refl _) rfl)

theorem bindRest (leading trailing : Nat) (rest : Option Rest) (mutable : Bool) (span : Span)
    (isLive : ∀ W, P W → l ∈ env.live) :
    Builds env P (Compile.bindRest l.slot leading trailing rest mutable span)
      (Gen.bindRest env l leading trailing rest) Prod.snd fun W code made =>
        TestOf W 0 0 (Check.ofOps made.1) (Steps.ofCode code) := by
  unfold Compile.bindRest Gen.bindRest
  cases rest.bind Rest.binding with
  | none => exact pure rfl fun _ _ => .ofOps .nil rfl
  | some name =>
    dsimp only
    split
    · rename_i fits
      refine (getSlot span isLive).step fun value => ?_
      refine (bindLocal name mutable span).bind fun store made => pure rfl fun W given => ?_
      obtain ⟨⟨-, isValue⟩, -, isStore, chain⟩ := given
      refine .ofOps ?_ ?_
      · simp only [instrs_append]
        have cut : Encoded W (.slice leading trailing)
            (.slice (UInt8.ofNat leading) (UInt8.ofNat trailing)) :=
          .slice (UInt8.toNat_ofNat_of_lt' fits.1) (UInt8.toNat_ofNat_of_lt' fits.2)
        exact rel_append (rel_append isValue (.cons cut .nil)) isStore
      · have value : Chain Op.effect 0 [.get env.live l, .slice leading trailing] 1 :=
          ⟨Nat.zero_le _, 1, fun _ => rfl, Nat.le_refl _, 1, fun _ => rfl, rfl⟩
        exact value.append chain
    · exact fail fun _ before => before

mutual

/-- **The steps of a pattern are the parts of its test.** -/
theorem patternSteps (mutable : Bool) : ∀ (pattern : Pattern) (tested : Tested) {env : Env}
    {P : World → Prop}, (∀ W, P W → tested.source ∈ env.live) →
    Builds env P (Compile.patternSteps mutable pattern tested.subject) (pattern.checks env tested)
      Prod.snd fun W steps made => TestOf W 0 0 made.1 steps
  | .wildcard _, _, _, _, _ => pure rfl fun _ _ => .nil
  | .binding span name, tested, env, P, isLive => by
    refine (loadSubject tested span isLive).step fun value => ?_
    refine (bindLocal name mutable span).bind fun store made => pure rfl fun W given => ?_
    obtain ⟨⟨-, isValue⟩, -, isStore, chain⟩ := given
    refine .ofOps ?_ ((tested.chain env.live).append chain)
    rw [instrs_append]
    exact rel_append isValue isStore
  | .literal span value, tested, env, P, isLive => by
    refine (loadSubject tested span isLive).step fun found => ?_
    refine load (Loads.loadLiteral value span) fun expected => pure rfl fun W given => ?_
    refine .append (.ofOps ?_ ?_) (.need span)
    · simp only [instrs_append]
      exact rel_append (rel_append given.1.2 given.2.each) (.cons (.plain _) .nil)
    · exact ((tested.chain env.live).append (value.chain 1)).append (.one (Nat.le_refl _) rfl)
  | .sequence span kind elements rest, tested, env, P, isLive => by
    refine holdSubject_bind tested span isLive (fun _ before =>
      before) fun l held operations inner => ?_
    refine (classCheck _ span fun W given => given.2.2.1).step fun isSequence => ?_
    refine (lengthCheck _ _ span fun W given => given.1.2.2.1).step fun hasLength => ?_
    refine (elementSteps mutable l _ _ 0 _ elements fun W given => given.1.1.2.2.1).bind
      fun steps made => ?_
    refine (bindRest _ _ rest mutable span fun W given => ?_).bind fun tail last => pure rfl
      fun W given => ?_
    · exact given.2.1.live given.1.1.1.2.2.1
    · obtain ⟨⟨⟨⟨⟨-, -, -, isHeld⟩, isClass⟩, isLength⟩, -, more, rfl, inside⟩, -, isTail⟩ := given
      exact (((isHeld.append isClass).append isLength).append inside).append isTail
  | .map span entries, tested, env, P, isLive => by
    refine holdSubject_bind tested span isLive (fun _ before =>
      before) fun l held operations inner => ?_
    refine (classCheck _ span fun W given => given.2.2.1).step fun isMap => ?_
    refine (entrySteps mutable l _ entries fun W given => given.1.2.2.1).gen_map (fun _ => rfl)
      fun W steps made given _ inside => ?_
    obtain ⟨more, rfl, inside⟩ := inside
    exact (given.1.2.2.2.append given.2).append inside

theorem elementSteps (mutable : Bool) (l : Local) (leading count : Nat) :
    ∀ (position : Nat) (steps : Steps) (elements : List Pattern) {env : Env} {P : World → Prop},
    (∀ W, P W → l ∈ env.live) →
    Builds env P (Compile.elementSteps mutable l.slot leading count position steps elements)
      (Pattern.elementChecks env l leading count position elements) Prod.snd fun W whole made =>
        ∃ more, whole = steps ++ more ∧ TestOf W 0 0 made.1 more
  | _, steps, [], _, _, _ => pure rfl fun _ _ => ⟨#[], by rw [Array.append_empty], .nil⟩
  | position, steps, element :: rest, env, P, isLive => by
    refine (patternSteps mutable element (.element l _) isLive).bind fun more made => ?_
    refine (elementSteps mutable l leading count (position + 1) _ rest fun W given =>
      given.2.1.live (isLive W given.1)).gen_map (fun _ => rfl) fun W whole others given _ inside =>
        ?_
    obtain ⟨last, rfl, inside⟩ := inside
    exact ⟨more ++ last, Array.append_assoc, given.2.2.append inside⟩

theorem entrySteps (mutable : Bool) (l : Local) :
    ∀ (steps : Steps) (entries : List (Literal × Pattern)) {env : Env} {P : World → Prop},
    (∀ W, P W → l ∈ env.live) →
    Builds env P (Compile.entrySteps mutable l.slot steps entries)
      (Pattern.entryChecks env l entries)
      Prod.snd fun W whole made => ∃ more, whole = steps ++ more ∧ TestOf W 0 0 made.1 more
  | steps, [], _, _, _ => pure rfl fun _ _ => ⟨#[], by rw [Array.append_empty], .nil⟩
  | steps, (key, pattern) :: rest, env, P, isLive => by
    refine (keyCheck key pattern.span isLive).step fun hasKey => ?_
    refine (patternSteps mutable pattern (.entry l key) fun W given => isLive W given.1).bind
      fun more made => ?_
    refine (entrySteps mutable l _ rest fun W given =>
      given.2.1.live (isLive W given.1.1)).gen_map
        (fun _ => rfl) fun W whole others given _ inside => ?_
    obtain ⟨last, rfl, inside⟩ := inside
    refine ⟨hasKey ++ more ++ last, by simp only [Array.append_assoc], ?_⟩
    exact (given.1.2.append given.2.2).append inside

end

/-- **A pattern is compiled to its test.** -/
theorem patternTest (isLive : ∀ W, P W → l ∈ env.live) :
    Builds env P (Compile.patternTest pattern l.slot mutable) (pattern.flow env l) Prod.snd
      fun W code made => Coded W 0 1 made.1 code := by
  refine (patternSteps mutable pattern (.held l) isLive).bind fun steps made => ?_
  obtain ⟨checks, inner⟩ := made
  have total : steps.foldl (fun n step => n + step.size) 0 = Ensures.stepsSize steps.toList := by
    rw [← Array.foldl_toList, Ensures.stepsSize, ← foldl_map (f := Step.size) (g := (· + ·)),
      sum_eq_foldl]
  dsimp only
  rw [total]
  refine load (Loads.resolveSteps pattern.span 4 steps.toList _ #[] rfl) fun code => ?_
  let span := pattern.span
  have isTrue (W : World) : Coded W 0 1 (.ops [.plain .pushTrue]) (Code.plain span .pushTrue) :=
    .one (.plain _) span (.one (Nat.le_refl _) rfl)
  have isFalse (W : World) : Coded W 0 1 (.ops [.plain .pushFalse]) (Code.plain span .pushFalse) :=
    .one (.plain _) span (.one (Nat.le_refl _) rfl)
  split
  · rename_i checked
    refine load (Loads.jump .always 1 span span) fun skip => pure rfl fun W given => ?_
    obtain ⟨⟨⟨-, -, test⟩, more, rfl, resolved⟩, leave, rfl, goes⟩ := given
    rw [test.any_canFail] at checked
    show Coded W 0 1 (Flow.test checks) _
    rw [Flow.test, if_pos checked, Array.empty_append]
    refine ⟨fun n => ?_, fun failed depth => .attempt
      (.seq (test.balanced.typed fun _ => rfl) ((isTrue W).typed depth depth))
      ((isFalse W).typed _ depth)⟩
    -- Checks go on behind what pushes true and the jump over what pushes false.
    have first := resolved.codes test.each fun _ => rfl
    have whole := Codes.attempt (.seq first ((isTrue W).codes 3)) ((isFalse W).codes n) goes
    simp only [instrs_append, instrs_one, List.append_assoc, cons_append,
      nil_append] at whole ⊢
    exact whole
  · rename_i unchecked
    refine pure rfl fun W given => ?_
    obtain ⟨⟨-, -, test⟩, more, rfl, resolved⟩ := given
    rw [test.any_canFail, Bool.not_eq_true] at unchecked
    show Coded W 0 1 (Flow.test checks) _
    rw [Flow.test, unchecked, Array.empty_append]
    have never {p : Prop} (checked : checks.any Check.canFail = true) : p := by
      rw [unchecked] at checked
      cases checked
    refine ⟨fun n => ?_, fun failed depth =>
      .seq (test.balanced.typed never) ((isTrue W).typed failed depth)⟩
    rw [instrs_append]
    exact .seq (resolved.codes test.each never) ((isTrue W).codes n)

/-- A value is taken apart by code that stands behind the code that pushes it. -/
def takeApartBehind (pattern : Pattern) (mutable : Bool) (span : Span) (value : Code) :
    Compile Code := do
  match ← Compile.declareHidden "pattern subject" span with
  | none => return value ++ Code.plain span .pop
  | some slot =>
    let store ← Compile.indexed .setLocal slot span
    let test ← Compile.patternTest pattern slot mutable
    let error ← Compile.getConst patternErrorName span
    let message ← Compile.loadValue (.string (Compile.mismatchMessage mutable)) span
    let throw := error ++ message ++ Code.one span (.instantiate 1) ++ Code.plain span .raise
    let matched ← Compile.jump .whenTrue throw.byteSize span span
    return value ++ store ++ Code.plain span .pop ++ test ++ matched ++ throw

theorem patternDeclaration_eq (value : Compile Code) :
    Compile.patternDeclaration pattern mutable span value =
      value >>= takeApartBehind pattern mutable span :=
  rfl

theorem takeApart (value : Code) (flow : Flow Op) :
    Builds env P (takeApartBehind pattern mutable span value)
      (Gen.takeApart env pattern mutable flow) Prod.snd fun W code made =>
        ∃ stored tested thrown store test throw, code = value ++ stored ++ tested ++ thrown ∧
          made.1 = flow ++ store ++ test ++ throw ∧ Coded W 1 0 store stored ∧
            Coded W 0 1 test tested ∧ Coded W 1 0 throw thrown := by
  refine declareHidden_bind "pattern subject" span (fun _ before => before) fun l inner => ?_
  refine (setSlot span fun W given => given.2.2).step fun store => ?_
  refine (patternTest pattern mutable fun W given => given.1.2.2).bind fun test made => ?_
  refine load (Loads.getConst patternErrorName span) fun error => ?_
  refine load (Loads.loadValue rfl span) fun message => ?_
  refine load (Loads.jump .whenTrue _ span span) fun matched => pure rfl fun W given => ?_
  obtain ⟨⟨⟨⟨⟨-, isStore⟩, -, isTest⟩, isError⟩, isMessage⟩, past, rfl, goes⟩ := given
  have stored : Coded W 1 0 (.ops [.set inner.live l, .plain .pop])
      (store ++ Code.plain span .pop) := by
    refine .ops ?_ ⟨Nat.le_refl _, 1, fun _ => rfl, Nat.le_refl _, 0, fun _ => rfl, rfl⟩
    rw [instrs_append]
    exact rel_append isStore (.cons (.plain _) .nil)
  have thrown : Coded W 0 0 (.ops [.constant (some patternErrorName),
      .value (.string (Compile.mismatchMessage mutable)), .instantiate 1, .plain .raise])
      (error ++ message ++ Code.one span (.instantiate 1) ++ Code.plain span .raise) := by
    refine .ops ?_ ⟨Nat.zero_le _, 1, fun _ => rfl, Nat.zero_le _, 2, fun _ =>
      rfl, Nat.le_refl _, 1,
      fun _ => rfl, Nat.le_refl _, 0, nofun, rfl⟩
    simp only [instrs_append]
    have one : Encoded W (.instantiate 1) (.instantiate 1) := .instantiate rfl
    have made := rel_append isError.each isMessage.each
    exact rel_append (rel_append made (.cons one .nil)) (.cons (.plain _) .nil)
  have skipped : Coded W 1 0 _ _ := Coded.skip .whenTrue nofun rfl span thrown goes
  refine ⟨_, test, _, _, made.1, _, ?_, rfl, stored, isTest, skipped⟩
  simp only [Array.append_assoc]

theorem patternDeclaration {value : Compile Code} {g : Gen (Flow Op)}
    (isValue : Pushes 1 env value g) :
    Runs 0 env (Compile.patternDeclaration pattern mutable span value) (do
      let value ← g
      Gen.takeApart env pattern mutable value) := by
  rw [patternDeclaration_eq]
  refine fun P => (isValue P).seq fun value flow => ?_
  refine (takeApart pattern mutable span value flow).imp fun W code made given apart => ?_
  obtain ⟨stored, tested, thrown, store, test, throw, rfl, isFlow, isStore, isTest, isThrow⟩ :=
    apart
  rw [isFlow]
  exact ((given.2.append isStore).append isTest).append isThrow

end Builds

end StackCode
