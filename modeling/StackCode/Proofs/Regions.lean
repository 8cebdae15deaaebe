import StackCode.Proofs.StackDepth

/-!
# The scopes of a flow

A scope is a stretch of code: that of its block, and that of its ending. Where it stands is read off
the flow, because what an operation is written as is one instruction. What stands before the
declaration of a variable has nothing to do with it, so a block may have to be cut in two there
(`Flow.Splits`), and each part has code of its own.
-/

namespace StackCode

open List

/-- A scope of a flow. -/
structure Region (α : Type) where
  /-- How many instructions stand before it. -/
  first : Nat
  /-- What would close all variables of the scope, in the order of their declarations. -/
  closings : List α
  block : Flow α
  ending : List α

namespace Flow

variable {α : Type}

/-- What each instruction of a flow writes: an operation, or none if it jumps. -/
def written : Flow α → List (Option α)
  | ops operations => operations.map some
  | seq first second => first.written ++ second.written
  | require => [none]
  | skip _ body => none :: body.written
  | choose yes no => none :: (yes.written ++ none :: no.written)
  | loop condition body => condition.written ++ none :: (body.written ++ [none])
  | attempt checks otherwise => checks.written ++ none :: otherwise.written
  | scope _ block ending => block.written ++ ending.map some

/-- The scopes of a flow that stands behind some instructions. -/
def regions (first : Nat) : Flow α → List (Region α)
  | ops _ => []
  | seq a b => a.regions first ++ b.regions (first + a.written.length)
  | require => []
  | skip _ body => body.regions (first + 1)
  | choose yes no => yes.regions (first + 1) ++ no.regions (first + 1 + yes.written.length + 1)
  | loop condition body =>
    condition.regions first ++ body.regions (first + condition.written.length + 1)
  | attempt checks otherwise =>
    checks.regions first ++ otherwise.regions (first + checks.written.length + 1)
  | scope closings block ending => ⟨first, closings, block, ending⟩ :: block.regions first

/-- Checks that fail go on inside the flow. -/
def Guarded : Flow α → Prop
  | ops _ => True
  | seq first second => first.Guarded ∧ second.Guarded
  | require => False
  | skip _ body => body.Guarded
  | choose yes no => yes.Guarded ∧ no.Guarded
  | loop condition body => condition.Guarded ∧ body.Guarded
  | attempt _ otherwise => otherwise.Guarded
  | scope _ block _ => block.Guarded

/-- A flow is one flow behind another. -/
inductive Splits : Flow α → Flow α → Flow α → Prop where
  | start (flow : Flow α) : Splits flow (.ops []) flow
  | stop (flow : Flow α) : Splits flow flow (.ops [])
  | left {a b first second : Flow α} (splits : Splits a first second) :
      Splits (.seq a b) first (.seq second b)
  | right {a b first second : Flow α} (splits : Splits b first second) :
      Splits (.seq a b) (.seq a first) second

theorem mem_written {flow : Flow α} {a : α} : some a ∈ flow.written ↔ a ∈ flow.operations := by
  induction flow with
  | ops list => simp [written]
  | require => simp [written, operations]
  | _ => simp_all [written, operations]

theorem Splits.written_eq {flow first second : Flow α} (splits : Splits flow first second) :
    flow.written = first.written ++ second.written := by
  induction splits with
  | start flow => rfl
  | stop flow => exact (append_nil _).symm
  | left _ ih => rw [written, ih, List.append_assoc]; rfl
  | right _ ih => rw [written, ih, ← List.append_assoc]; rfl

theorem Splits.guarded {flow first second : Flow α} (splits : Splits flow first second)
    (guarded : flow.Guarded) : second.Guarded := by
  induction splits with
  | start flow => exact guarded
  | stop flow => trivial
  | left _ ih => exact ⟨ih guarded.1, guarded.2⟩
  | right _ ih => exact ih guarded.2

end Flow

/-! ## Where jumps go -/

theorem Instr.mem_successors {i : Instr} {place next : Int} (goes : next ∈ i.successors place) :
    next = place + i.size ∨ i.target? place = some next := by
  cases i with
  | jump kind distance =>
    rcases mem_append.1 goes with falls | jumps
    · split at falls
      · exact .inl (mem_singleton.1 falls)
      · cases falls
    · exact .inr (Option.mem_toList.1 jumps)
  | _ =>
    simp only [successors] at goes
    split at goes
    · cases goes
    · exact .inl (mem_singleton.1 goes)

theorem mem_targets {place next : Int} {before after : List Instr} {i : Instr}
    (goes : i.target? (place + codeSize before) = some next) :
    next ∈ targets place (before ++ i :: after) := by
  rw [targets_append, targets, goes]
  simp

theorem targets_straight {instrs : List Instr} (straight : ∀ i ∈ instrs, i.isJump = false)
    (place : Int) : targets place instrs = [] := by
  induction instrs generalizing place with
  | nil => rfl
  | cons i rest ih =>
    have none : i.target? place = none := by
      have := straight i mem_cons_self
      cases i <;> first | rfl | cases this
    rw [targets, none, ih fun j member => straight j (mem_cons_of_mem i member)]
    rfl

theorem JumpKind.target_forward {kind : JumpKind} (forward : kind ≠ .back) (place : Int)
    (distance : UInt16) :
    (Instr.jump kind distance).target? place = some (place + 3 + distance.toNat) := by
  cases kind <;> first | rfl | exact absurd rfl forward

namespace Codes

variable {α : Type} {Writes : α → Instr → Prop} {n : Nat} {flow : Flow α} {instrs : List Instr}

theorem size_pos_of_ends {a : Flow α} (codes : Codes Writes n flow instrs)
    (ends : (Flow.seq a flow).Ends) : 0 < codeSize instrs ∧ flow.Ends := by
  cases codes with
  | ops each =>
    cases each with
    | nil => exact absurd rfl ends
    | @cons _ i _ _ _ _ => exact ⟨Nat.add_pos_left i.size_pos _, trivial⟩
  | _ => exact ends.elim

/-- **The jumps of a flow go to its instructions**, but for those of checks outside of attempts. If
its last thing is an operation, none goes behind that. -/
theorem targets_land (noJumps : ∀ a i, Writes a i → i.isJump = false)
    (codes : Codes Writes n flow instrs) {place next : Int} (goes : next ∈ targets place instrs) :
    next ∈ cuts place instrs ∧ (flow.Ends → next < place + codeSize instrs) ∨
      next = place + codeSize instrs + n ∧ ¬flow.Guarded := by
  induction codes generalizing place with
  | @ops _ _ instrs each =>
    have straight : ∀ i ∈ instrs, i.isJump = false := by
      intro i member
      obtain ⟨a, -, writes⟩ := exists_of_forall₂ each member
      exact noJumps a i writes
    rw [targets_straight straight] at goes
    cases goes
  | seq _ isSecond first second =>
    rw [targets_append] at goes
    simp only [codeSize_append, Flow.Guarded, mem_cuts_append]
    rcases mem_append.1 goes with goes | goes
    · rcases first goes with ⟨cut, -⟩ | ⟨rfl, free⟩
      · refine .inl ⟨.inl cut, fun ends => ?_⟩
        have := isSecond.size_pos_of_ends ends
        have := cuts_bounds cut
        omega
      · exact .inr ⟨by push_cast; omega, fun guarded => free guarded.1⟩
    · rcases second goes with ⟨cut, before⟩ | ⟨rfl, free⟩
      · refine .inl ⟨.inr cut, fun ends => ?_⟩
        have := before (isSecond.size_pos_of_ends ends).2
        push_cast
        omega
      · exact .inr ⟨by push_cast; omega, fun guarded => free guarded.2⟩
  | require isN =>
    subst isN
    have := mem_singleton.1 goes
    refine .inr ⟨?_, id⟩
    rw [this]
    rfl
  | @skip _ _ _ bodies _ forward _ distance ih =>
    rw [targets, JumpKind.target_forward forward] at goes
    have last := mem_cuts_end (place + 3) bodies
    simp only [codeSize_cons, Instr.size_jump, Flow.Guarded, cuts] at *
    grind [Flow.Ends]
  | @choose _ _ _ yeses noes _ _ _ _ pastGoes leaveGoes yes no =>
    rw [targets, JumpKind.target_forward (by decide), targets_append, targets,
      JumpKind.target_forward (by decide)] at goes
    have between := mem_cuts_self (place + 3 + codeSize yeses + 3) noes
    have last := mem_cuts_end (place + 3 + codeSize yeses + 3) noes
    simp only [codeSize_cons, codeSize_append, Instr.size_jump, Flow.Guarded, cuts,
      mem_cuts_append, mem_cons, mem_append, Option.mem_toList, Option.some.injEq] at *
    grind [Flow.Ends]
  | @loop _ _ _ conditions bodies _ _ _ _ leaveGoes backGoes condition body =>
    have start := mem_cuts_self place conditions
    rw [targets_append, targets, JumpKind.target_forward (by decide), targets_append,
      targets] at goes
    simp only [codeSize_cons, codeSize_append, codeSize_nil, Instr.size_jump, Flow.Guarded, cuts,
      mem_cuts_append, Instr.target?, targets, mem_cons, mem_append, Option.mem_toList,
      Option.some.injEq] at *
    grind [Flow.Ends]
  | @attempt _ _ _ checked instead _ _ _ leaveGoes checks otherwise =>
    have between := mem_cuts_self (place + codeSize checked + 3) instead
    have last := mem_cuts_end (place + codeSize checked + 3) instead
    rw [targets_append, targets, JumpKind.target_forward (by decide)] at goes
    simp only [codeSize_cons, codeSize_append, Instr.size_jump, Flow.Guarded, cuts,
      mem_cuts_append, mem_cons, mem_append, Option.mem_toList, Option.some.injEq] at *
    grind [Flow.Ends]
  | scope _ inside =>
    rcases inside goes with ⟨cut, -⟩ | ⟨rfl, free⟩
    · exact .inl ⟨cut, fun never => never.elim⟩
    · exact .inr ⟨rfl, fun guarded => free ⟨guarded, trivial⟩⟩

/-! ## Code of parts -/

theorem writes (codes : Codes Writes n flow instrs) :
    Forall₂ (fun written i => ∀ a, written = some a → Writes a i) flow.written instrs := by
  have jumps (i : Instr) : ∀ a, none = some a → Writes a i := nofun
  induction codes with
  | ops each =>
    rw [Flow.written, forall₂_map_left_iff]
    exact each.imp fun a i writes b same => Option.some.inj same ▸ writes
  | seq _ _ first second => exact rel_append first second
  | require goes => exact .cons (jumps _) .nil
  | skip _ _ _ body => exact .cons (jumps _) body
  | choose _ _ _ _ yes no => exact .cons (jumps _) (rel_append yes (.cons (jumps _) no))
  | loop _ _ _ _ condition body =>
    exact rel_append condition (.cons (jumps _) (rel_append body (.cons (jumps _) .nil)))
  | attempt _ _ _ checks otherwise =>
    exact rel_append checks (.cons (jumps _) otherwise)
  | scope _ inside => exact inside

theorem length_eq (codes : Codes Writes n flow instrs) : flow.written.length = instrs.length :=
  codes.writes.length_eq

/-- The code of a scope stands in some code, whose first instruction has the place `first`. -/
def Holds (Writes : α → Instr → Prop) (r : Region α) (first : Nat) (instrs : List Instr) : Prop :=
  ∃ before inside after m, instrs = before ++ inside ++ after ∧
    r.first = first + before.length ∧ Codes Writes m (.seq r.block (.ops r.ending)) inside

theorem Holds.within {r : Region α} {first next : Nat} {part whole : List Instr}
    (holds : Holds Writes r next part) (a b : List Instr) (place : next = first + a.length)
    (isWhole : whole = a ++ part ++ b) : Holds Writes r first whole := by
  obtain ⟨before, inside, after, m, rfl, start, codes⟩ := holds
  refine ⟨a ++ before, inside, after ++ b, m, by simp [isWhole], ?_, codes⟩
  rw [start, place, length_append, Nat.add_assoc]

/-- **Each scope of a flow has code of its own.** -/
theorem region (codes : Codes Writes n flow instrs) {first : Nat} {r : Region α}
    (member : r ∈ flow.regions first) : Holds Writes r first instrs := by
  induction codes generalizing first with
  | ops _ => cases member
  | @seq n a b firsts seconds isFirst _ inFirst inSecond =>
    rcases mem_append.1 member with member | member
    · exact (inFirst member).within [] seconds rfl rfl
    · exact (inSecond member).within firsts [] (by rw [isFirst.length_eq]) (by simp)
  | require _ => cases member
  | @skip n kind body bodies distance _ _ _ inBody =>
    exact (inBody member).within [.jump kind distance] [] rfl (by simp)
  | @choose n yes no yeses noes past leave isYes _ _ _ inYes inNo =>
    rcases mem_append.1 member with member | member
    · exact (inYes member).within [.jump .whenFalse past] (.jump .always leave :: noes) rfl rfl
    · refine (inNo member).within (.jump .whenFalse past :: (yeses ++ [.jump .always leave])) [] ?_
        (by simp)
      simp [isYes.length_eq]
      omega
  | @loop n condition body conditions bodies leave back isCondition _ _ _ inCondition inBody =>
    rcases mem_append.1 member with member | member
    · exact (inCondition member).within [] _ rfl rfl
    · refine (inBody member).within (conditions ++ [.jump .whenFalse leave]) [.jump .back back] ?_
        (by simp)
      simp [isCondition.length_eq, Nat.add_assoc]
  | @attempt n checks otherwise checked instead leave isChecks _ _ inChecks inOtherwise =>
    rcases mem_append.1 member with member | member
    · exact (inChecks member).within [] _ rfl rfl
    · refine (inOtherwise member).within (checked ++ [.jump .always leave]) [] ?_ (by simp)
      simp [isChecks.length_eq, Nat.add_assoc]
  | @scope n closings ending block instrs isInside inside =>
    rcases mem_cons.1 member with rfl | deeper
    · exact ⟨[], instrs, [], n, by simp, rfl, isInside⟩
    · exact inside (mem_append.2 (.inl deeper))

theorem split {a b : Flow α} (codes : Codes Writes n flow instrs) (splits : flow.Splits a b) :
    ∃ firsts seconds, instrs = firsts ++ seconds ∧ Codes Writes (codeSize seconds + n) a firsts ∧
      Codes Writes n b seconds := by
  induction splits generalizing n instrs with
  | start flow => exact ⟨[], instrs, rfl, .ops .nil, codes⟩
  | stop flow =>
    refine ⟨instrs, [], by simp, ?_, .ops .nil⟩
    rwa [codeSize_nil, Nat.zero_add]
  | left _ ih =>
    cases codes with
    | @seq _ _ _ firsts seconds isFirst isSecond =>
      obtain ⟨front, rear, rfl, isFront, isRear⟩ := ih isFirst
      refine ⟨front, rear ++ seconds, by simp, ?_, .seq isRear isSecond⟩
      rwa [codeSize_append, Nat.add_assoc]
  | right _ ih =>
    cases codes with
    | @seq _ _ _ firsts seconds isFirst isSecond =>
      obtain ⟨front, rear, rfl, isFront, isRear⟩ := ih isSecond
      refine ⟨firsts ++ front, rear, by simp, .seq ?_ isFront, isRear⟩
      rwa [codeSize_append, Nat.add_assoc] at isFirst

end Codes

end StackCode
