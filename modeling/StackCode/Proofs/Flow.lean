import Mathlib.Data.List.Forall2
import StackCode.Proofs.Jumps

/-!
# Structured code

Code is made from straight pieces by a few constructions that jump. A part may be marked as a scope,
which shows in what is known of it and not in its code. A `Flow` says which constructions were used
and leaves open how each operation is written; `Codes` relates it to the instructions it is written
as, whose jumps go as far as the sizes of what they pass over.
-/

namespace StackCode

open List

/-- Code without distances. -/
inductive Flow (α : Type) where
  /-- Operations, one behind the other. -/
  | ops (operations : List α)
  | seq (first second : Flow α)
  /-- Goes on where the checks around it fail, if the popped value is falsy. -/
  | require
  | skip (kind : JumpKind) (body : Flow α)
  /-- One of two branches, by a popped value. -/
  | choose (yes no : Flow α)
  | loop (condition body : Flow α)
  /-- Checks, and what is done instead when one of them fails. -/
  | attempt (checks otherwise : Flow α)
  /-- A part with an ending of its own, which undoes some of what the part began. All that would
  undo it is listed as its closings. -/
  | scope (closings : List α) (block : Flow α) (ending : List α)

namespace Flow

variable {α : Type}

instance : Append (Flow α) := ⟨.seq⟩

theorem append_def (a b : Flow α) : a ++ b = .seq a b := rfl

/-- The operations of a flow, in order. -/
def operations : Flow α → List α
  | ops operations => operations
  | seq first second => first.operations ++ second.operations
  | require => []
  | skip _ body => body.operations
  | choose yes no => yes.operations ++ no.operations
  | loop condition body => condition.operations ++ body.operations
  | attempt checks otherwise => checks.operations ++ otherwise.operations
  | scope _ block ending => block.operations ++ ending

/-- The last thing of a flow is an operation that no jump passes over. -/
def Ends : Flow α → Prop
  | ops _ => True
  | seq _ (ops operations) => operations ≠ []
  | _ => False

@[simp] theorem operations_ops (operations : List α) :
    (ops operations).operations = operations := rfl

@[simp] theorem operations_append (a b : Flow α) :
    (a ++ b).operations = a.operations ++ b.operations := rfl

end Flow

/-- Some instructions are the code of a flow, each operation written as `Writes` says. Checks that
fail go on `n` bytes behind the code. -/
inductive Codes {α : Type} (Writes : α → Instr → Prop) : Nat → Flow α → List Instr → Prop where
  | ops {n : Nat} {operations : List α} {instrs : List Instr}
      (each : List.Forall₂ Writes operations instrs) : Codes Writes n (.ops operations) instrs
  | seq {n : Nat} {first second : Flow α} {firsts seconds : List Instr}
      (isFirst : Codes Writes (codeSize seconds + n) first firsts)
      (isSecond : Codes Writes n second seconds) :
      Codes Writes n (.seq first second) (firsts ++ seconds)
  | require {n : Nat} {distance : UInt16} (goes : distance.toNat = n) :
      Codes Writes n .require [.jump .whenFalse distance]
  | skip {n : Nat} {kind : JumpKind} {body : Flow α} {bodies : List Instr} {distance : UInt16}
      (forward : kind ≠ .back) (isBody : Codes Writes n body bodies)
      (goes : distance.toNat = codeSize bodies) :
      Codes Writes n (.skip kind body) (.jump kind distance :: bodies)
  | choose {n : Nat} {yes no : Flow α} {yeses noes : List Instr} {past leave : UInt16}
      (isYes : Codes Writes (3 + codeSize noes + n) yes yeses) (isNo : Codes Writes n no noes)
      (pastGoes : past.toNat = codeSize yeses + 3) (leaveGoes : leave.toNat = codeSize noes) :
      Codes Writes n (.choose yes no)
        (.jump .whenFalse past :: (yeses ++ .jump .always leave :: noes))
  | loop {n : Nat} {condition body : Flow α} {conditions bodies : List Instr} {leave back : UInt16}
      (isCondition : Codes Writes (codeSize bodies + 6 + n) condition conditions)
      (isBody : Codes Writes (3 + n) body bodies) (leaveGoes : leave.toNat = codeSize bodies + 3)
      (backGoes : back.toNat = codeSize conditions + codeSize bodies + 6) :
      Codes Writes n (.loop condition body)
        (conditions ++ .jump .whenFalse leave :: (bodies ++ [.jump .back back]))
  | attempt {n : Nat} {checks otherwise : Flow α} {checked instead : List Instr} {leave : UInt16}
      (isChecks : Codes Writes 3 checks checked) (isOtherwise : Codes Writes n otherwise instead)
      (leaveGoes : leave.toNat = codeSize instead) :
      Codes Writes n (.attempt checks otherwise) (checked ++ .jump .always leave :: instead)
  | scope {n : Nat} {closings ending : List α} {block : Flow α} {instrs : List Instr}
      (inside : Codes Writes n (.seq block (.ops ending)) instrs) :
      Codes Writes n (.scope closings block ending) instrs

namespace Codes

variable {α : Type} {Writes Writes' : α → Instr → Prop} {n : Nat} {flow : Flow α}
  {instrs : List Instr}

theorem mono (weaker : ∀ a i, Writes a i → Writes' a i) (codes : Codes Writes n flow instrs) :
    Codes Writes' n flow instrs := by
  induction codes with
  | ops each => exact .ops (each.imp weaker)
  | seq _ _ first second => exact .seq first second
  | require goes => exact .require goes
  | skip forward _ goes body => exact .skip forward body goes
  | choose _ _ pastGoes leaveGoes yes no => exact .choose yes no pastGoes leaveGoes
  | loop _ _ leaveGoes backGoes condition body => exact .loop condition body leaveGoes backGoes
  | attempt _ _ leaveGoes checks otherwise => exact .attempt checks otherwise leaveGoes
  | scope _ inside => exact .scope inside

end Codes

theorem exists_of_forall₂ {α β : Type} {R : α → β → Prop} {as : List α} {bs : List β}
    (related : Forall₂ R as bs) {b : β} (member : b ∈ bs) : ∃ a ∈ as, R a b := by
  induction related with
  | nil => cases member
  | cons first _ ih =>
    rcases mem_cons.1 member with rfl | later
    · exact ⟨_, mem_cons_self, first⟩
    · obtain ⟨a, inside, holds⟩ := ih later
      exact ⟨a, mem_cons_of_mem _ inside, holds⟩

/-- Whether an instruction is a jump. -/
def Instr.isJump : Instr → Bool
  | .jump _ _ => true
  | _ => false

namespace Codes

variable {α : Type} {Writes : α → Instr → Prop} {n : Nat} {flow : Flow α} {instrs : List Instr}

theorem straight (noJumps : ∀ a i, Writes a i → i.isJump = false)
    (codes : Codes Writes n flow instrs) :
    Forall₂ Writes flow.operations (instrs.filter fun i => !i.isJump) := by
  induction codes with
  | @ops n operations instrs each =>
    have kept : instrs.filter (fun i => !i.isJump) = instrs := by
      rw [filter_eq_self]
      intro i member
      obtain ⟨a, -, writes⟩ := exists_of_forall₂ each member
      simp [noJumps a i writes]
    rw [kept]
    exact each
  | seq _ _ first second =>
    rw [filter_append]
    exact rel_append first second
  | require goes => exact .nil
  | skip forward _ goes body => exact body
  | choose _ _ pastGoes leaveGoes yes no =>
    rw [filter_cons_of_neg (by simp [Instr.isJump]), filter_append,
      filter_cons_of_neg (by simp [Instr.isJump])]
    exact rel_append yes no
  | loop _ _ leaveGoes backGoes condition body =>
    rw [filter_append, filter_cons_of_neg (by simp [Instr.isJump]), filter_append,
      filter_cons_of_neg (by simp [Instr.isJump]), filter_nil, append_nil]
    exact rel_append condition body
  | attempt _ _ leaveGoes checks otherwise =>
    rw [filter_append, filter_cons_of_neg (by simp [Instr.isJump])]
    exact rel_append checks otherwise
  | scope _ inside => exact inside

end Codes

end StackCode
