import StackCode.Proofs.Encoding
import StackCode.Proofs.Execution

/-!
# Running flows

What a flow does to the memory of a function is said without places and distances (`Does`). The
machine does the same when it runs the code of the flow (`Codes.comes`): it comes to the end of the
code, or to where checks that fail go on, or its run ends. It has only the slots of the function
that it runs, so an operation on a captured variable is not performed.
-/

namespace StackCode

open Instr

/-! ## Operations -/

/-- What an operation does, where the machine runs it. Captured variables are not in slots. -/
def Op.perform (ops : Operators) (captured : List Local) (m : Memory) : Op → Performed
  | .plain op => op.perform ops m
  | .int n => m.give (.int n.toInt64)
  | .value v => v.datum?.bind m.give
  | .constant (some fullName) => m.give (.class fullName)
  | .get _ l => if l ∈ captured then none else m.give (m.get l.slot)
  | .set _ l => if l ∈ captured then none else m.store l.slot
  | .sequence kind count => m.collect count kind.datum
  | .map count => m.collect (2 * count) fun items => .map (pairUp items)
  | .instantiate count => m.instantiate count
  | .slice front back => m.slice front back
  | _ => none

variable {ops : Operators} {captured : List Local}

theorem World.Denotes.slot_eq {W : World} {live : List Local} {slot : Nat} {l : Local}
    (denotes : W.Denotes live (.local slot) l) : l.slot = slot := by
  simpa using List.find?_some denotes.1

/-- **An instruction does what the operation does that it writes.** -/
theorem Encoded.perform {W : World} {op : Op} {i : Instr} {m : Memory}
    {result : Except Ending Memory}
    (encoded : Encoded W op i) (performs : op.perform ops W.captured m = some result) :
    i.perform ops W.pool m = some result := by
  -- What is performed on a variable is performed on one that is not captured.
  have own {l : Local} {performed : Performed}
      (isSome : (if l ∈ W.captured then none else performed) = some result) :
      l ∉ W.captured ∧ performed = some result := by
    split at isSome
    · cases isSome
    · rename_i notCaptured
      exact ⟨notCaptured, isSome⟩
  cases encoded with
  | plain op => exact performs
  | int value => exact performs
  | value noFunction found =>
    rw [Instr.perform, found]
    exact performs
  | @constant _ fullName name i known found =>
    rw [Instr.perform, found]
    cases fullName with
    | none => cases performs
    | some n =>
      cases known n rfl
      exact performs
  | getLocal denotes =>
    rw [Instr.perform, ← denotes.slot_eq]
    exact (own performs).2
  | setLocal denotes =>
    rw [Instr.perform, ← denotes.slot_eq]
    exact (own performs).2
  | getUpvalue denotes => exact ((own performs).1 (List.mem_of_getElem? denotes)).elim
  | setUpvalue denotes => exact ((own performs).1 (List.mem_of_getElem? denotes)).elim
  | @sequence _ kind count i counted =>
    subst counted
    cases kind <;> exact performs
  | map counted =>
    subst counted
    exact performs
  | instantiate counted =>
    subst counted
    exact performs
  | slice isFront isBack =>
    subst isFront isBack
    exact performs
  | _ => cases performs

/-! ## Flows -/

/-- How a flow is left. -/
inductive Exit where
  | through (memory : Memory)
  | failed (memory : Memory)
  | ended (result : Ending)

/-- Whether a flow is left at its end. -/
def Exit.isThrough : Exit → Bool
  | .through _ => true
  | _ => false

/-- A flow leads from a state to an exit. -/
inductive Does (ops : Operators) (captured : List Local) : Flow Op → Memory → Exit → Prop where
  | nil {m : Memory} : Does ops captured (.ops []) m (.through m)
  | step {op : Op} {rest : List Op} {m m' : Memory} {exit : Exit}
      (performs : op.perform ops captured m = some (.ok m'))
      (others : Does ops captured (.ops rest) m' exit) :
      Does ops captured (.ops (op :: rest)) m exit
  | stop {op : Op} {rest : List Op} {m : Memory} {result : Ending}
      (performs : op.perform ops captured m = some (.error result)) :
      Does ops captured (.ops (op :: rest)) m (.ended result)
  | seq {a b : Flow Op} {m m' : Memory} {exit : Exit} (first : Does ops captured a m (.through m'))
      (second : Does ops captured b m' exit) : Does ops captured (.seq a b) m exit
  | leave {a b : Flow Op} {m : Memory} {exit : Exit} (first : Does ops captured a m exit)
      (early : exit.isThrough = false) : Does ops captured (.seq a b) m exit
  | holds {m m' : Memory} (looks : JumpKind.whenFalse.look m = some (false, m')) :
      Does ops captured .require m (.through m')
  | fails {m m' : Memory} (looks : JumpKind.whenFalse.look m = some (true, m')) :
      Does ops captured .require m (.failed m')
  | past {kind : JumpKind} {body : Flow Op} {m m' : Memory}
      (looks : kind.look m = some (true, m')) : Does ops captured (.skip kind body) m (.through m')
  | into {kind : JumpKind} {body : Flow Op} {m m' : Memory} {exit : Exit}
      (looks : kind.look m = some (false, m')) (inside : Does ops captured body m' exit) :
      Does ops captured (.skip kind body) m exit
  | yes {yes no : Flow Op} {m m' : Memory} {exit : Exit}
      (looks : JumpKind.whenFalse.look m = some (false, m'))
      (inside : Does ops captured yes m' exit) :
      Does ops captured (.choose yes no) m exit
  | no {yes no : Flow Op} {m m' : Memory} {exit : Exit}
      (looks : JumpKind.whenFalse.look m = some (true, m'))
      (inside : Does ops captured no m' exit) :
      Does ops captured (.choose yes no) m exit
  | untested {condition body : Flow Op} {m : Memory} {exit : Exit}
      (first : Does ops captured condition m exit) (early : exit.isThrough = false) :
      Does ops captured (.loop condition body) m exit
  | done {condition body : Flow Op} {m m' m'' : Memory}
      (first : Does ops captured condition m (.through m'))
      (looks : JumpKind.whenFalse.look m' = some (true, m'')) :
      Does ops captured (.loop condition body) m (.through m'')
  | broken {condition body : Flow Op} {m m' m'' : Memory} {exit : Exit}
      (first : Does ops captured condition m (.through m'))
      (looks : JumpKind.whenFalse.look m' = some (false, m''))
      (inside : Does ops captured body m'' exit)
      (early : exit.isThrough = false) : Does ops captured (.loop condition body) m exit
  | again {condition body : Flow Op} {m m' m'' next : Memory} {exit : Exit}
      (first : Does ops captured condition m (.through m'))
      (looks : JumpKind.whenFalse.look m' = some (false, m''))
      (inside : Does ops captured body m'' (.through next))
      (others : Does ops captured (.loop condition body) next exit) :
      Does ops captured (.loop condition body) m exit
  | passed {checks otherwise : Flow Op} {m m' : Memory}
      (first : Does ops captured checks m (.through m')) :
      Does ops captured (.attempt checks otherwise) m (.through m')
  | missed {checks otherwise : Flow Op} {m m' : Memory} {exit : Exit}
      (first : Does ops captured checks m (.failed m'))
      (instead : Does ops captured otherwise m' exit) :
      Does ops captured (.attempt checks otherwise) m exit
  | cut {checks otherwise : Flow Op} {m : Memory} {result : Ending}
      (first : Does ops captured checks m (.ended result)) :
      Does ops captured (.attempt checks otherwise) m (.ended result)
  | scope {closings ending : List Op} {block : Flow Op} {m : Memory} {exit : Exit}
      (inside : Does ops captured (.seq block (.ops ending)) m exit) :
      Does ops captured (.scope closings block ending) m exit

theorem Does.assoc {a b c : Flow Op} {m : Memory} {exit : Exit}
    (does : Does ops captured (a ++ (b ++ c)) m exit) :
    Does ops captured (a ++ b ++ c) m exit := by
  cases does with
  | seq first others =>
    cases others with
    | seq second third => exact .seq (.seq first second) third
    | leave second early => exact .leave (.seq first second) early
  | leave first early => exact .leave (.leave first early) early

theorem Does.reassoc {a b c : Flow Op} {m : Memory} {exit : Exit}
    (does : Does ops captured (a ++ b ++ c) m exit) :
    Does ops captured (a ++ (b ++ c)) m exit := by
  cases does with
  | seq first third =>
    cases first with
    | seq first second => exact .seq first (.seq second third)
    | leave first early => cases early
  | leave first early =>
    cases first with
    | seq first second => exact .seq first (.leave second early)
    | leave first early => exact .leave first early

/-! ## Code of flows -/

variable {f : CompiledFunction}

/-- From a state, the machine leaves a flow in some way: it comes to the end of the flow's code, or
to where checks that fail go on. -/
def Exit.Comes (ops : Operators) (f : CompiledFunction) (m : Machine) (stop failing : Nat) :
    Exit → Prop
  | .through memory => Machine.Leads ops f m ⟨stop, memory⟩
  | .failed memory => Machine.Leads ops f m ⟨failing, memory⟩
  | .ended result => Machine.Ends ops f m result

namespace Exit.Comes

variable {m next : Machine} {stop stop' failing failing' : Nat} {exit : Exit}

theorem prepend (leads : Machine.Leads ops f m next) (comes : exit.Comes ops f next stop failing) :
    exit.Comes ops f m stop failing := by
  cases exit with
  | through memory => exact leads.trans comes
  | failed memory => exact leads.trans comes
  | ended result => exact leads.ends comes

theorem head (steps : Machine.step ops f m = some (.ok next))
    (comes : exit.Comes ops f next stop failing) : exit.Comes ops f m stop failing :=
  prepend (.single steps) comes

theorem go_on (comes : exit.Comes ops f m stop failing)
    (goesOn : ∀ memory, Machine.Leads ops f ⟨stop, memory⟩ ⟨stop', memory⟩) :
    exit.Comes ops f m stop' failing := by
  cases exit with
  | through memory => exact Relation.ReflTransGen.trans comes (goesOn memory)
  | failed memory => exact comes
  | ended result => exact comes

theorem early (comes : exit.Comes ops f m stop failing) (isEarly : exit.isThrough = false) :
    exit.Comes ops f m stop' failing := by
  cases exit with
  | through memory => cases isEarly
  | failed memory => exact comes
  | ended result => exact comes

end Exit.Comes

theorem JumpKind.land_forward {kind : JumpKind} (forward : kind ≠ .back) (ending distance : Nat) :
    kind.land ending distance = some (ending + distance) := by
  cases kind <;> first | rfl | exact absurd rfl forward

section Simulation

variable {W : World}

/-- Code that stands behind some other code of a function. -/
def StandsAt (f : CompiledFunction) (place : Nat) (instrs : List Instr) : Prop :=
  ∃ before after, WrittenAs f.code (before ++ instrs ++ after) ∧ place = codeSize before

namespace StandsAt

variable {place : Nat} {a b instrs : List Instr} {i : Instr}

theorem left (stands : StandsAt f place (a ++ b)) : StandsAt f place a := by
  obtain ⟨before, after, written, rfl⟩ := stands
  exact ⟨before, b ++ after, by simpa using written, rfl⟩

theorem right (stands : StandsAt f place (a ++ b)) : StandsAt f (place + codeSize a) b := by
  obtain ⟨before, after, written, rfl⟩ := stands
  exact ⟨before ++ a, after, by simpa using written, (codeSize_append before a).symm⟩

theorem tail (stands : StandsAt f place (i :: instrs)) : StandsAt f (place + i.size) instrs := by
  have behind := StandsAt.right (a := [i]) stands
  rwa [codeSize_cons, codeSize_nil, Nat.add_zero] at behind

theorem encoded (pool : W.pool = f.constants) (stands : StandsAt f place (i :: instrs)) {op : Op}
    (encoded : Encoded W op i) {memory : Memory} {result : Except Ending Memory}
    (performs : op.perform ops W.captured memory = some result) :
    Machine.step ops f ⟨place, memory⟩ =
      some (result.map fun memory => ⟨place + i.size, memory⟩) := by
  obtain ⟨before, after, written, rfl⟩ := stands
  have behind : WrittenAs f.code (before ++ i :: (instrs ++ after)) := by simpa using written
  rw [Machine.step_perform behind (Encoded.sameEffect W _ _ encoded).1, ← pool,
    encoded.perform performs]
  rfl

section

variable {kind : JumpKind} {distance : UInt16}
  (stands : StandsAt f place (.jump kind distance :: instrs)) {memory memory' : Memory}

include stands

theorem fall (looks : kind.look memory = some (false, memory')) :
    Machine.step ops f ⟨place, memory⟩ = some (.ok ⟨place + 3, memory'⟩) := by
  obtain ⟨before, after, written, rfl⟩ := stands
  have behind : WrittenAs f.code (before ++ .jump kind distance :: (instrs ++ after)) := by
    simpa using written
  exact Machine.step_jump behind looks nofun fun _ => rfl

theorem jump (looks : kind.look memory = some (true, memory')) {next : Nat}
    (lands : kind.land (place + 3) distance.toNat = some next) :
    Machine.step ops f ⟨place, memory⟩ = some (.ok ⟨next, memory'⟩) := by
  obtain ⟨before, after, written, rfl⟩ := stands
  have behind : WrittenAs f.code (before ++ .jump kind distance :: (instrs ++ after)) := by
    simpa using written
  exact Machine.step_jump behind looks (fun _ => lands) nofun

end

end StandsAt

/-- **The machine does what a flow does when it runs the code of the flow.** -/
theorem Codes.comes (pool : W.pool = f.constants) {flow : Flow Op} {m : Memory} {exit : Exit}
    (does : Does ops W.captured flow m exit) {n place : Nat} {instrs : List Instr}
    (codes : Codes (Encoded W) n flow instrs) (stands : StandsAt f place instrs) :
    exit.Comes ops f ⟨place, m⟩ (place + codeSize instrs) (place + codeSize instrs + n) := by
  induction does generalizing n place instrs with
  | nil =>
    cases codes with
    | ops each =>
      cases each
      exact .refl
  | step performs _ ih =>
    cases codes with
    | ops each =>
      cases each with
      | cons encoded others =>
        have behind := ih (n := n) (.ops others) stands.tail
        rw [codeSize_cons, ← Nat.add_assoc]
        exact .head (stands.encoded pool encoded performs) behind
  | stop performs =>
    cases codes with
    | ops each =>
      cases each with
      | cons encoded others =>
        exact ⟨_, .refl, stands.encoded pool encoded performs⟩
  | seq _ _ first second =>
    cases codes with
    | @seq _ _ _ firsts seconds isFirst isSecond =>
      have behind := second isSecond stands.right
      rw [codeSize_append, ← Nat.add_assoc]
      exact behind.prepend (first isFirst stands.left)
  | leave _ early first =>
    cases codes with
    | @seq _ _ _ firsts seconds isFirst isSecond =>
      have same : place + codeSize (firsts ++ seconds) + n =
          place + codeSize firsts + (codeSize seconds + n) := by
        rw [codeSize_append]
        omega
      rw [same]
      exact (first isFirst stands.left).early early
  | holds looks =>
    cases codes with
    | require goes => exact .single (stands.fall looks)
  | fails looks =>
    cases codes with
    | require goes =>
      subst goes
      exact .single (stands.jump looks rfl)
  | past looks =>
    cases codes with
    | skip forward isBody goes =>
      refine .single (stands.jump looks ?_)
      rw [JumpKind.land_forward forward, goes, codeSize_cons, size_jump, Nat.add_assoc]
  | into looks _ inside =>
    cases codes with
    | skip forward isBody goes =>
      have behind := inside isBody stands.tail
      rw [codeSize_cons, ← Nat.add_assoc]
      exact .head (stands.fall looks) behind
  | yes looks _ inside =>
    cases codes with
    | @choose _ _ _ yeses noes past leave isYes isNo pastGoes leaveGoes =>
      have stop : place + codeSize
        (.jump .whenFalse past :: (yeses ++ .jump .always leave :: noes)) =
          place + 3 + codeSize yeses + 3 + codeSize noes := by
        simp only [codeSize_cons, codeSize_append, size_jump]
        omega
      have failing : place + 3 + codeSize yeses + 3 + codeSize noes + n =
          place + 3 + codeSize yeses + (3 + codeSize noes + n) := by
        omega
      have behind := inside isYes stands.tail.left
      rw [stop, failing]
      refine .head (stands.fall looks) (behind.go_on fun memory => .single ?_)
      refine stands.tail.right.jump rfl ?_
      rw [JumpKind.land_forward (by decide), leaveGoes, size_jump]
  | no looks _ inside =>
    cases codes with
    | @choose _ _ _ yeses noes past leave isYes isNo pastGoes leaveGoes =>
      have behind := inside isNo stands.tail.right.tail
      have stop : place + codeSize
        (.jump .whenFalse past :: (yeses ++ .jump .always leave :: noes)) =
          place + 3 + codeSize yeses + 3 + codeSize noes := by
        simp only [codeSize_cons, codeSize_append, size_jump]
        omega
      rw [stop]
      refine .head (stands.jump looks ?_) behind
      rw [JumpKind.land_forward (by decide), pastGoes]
      rfl
  | untested _ early first =>
    cases codes with
    | @loop _ _ _ conditions bodies leave back isCondition isBody leaveGoes backGoes =>
      have failing : place + codeSize (conditions ++ .jump .whenFalse leave ::
          (bodies ++ [.jump .back back])) + n =
          place + codeSize conditions + (codeSize bodies + 6 + n) := by
        simp only [codeSize_cons, codeSize_append, codeSize_nil, size_jump]
        omega
      rw [failing]
      exact (first isCondition stands.left).early early
  | done _ looks first =>
    cases codes with
    | @loop _ _ _ conditions bodies leave back isCondition isBody leaveGoes backGoes =>
      refine .prepend (first isCondition stands.left) (.single (stands.right.jump looks ?_))
      rw [JumpKind.land_forward (by decide), leaveGoes]
      simp only [codeSize_cons, codeSize_append, codeSize_nil, size_jump]
      congr 1
      omega
  | broken _ looks _ early first inside =>
    cases codes with
    | @loop _ _ _ conditions bodies leave back isCondition isBody leaveGoes backGoes =>
      have failing : place + codeSize (conditions ++ .jump .whenFalse leave ::
          (bodies ++ [.jump .back back])) + n =
          place + codeSize conditions + 3 + codeSize bodies + (3 + n) := by
        simp only [codeSize_cons, codeSize_append, codeSize_nil, size_jump]
        omega
      rw [failing]
      refine .prepend (first isCondition stands.left) (.head (stands.right.fall looks) ?_)
      exact (inside isBody stands.right.tail.left).early early
  | again _ looks _ _ first inside others =>
    cases codes with
    | @loop _ _ _ conditions bodies leave back isCondition isBody leaveGoes backGoes =>
      have once := inside isBody stands.right.tail.left
      have behind := others (.loop isCondition isBody leaveGoes backGoes) stands
      refine .prepend (first isCondition stands.left) (.head (stands.right.fall looks) ?_)
      refine .prepend once (.head (stands.right.tail.right.jump rfl ?_) behind)
      -- The jump back goes as far as the loop is long.
      rw [JumpKind.land, backGoes, size_jump, if_pos (by omega)]
      congr 1
      omega
  | passed _ first =>
    cases codes with
    | @attempt _ _ _ checked instead leave isChecks isOtherwise leaveGoes =>
      refine .prepend (first isChecks stands.left) (.single (stands.right.jump rfl ?_))
      rw [JumpKind.land_forward (by decide), leaveGoes, codeSize_append, codeSize_cons, size_jump]
      congr 1
      omega
  | missed _ _ first instead =>
    cases codes with
    | @attempt _ _ _ checked noes leave isChecks isOtherwise leaveGoes =>
      have behind := instead isOtherwise stands.right.tail
      have stop : place + codeSize (checked ++ .jump .always leave :: noes) =
          place + codeSize checked + 3 + codeSize noes := by
        rw [codeSize_append, codeSize_cons, size_jump]
        omega
      rw [stop]
      exact .prepend (first isChecks stands.left) behind
  | cut _ first =>
    cases codes with
    | attempt isChecks isOtherwise leaveGoes =>
      have ended := first isChecks stands.left
      exact ended
  | scope _ inside =>
    cases codes with
    | scope isInside => exact inside isInside stands

end Simulation

end StackCode
