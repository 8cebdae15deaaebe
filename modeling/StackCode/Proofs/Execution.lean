import Mathlib.Logic.Relation
import StackCode.Proofs.Decoding
import StackCode.Proofs.Flow

/-!
# Running code

A small stack machine runs the code of one function: literals, collections, operators, variables of
the function itself, jumps and what patterns need. What operators and subscripts give is left open
(`Operators`). A step has no result where the machine does not go on: an instruction that it does
not run, too few operands, an operator that is not defined for its operands.
-/

namespace StackCode

open List Option

/-! ## Data -/

/-- What a program works with when it runs. -/
inductive Datum where
  | nil
  | bool (value : Bool)
  | int (value : Int64)
  | float (value : Double)
  | string (text : String)
  | symbol (name : String)
  | list (items : List Datum)
  | tuple (items : List Datum)
  | map (entries : List (Datum × Datum))
  | «class» (fullName : String)
  | «instance» (fullName : String) (arguments : List Datum)

namespace Datum

/-- All but nil and false count as true. -/
def truthy : Datum → Bool
  | .nil => false
  | .bool value => value
  | _ => true

mutual

/-- Whether two data are the same. Zero and minus zero are. -/
def same : Datum → Datum → Bool
  | .nil, .nil => true
  | .bool a, .bool b => a == b
  | .int a, .int b => a == b
  | .float a, .float b => a == b || a.isZero && b.isZero
  | .string a, .string b => a == b
  | .symbol a, .symbol b => a == b
  | .list a, .list b => sameAll a b
  | .tuple a, .tuple b => sameAll a b
  | .map a, .map b => sameEntries a b
  | .class a, .class b => a == b
  | .instance a xs, .instance b ys => a == b && sameAll xs ys
  | _, _ => false

/-- The same one by one. -/
def sameAll : List Datum → List Datum → Bool
  | [], [] => true
  | a :: as, b :: bs => same a b && sameAll as bs
  | _, _ => false

/-- The same for entries. -/
def sameEntries : List (Datum × Datum) → List (Datum × Datum) → Bool
  | [], [] => true
  | (k, a) :: as, (l, b) :: bs => same k l && same a b && sameEntries as bs
  | _, _ => false

end

/-- An integer, if it has 64 bits. -/
def ofInt? (n : Int) : Option Datum :=
  if Int64.minValue.toInt ≤ n ∧ n ≤ Int64.maxValue.toInt then some (.int (.ofInt n)) else none

/-- The elements of a list or a tuple. -/
def items? : Datum → Option (List Datum)
  | .list items => some items
  | .tuple items => some items
  | _ => none

end Datum

/-- A collection of some elements. -/
def SequenceKind.datum : SequenceKind → List Datum → Datum
  | .list => .list
  | .tuple => .tuple

/-- The value of a literal. -/
def Literal.datum : Literal → Datum
  | .nil => .nil
  | .bool value => .bool value
  | .int value => .int value
  | .float value => .float value
  | .string text => .string text
  | .symbol name => .symbol name

/-- What a constant stands for, if it is a plain one. -/
def Value.datum? : Value → Option Datum
  | .nil => some .nil
  | .int value => some (.int value)
  | .float value => some (.float value)
  | .string text => some (.string text)
  | .symbol name => some (.symbol name)
  | .ivars _ => none
  | .function _ => none

/-- What operators and subscripts give, where they give anything. -/
structure Operators where
  unary : UnaryOp → Datum → Option Datum
  binary : BinaryOp → Datum → Datum → Option Datum
  subscript : Datum → Datum → Option Datum

namespace Operators

/-- An operator on the integers that its operands are. -/
def onInts (f : Int → Int → Option Datum) : Datum → Datum → Option Datum
  | .int a, .int b => f a.toInt b.toInt
  | _, _ => none

/-- Arithmetic without overflow and comparisons of integers, equality of all data, and subscripts
of collections. An index may count from the end. -/
def onIntegers : Operators where
  unary
    | .negate, .int n => Datum.ofInt? (-n.toInt)
    | .negate, _ => none
    | .not, v => some (.bool !v.truthy)
  binary
    | .add => onInts fun a b => Datum.ofInt? (a + b)
    | .subtract => onInts fun a b => Datum.ofInt? (a - b)
    | .multiply => onInts fun a b => Datum.ofInt? (a * b)
    | .less => onInts fun a b => some (.bool (a < b))
    | .lessEqual => onInts fun a b => some (.bool (a ≤ b))
    | .greater => onInts fun a b => some (.bool (a > b))
    | .greaterEqual => onInts fun a b => some (.bool (a ≥ b))
    | .equal => fun a b => some (.bool (a.same b))
    | .notEqual => fun a b => some (.bool !(a.same b))
    | .divide => fun _ _ => none
    | .modulo => fun _ _ => none
  subscript
    | .map entries, key =>
      some (((entries.find? fun entry => entry.1.same key).map Prod.snd).getD .nil)
    | collection, .int n => do
      let items ← collection.items?
      let place := if n.toInt < 0 then items.length + n.toInt else n.toInt
      return if 0 ≤ place then items.getD place.toNat .nil else .nil
    | _, _ => none

end Operators

/-! ## Memory -/

/-- The variables and the operands of a function that runs. -/
structure Memory where
  /-- The slots, from that of the receiver on. One that is not there yet is nil. -/
  locals : List Datum
  /-- The operands, the last one first. -/
  stack : List Datum

/-- How a run ends. -/
inductive Ending where
  | returned (value : Datum)
  | thrown (value : Datum)

namespace Memory

/-- Push a value. -/
def push (m : Memory) (value : Datum) : Memory := { m with stack := value :: m.stack }

/-- Take a value off the stack. -/
def pop? (m : Memory) : Option (Datum × Memory) :=
  match m.stack with
  | value :: stack => some (value, { m with stack := stack })
  | [] => none

/-- Pop so many operands. They are given in the order in which they were pushed. -/
def gather? (m : Memory) (count : Nat) : Option (List Datum × Memory) :=
  if count ≤ m.stack.length then
    some ((m.stack.take count).reverse, { m with stack := m.stack.drop count })
  else none

/-- Read a slot. It holds nil at first. -/
def get (m : Memory) (slot : Nat) : Datum := m.locals.getD slot .nil

/-- Write a slot. -/
def set (m : Memory) (slot : Nat) (value : Datum) : Memory :=
  { m with
    locals := (m.locals ++ List.replicate (slot + 1 - m.locals.length) Datum.nil).set slot value }

/-- Make room for so many variables. -/
def prepare (m : Memory) (count : Nat) : Memory :=
  { m with
    locals := m.locals.take (count + 1) ++ List.replicate (count + 1 - m.locals.length) Datum.nil }

@[simp] theorem stack_push (m : Memory) (value : Datum) : (m.push value).stack = value :: m.stack :=
  rfl

@[simp] theorem stack_set (m : Memory) (slot : Nat) (value : Datum) :
    (m.set slot value).stack = m.stack :=
  rfl

theorem get_set (m : Memory) (slot other : Nat) (value : Datum) :
    (m.set slot value).get other = if other = slot then value else m.get other := by
  simp only [get, set, getD_eq_getElem?_getD, List.getElem?_set, length_append, length_replicate]
  split
  · rename_i same
    subst same
    rw [if_pos rfl, if_pos (by omega)]
    rfl
  · rename_i differ
    rw [if_neg (Ne.symm differ), List.getElem?_append]
    split
    · rfl
    · rename_i beyond
      rw [List.getElem?_eq_none (by omega : m.locals.length ≤ other), List.getElem?_replicate]
      split <;> rfl

end Memory

/-- A key and a value alternate. -/
def pairUp : List Datum → List (Datum × Datum)
  | key :: value :: rest => (key, value) :: pairUp rest
  | _ => []

/-! ## Instructions -/

/-- What came of an operation: the memory behind it, or how it ended the run. -/
abbrev Performed := Option (Except Ending Memory)

namespace Memory

/-- Go on with a value on the stack. -/
def give (m : Memory) (value : Datum) : Performed := some (.ok (m.push value))

/-- Write the last operand into a slot, and keep it. -/
def store (m : Memory) (slot : Nat) : Performed :=
  m.stack.head?.map fun value => .ok (m.set slot value)

/-- Make one value of those on the stack. -/
def collect (m : Memory) (count : Nat) (make : List Datum → Datum) : Performed :=
  (m.gather? count).bind fun (items, m) => m.give (make items)

/-- Make an instance. -/
def instantiate (m : Memory) (count : Nat) : Performed := do
  let (arguments, m) ← m.gather? count
  match ← m.pop? with
  | (.class fullName, m) => m.give (.instance fullName arguments)
  | _ => none

/-- The elements of a sequence, apart from some at the front and some at the end. -/
def slice (m : Memory) (front back : Nat) : Performed := do
  let (sequence, m) ← m.pop?
  let items ← sequence.items?
  if front + back ≤ items.length then
    m.give (.list ((items.take (items.length - back)).drop front))
  else none

end Memory

/-- Whether a value is of a class. -/
def Datum.isOf (fullName : String) : Datum → Bool
  | .list _ => fullName == listName
  | .tuple _ => fullName == tupleName
  | .map _ => fullName == mapName
  | _ => false

/-- An operation without operands in the code. -/
def PlainOp.perform (ops : Operators) (m : Memory) : PlainOp → Performed
  | .pop => m.pop?.map fun (_, m) => .ok m
  | .pushNil => m.give .nil
  | .pushTrue => m.give (.bool true)
  | .pushFalse => m.give (.bool false)
  | .pushSelf => m.give .nil
  | .unary operator => do
    let (value, m) ← m.pop?
    m.give (← ops.unary operator value)
  | .binary operator => do
    let (right, m) ← m.pop?
    let (left, m) ← m.pop?
    m.give (← ops.binary operator left right)
  | .subscript => do
    let (index, m) ← m.pop?
    let (collection, m) ← m.pop?
    m.give (← ops.subscript collection index)
  | .isA => do
    let (owner, m) ← m.pop?
    let (value, m) ← m.pop?
    match owner with
    | .class fullName => m.give (.bool (value.isOf fullName))
    | _ => none
  | .length => do
    match ← m.pop? with
    | (.map entries, m) => m.give (.int (.ofNat entries.length))
    | (sequence, m) => m.give (.int (.ofNat (← sequence.items?).length))
  | .hasKey => do
    let (key, m) ← m.pop?
    match ← m.pop? with
    | (.map entries, m) => m.give (.bool (entries.any fun entry => entry.1.same key))
    | _ => none
  | .raise => m.pop?.map fun (value, _) => .error (.thrown value)
  | .ret => m.pop?.map fun (value, _) => .error (.returned value)
  | _ => none

/-- Run an instruction that is no jump. -/
def Instr.perform (ops : Operators) (constants : List Value) (m : Memory) : Instr → Performed
  | .plain op => op.perform ops m
  | .int value => m.give (.int value.toInt64)
  | .indexed .loadValue i => (constants[i.toNat]?.bind Value.datum?).bind m.give
  | .indexed .prepLocals i => some (.ok (m.prepare i.toNat))
  | .indexed .getLocal i => m.give (m.get i.toNat)
  | .indexed .setLocal i => m.store i.toNat
  | .indexed .getConst i =>
    (constants[i.toNat]?.bind Value.symbol?).bind fun name => m.give (.class name)
  | .indexed .newList i => m.collect i.toNat .list
  | .indexed .newTuple i => m.collect i.toNat .tuple
  | .indexed .newMap i => m.collect (2 * i.toNat) fun items => .map (pairUp items)
  | .instantiate argc => m.instantiate argc.toNat
  | .slice front back => m.slice front.toNat back.toNat
  | _ => none

/-- Whether a jump is taken. -/
def JumpKind.look (m : Memory) : JumpKind → Option (Bool × Memory)
  | .always => some (true, m)
  | .back => some (true, m)
  | .whenFalse => m.pop?.map fun (value, m) => (!value.truthy, m)
  | .whenTrue => m.pop?.map fun (value, m) => (value.truthy, m)
  | .whenFalseKeep => some (!m.stack.head?.any Datum.truthy, m)
  | .whenTrueKeep => some (m.stack.head?.any Datum.truthy, m)
  | .unlessMissing => none

/-- Where a jump that is taken goes. -/
def JumpKind.land (ending distance : Nat) : JumpKind → Option Nat
  | .back => if distance ≤ ending then some (ending - distance) else none
  | _ => some (ending + distance)

/-! ## Steps -/

/-- The instruction that begins with the byte at a place, and where it ends. -/
def fetch? (code : Array UInt8) (place : Nat) : Option (Instr × Nat) := do
  let bytes := code.toList.drop place
  let op ← bytes.head?.bind Opcode.ofByte?
  let size ← instructionSize? bytes
  let i ← op.instr? bytes.tail
  if size ≤ bytes.length then return (i, place + size) else none

/-- A function that runs. -/
structure Machine where
  place : Nat
  memory : Memory

namespace Machine

/-- Before the first step. There is no receiver. -/
def start : Machine := ⟨0, [.nil], []⟩

/-- Run the next instruction. -/
def step (ops : Operators) (f : CompiledFunction) (m : Machine) :
    Option (Except Ending Machine) := do
  match ← fetch? f.code m.place with
  | (.jump kind distance, ending) =>
    let (taken, memory) ← kind.look m.memory
    let place ← if taken then kind.land ending distance.toNat else some ending
    return .ok ⟨place, memory⟩
  | (i, ending) =>
    match ← i.perform ops f.constants m.memory with
    | .ok memory => return .ok ⟨ending, memory⟩
    | .error result => return .error result

/-- How a run ends within so many steps. -/
def run (ops : Operators) (f : CompiledFunction) : Nat → Machine → Option Ending
  | 0, _ => none
  | steps + 1, m =>
    match step ops f m with
    | some (.ok next) => run ops f steps next
    | some (.error result) => some result
    | none => none

variable {ops : Operators} {f : CompiledFunction}

/-- One state leads to another. -/
def Leads (ops : Operators) (f : CompiledFunction) : Machine → Machine → Prop :=
  Relation.ReflTransGen fun m next => step ops f m = some (.ok next)

/-- Some steps lead to an ending. -/
def Ends (ops : Operators) (f : CompiledFunction) (m : Machine) (result : Ending) : Prop :=
  ∃ last, Leads ops f m last ∧ step ops f last = some (.error result)

theorem Leads.ends {m next : Machine} {result : Ending} (leads : Leads ops f m next)
    (ends : Ends ops f next result) : Ends ops f m result := by
  obtain ⟨last, onwards, stops⟩ := ends
  exact ⟨last, leads.trans onwards, stops⟩

/-- **A run comes to the ending that its steps lead to**, given enough of them. -/
theorem Ends.run {m : Machine} {result : Ending} (ends : Ends ops f m result) :
    ∃ enough, ∀ steps ≥ enough, run ops f steps m = some result := by
  obtain ⟨last, leads, stops⟩ := ends
  induction leads using Relation.ReflTransGen.head_induction_on with
  | refl =>
    refine ⟨1, fun steps enough => ?_⟩
    obtain ⟨more, rfl⟩ := Nat.exists_eq_add_of_le' enough
    rw [Machine.run, stops]
  | head goes _ ih =>
    obtain ⟨enough, after⟩ := ih
    refine ⟨enough + 1, fun steps many => ?_⟩
    obtain ⟨more, rfl⟩ := Nat.exists_eq_add_of_le' many
    rw [← Nat.add_assoc, Machine.run, goes]
    exact after _ (Nat.le_add_left _ _)

/-! ## Steps through written code -/

section Written

variable {before after : List Instr} {i : Instr}

theorem fetch?_written (written : WrittenAs f.code (before ++ i :: after)) :
    fetch? f.code (codeSize before) = some (i, codeSize before + i.size) := by
  have bytes : f.code.toList.drop (codeSize before) = i.bytes ++ bytesOf after := by
    rw [written.bytes, bytesOf, flatMap_append, flatMap_cons]
    exact drop_left' (length_bytesOf before)
  have fits : i.Fits := written.fit i (by simp)
  have size : i.size ≤ (i.bytes ++ bytesOf after).length := by
    rw [length_append]
    exact Nat.le_add_right _ _
  have operands : (i.bytes ++ bytesOf after).tail = i.operands ++ bytesOf after := by
    rw [i.bytes_eq]
    rfl
  have op : (i.bytes ++ bytesOf after).head?.bind Opcode.ofByte? = some i.opcode := by
    rw [i.bytes_eq]
    exact Opcode.ofByte?_byte i.opcode
  simp only [fetch?, bytes, op, operands, i.instructionSize?_bytes, i.instr?_operands fits, size,
    bind_eq_bind, bind_some, if_true, Option.pure_def]

theorem step_perform (written : WrittenAs f.code (before ++ i :: after))
    (straight : i.isJump = false)
    (memory : Memory) : step ops f ⟨codeSize before, memory⟩ =
      (i.perform ops f.constants memory).map fun result => result.map fun memory =>
        ⟨codeSize before + i.size, memory⟩ := by
  unfold step
  simp only [fetch?_written written, bind_eq_bind, bind_some]
  cases i with
  | jump kind distance => cases straight
  | _ =>
    dsimp only
    generalize Instr.perform ops f.constants memory _ = performed
    rcases performed with _ | (_ | _) <;> rfl

theorem step_jump {kind : JumpKind} {distance : UInt16}
    (written : WrittenAs f.code (before ++ .jump kind distance :: after)) {memory memory' : Memory}
    {taken : Bool} (looks : kind.look memory = some (taken, memory')) {place : Nat}
    (lands : taken = true → kind.land (codeSize before + 3) distance.toNat = some place)
    (stays : taken = false → place = codeSize before + 3) :
    step ops f ⟨codeSize before, memory⟩ = some (.ok ⟨place, memory'⟩) := by
  unfold step
  simp only [fetch?_written written, bind_eq_bind, bind_some, looks, Instr.size_jump]
  cases taken with
  | true =>
    rw [if_pos rfl, lands rfl]
    rfl
  | false =>
    rw [if_neg (by decide), stays rfl]
    rfl

end Written

end Machine

end StackCode
