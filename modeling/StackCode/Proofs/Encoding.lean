import StackCode.Proofs.Scheme
import StackCode.Proofs.StackDepth

/-!
# How schemes are written

An operation is written as an instruction whose numbers mean something only in the function that it
is part of. `Encoded W op i` says that they mean what the operation asks for, where the world `W` is
what the function has when it is finished. A function is built from a scheme if its instructions
write the operations of the scheme, its jumps go as the flow of the scheme does, and so it is with
the functions in it (`Built`).

A piece of code is the code of a flow (`Coded`) in every world that the function may end with.
-/

namespace StackCode

open List Code

/-! ## Worlds -/

/-- The instruction makes room for variables: how many. -/
def Instr.room? : Instr → Option Nat
  | .indexed .prepLocals count => some count.toNat
  | _ => none

namespace CompiledFunction

/-- The number of slots that a function has for variables. -/
def frameSize (f : CompiledFunction) : Nat :=
  f.required + f.optional + (f.reads.findSome? Instr.room?).getD 0

/-- The instructions of a function that neither jump nor make room for variables. -/
def operations (f : CompiledFunction) : List Instr :=
  f.reads.filter fun i => !i.isJump && i.room?.isNone

end CompiledFunction

/-- What the numbers in the instructions of a function mean. -/
structure World where
  pool : List Value
  captured : List Local
  room : Nat

namespace World

/-- In a function, and where some of its variables are live, a variable is kept in a place. -/
def Denotes (W : World) (live : List Local) : Place → Local → Prop
  | .local slot, l => live.find? (·.slot = slot) = some l ∧ 1 ≤ slot ∧ slot ≤ W.room
  | .upvalue index, l => W.captured[index]? = some l

/-- A function may have more when it is finished. -/
structure Le (W W' : World) : Prop where
  pool : W.pool <+: W'.pool
  captured : W.captured <+: W'.captured
  room : W.room ≤ W'.room

instance : LE World := ⟨Le⟩

theorem le_refl (W : World) : W ≤ W := ⟨prefix_refl _, prefix_refl _, Nat.le_refl _⟩

theorem le_trans {W W' W'' : World} (first : W ≤ W') (second : W' ≤ W'') : W ≤ W'' :=
  ⟨first.pool.trans second.pool, first.captured.trans second.captured,
    Nat.le_trans first.room second.room⟩

end World

/-- What the numbers in the instructions of a finished function mean. -/
def CompiledFunction.world (f : CompiledFunction) (captured : List Local) : World :=
  ⟨f.constants, captured, f.frameSize⟩

/-- The jumps of a function, behind what makes room for variables, go as a flow does. -/
def CompiledFunction.Jumps (f : CompiledFunction) (flow : Flow Op) : Prop :=
  ∃ room instrs, WrittenAs f.code (room ++ instrs) ∧
    (room = [] ∨ ∃ i, room = [.indexed .prepLocals i]) ∧
    Codes (fun _ i => i.isJump = false ∧ i.room? = none) 0 flow instrs

/-- The family of instructions that makes a sequence. -/
def SequenceKind.family : SequenceKind → Family
  | .list => .newList
  | .tuple => .newTuple

mutual

/-- A function is built from a scheme. -/
inductive Built : Scheme → CompiledFunction → Prop where
  | intro {scheme : Scheme} {f : CompiledFunction} (upvalues : f.upvalues = scheme.captured.length)
      (each : BuiltOps (f.world scheme.captured) scheme.body.operations f.operations)
      (jumps : f.Jumps scheme.body) : Built scheme f

/-- Instructions write operations, one by one. -/
inductive BuiltOps : World → List Op → List Instr → Prop where
  | nil {W : World} : BuiltOps W [] []
  | cons {W : World} {op : Op} {i : Instr} {operations : List Op} {instrs : List Instr}
      (first : Encoded W op i) (others : BuiltOps W operations instrs) :
      BuiltOps W (op :: operations) (i :: instrs)

/-- An instruction writes an operation. -/
inductive Encoded : World → Op → Instr → Prop where
  | plain {W : World} (op : PlainOp) : Encoded W (.plain op) (.plain op)
  | int {W : World} (value : Int8) : Encoded W (.int value) (.int value)
  | value {W : World} {value : Value} {i : UInt16} (noFunction : value.function? = none)
      (found : W.pool[i.toNat]? = some value) : Encoded W (.value value) (.indexed .loadValue i)
  | function {W : World} {scheme : Scheme} {g : CompiledFunction} {i : UInt16}
      (built : Built scheme g) (noCapture : scheme.captured = [])
      (found : W.pool[i.toNat]? = some (.function g)) :
      Encoded W (.function scheme) (.indexed .loadValue i)
  | closure {W : World} {live : List Local} {scheme : Scheme} {g : CompiledFunction} {i : UInt16}
      {places : List Place} (built : Built scheme g)
      (found : W.pool[i.toNat]? = some (.function g)) (fit : ∀ place ∈ places, place.Fits)
      (captures : List.Forall₂ (W.Denotes live) places scheme.captured) :
      Encoded W (.closure live scheme) (.closure i places)
  | constant {W : World} {fullName : Option String} {name : String} {i : UInt16}
      (known : ∀ n ∈ fullName, n = name) (found : W.pool[i.toNat]? = some (.symbol name)) :
      Encoded W (.constant fullName) (.indexed .getConst i)
  | getIvar {W : World} {i : UInt16} : Encoded W .getIvar (.indexed .getIvar i)
  | getIvarName {W : World} {name : String} {i : UInt16}
      (found : W.pool[i.toNat]? = some (.symbol name)) :
      Encoded W .getIvar (.indexed .getIvarName i)
  | setIvar {W : World} {i : UInt16} : Encoded W .setIvar (.indexed .setIvar i)
  | setIvarName {W : World} {name : String} {i : UInt16}
      (found : W.pool[i.toNat]? = some (.symbol name)) :
      Encoded W .setIvar (.indexed .setIvarName i)
  | getLocal {W : World} {live : List Local} {l : Local} {i : UInt16}
      (denotes : W.Denotes live (.local i.toNat) l) :
      Encoded W (.get live l) (.indexed .getLocal i)
  | getUpvalue {W : World} {live : List Local} {l : Local} {i : UInt16}
      (denotes : W.Denotes live (.upvalue i.toNat) l) :
      Encoded W (.get live l) (.indexed .getUpvalue i)
  | setLocal {W : World} {live : List Local} {l : Local} {i : UInt16}
      (denotes : W.Denotes live (.local i.toNat) l) :
      Encoded W (.set live l) (.indexed .setLocal i)
  | setUpvalue {W : World} {live : List Local} {l : Local} {i : UInt16}
      (denotes : W.Denotes live (.upvalue i.toNat) l) :
      Encoded W (.set live l) (.indexed .setUpvalue i)
  | close {W : World} {live : List Local} {l : Local} {i : UInt16}
      (denotes : W.Denotes live (.local i.toNat) l) :
      Encoded W (.close live l) (.indexed .closeUpvalue i)
  | sequence {W : World} {kind : SequenceKind} {count : Nat} {i : UInt16}
      (counted : i.toNat = count) : Encoded W (.sequence kind count) (.indexed kind.family i)
  | map {W : World} {count : Nat} {i : UInt16} (counted : i.toNat = count) :
      Encoded W (.map count) (.indexed .newMap i)
  | send {W : World} {kind : CallKind} {name : String} {count : Nat} {i : UInt16} {argc : UInt8}
      (found : W.pool[i.toNat]? = some (.symbol name)) (counted : argc.toNat = count) :
      Encoded W (.send kind name count) (.send kind i argc)
  | call {W : World} {count : Nat} {argc : UInt8} (counted : argc.toNat = count) :
      Encoded W (.call count) (.call argc)
  | instantiate {W : World} {count : Nat} {argc : UInt8} (counted : argc.toNat = count) :
      Encoded W (.instantiate count) (.instantiate argc)
  | defNamespace {W : World} (kind : NamespaceKind) :
      Encoded W (.defNamespace kind) (.defNamespace kind)
  | slice {W : World} {front back : Nat} {i j : UInt8} (isFront : i.toNat = front)
      (isBack : j.toNat = back) : Encoded W (.slice front back) (.slice i j)

end

theorem builtOps_iff {W : World} {operations : List Op} {instrs : List Instr} :
    BuiltOps W operations instrs ↔ Forall₂ (Encoded W) operations instrs := by
  constructor
  · intro built
    induction operations generalizing instrs with
    | nil =>
      cases built
      exact .nil
    | cons op rest ih =>
      cases built with
      | cons first others => exact .cons first (ih others)
  · intro each
    induction each with
    | nil => exact .nil
    | cons first _ ih => exact .cons first ih

/-! ## The stack -/

/-- What an operation does to the stack. -/
def Op.effect : Op → Effect
  | .plain op => op.effect
  | .int _ => ⟨0, 1, false⟩
  | .value _ => ⟨0, 1, false⟩
  | .function _ => ⟨0, 1, false⟩
  | .closure _ _ => ⟨0, 1, false⟩
  | .constant _ => ⟨0, 1, false⟩
  | .getIvar => ⟨0, 1, false⟩
  | .setIvar => ⟨1, 1, false⟩
  | .get _ _ => ⟨0, 1, false⟩
  | .set _ _ => ⟨1, 1, false⟩
  | .unbound => ⟨0, 0, false⟩
  | .close _ _ => ⟨0, 0, false⟩
  | .sequence _ count => ⟨count, 1, false⟩
  | .map count => ⟨2 * count, 1, false⟩
  | .send kind _ count => kind.effect count
  | .call count => ⟨count + 1, 1, false⟩
  | .instantiate count => ⟨count + 1, 1, false⟩
  | .defNamespace _ => ⟨2, 0, false⟩
  | .slice _ _ => ⟨1, 1, false⟩

namespace Encoded

variable {W : World} {op : Op} {i : Instr}

theorem sameEffect (W : World) : SameEffect Op.effect (Encoded W) := by
  intro op i encoded
  cases encoded with
  | @sequence _ kind count index counted =>
    subst counted
    cases kind <;> exact ⟨rfl, rfl⟩
  | map counted => subst counted; exact ⟨rfl, rfl⟩
  | send found counted => subst counted; exact ⟨rfl, rfl⟩
  | call counted => subst counted; exact ⟨rfl, rfl⟩
  | instantiate counted => subst counted; exact ⟨rfl, rfl⟩
  | _ => exact ⟨rfl, rfl⟩

theorem room?_eq_none (encoded : Encoded W op i) : i.room? = none := by
  cases encoded with
  | @sequence _ kind count index counted => cases kind <;> rfl
  | _ => rfl

theorem fits (encoded : Encoded W op i) : i.Fits := by
  cases encoded with
  | closure built found fit captures => exact fit
  | _ => trivial

end Encoded

theorem Chain.frame {start stop : Nat} {operations : List Op}
    (chain : Chain Op.effect start operations stop) (depth : Nat) :
    Chain Op.effect (depth + start) operations (depth + stop) := by
  induction operations generalizing start with
  | nil => exact congrArg (depth + ·) chain
  | cons op rest ih =>
    obtain ⟨enough, between, falls, others⟩ := chain
    refine ⟨by omega, depth + between, fun goesOn => ?_, ih others⟩
    rw [falls goesOn]
    simp only [Effect.after]
    omega

theorem Chain.append {start between stop : Nat} {a b : List Op}
    (first : Chain Op.effect start a between) (second : Chain Op.effect between b stop) :
    Chain Op.effect start (a ++ b) stop := by
  induction a generalizing start with
  | nil =>
    cases first
    exact second
  | cons op rest ih =>
    obtain ⟨enough, next, falls, others⟩ := first
    exact ⟨enough, next, falls, ih others⟩

theorem Chain.flatMap {γ : Type} {operations : γ → List Op} (items : List γ)
    (each : ∀ item ∈ items, Chain Op.effect 0 (operations item) 0) :
    Chain Op.effect 0 (items.flatMap operations) 0 := by
  induction items with
  | nil => rfl
  | cons item rest ih =>
    exact (each item mem_cons_self).append (ih fun other member =>
      each other (mem_cons_of_mem item member))

theorem Chain.one {op : Op} {start stop : Nat} (enough : op.effect.pops ≤ start)
    (after : op.effect.after start = stop) : Chain Op.effect start [op] stop :=
  ⟨enough, stop, fun _ => after.symm, rfl⟩

/-! ## Pieces of code -/

/-- A piece of code is that of a flow. It needs so many operands, and leaves so many. -/
structure Coded (W : World) (start stop : Nat) (flow : Flow Op) (code : Code) : Prop where
  codes : ∀ n, Codes (Encoded W) n flow code.instrs
  typed : ∀ failed depth, Typed Op.effect failed (depth + start) flow (depth + stop)

namespace Coded

variable {W : World} {start between stop : Nat} {flow flow' : Flow Op} {code code' : Code}

theorem ops {operations : List Op} (each : Forall₂ (Encoded W) operations code.instrs)
    (chain : Chain Op.effect start operations stop) : Coded W start stop (.ops operations) code :=
  ⟨fun _ => .ops each, fun _ depth => .ops (chain.frame depth)⟩

theorem nil : Coded W start start (.ops []) #[] := ops .nil rfl

theorem one {op : Op} {i : Instr} (encoded : Encoded W op i) (span : Span)
    (chain : Chain Op.effect start [op] stop) :
    Coded W start stop (.ops [op]) (Code.one span i) :=
  ops (.cons encoded .nil) chain

theorem append (first : Coded W start between flow code)
    (second : Coded W between stop flow' code') :
    Coded W start stop (flow ++ flow') (code ++ code') where
  codes n := by
    rw [instrs_append]
    exact .seq (first.codes _) (second.codes n)
  typed failed depth := .seq (first.typed failed depth) (second.typed failed depth)

theorem frame (coded : Coded W start stop flow code) (more : Nat) :
    Coded W (more + start) (more + stop) flow code where
  codes := coded.codes
  typed failed depth := by
    have := coded.typed failed (depth + more)
    rwa [Nat.add_assoc, Nat.add_assoc] at this

theorem scope {closings ending : List Op}
    (inside : Coded W start stop (flow ++ .ops ending) code) :
    Coded W start stop (.scope closings flow ending) code where
  codes n := .scope (inside.codes n)
  typed failed depth := .scope (inside.typed failed depth)

theorem skip (kind : JumpKind) (forward : kind ≠ .back) (tests : kind.tests = true) (span : Span)
    {distance : UInt16}
    (body : Coded W (kind.effect.after 1) (kind.effect.after 1) flow code)
    (goes : distance.toNat = code.byteSize) :
    Coded W 1 (kind.effect.after 1) (.skip kind flow)
      (Code.one span (.jump kind distance) ++ code) where
  codes n := by
    rw [instrs_append, instrs_one, singleton_append]
    exact .skip forward (body.codes n) (by rw [goes, byteSize_eq])
  typed failed depth := by
    have after : depth + kind.effect.after 1 = kind.effect.after (depth + 1) := by
      cases kind <;> rfl
    have inside := body.typed failed depth
    rw [after] at inside ⊢
    exact .skip tests inside

theorem choose {past leave : UInt16} (span span' : Span) (yes : Coded W 0 stop flow code)
    (no : Coded W 0 stop flow' code') (pastGoes : past.toNat = code.byteSize + 3)
    (leaveGoes : leave.toNat = code'.byteSize) :
    Coded W 1 stop (.choose flow flow') (Code.one span (.jump .whenFalse past) ++ code ++
      Code.one span' (.jump .always leave) ++ code') where
  codes n := by
    have := Codes.choose (yes.codes _) (no.codes n)
      (by rw [pastGoes, byteSize_eq]) (by rw [leaveGoes, byteSize_eq])
    simpa only [instrs_append, instrs_one, cons_append, nil_append,
      List.append_assoc] using this
  typed failed depth := .choose (yes.typed failed depth) (no.typed failed depth)

theorem loop {leave back : UInt16} (span : Span) (condition : Coded W 0 1 flow code)
    (body : Coded W 0 0 flow' code') (leaveGoes : leave.toNat = code'.byteSize + 3)
    (backGoes : back.toNat = code.byteSize + code'.byteSize + 6) :
    Coded W 0 0 (.loop flow flow') (code ++ Code.one span (.jump .whenFalse leave) ++ code' ++
      Code.one span (.jump .back back)) where
  codes n := by
    have := Codes.loop (condition.codes _) (body.codes (3 + n))
      (by rw [leaveGoes, byteSize_eq]) (by rw [backGoes, byteSize_eq, byteSize_eq])
    simpa only [instrs_append, instrs_one, cons_append, nil_append,
      List.append_assoc] using this
  typed failed depth := .loop (condition.typed failed depth) (body.typed failed depth)

end Coded

end StackCode
