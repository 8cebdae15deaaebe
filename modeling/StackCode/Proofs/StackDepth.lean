import StackCode.Proofs.Decoding
import StackCode.Proofs.Flow

/-!
# The depth of the stack

`Reaches` follows the paths through a piece of code and counts the operands, and `Passes` says that
the code is in order: whichever way an instruction is reached there are as many operands, and enough
of them.

A flow is checked without looking at its paths (`Typed`). That this is enough is shown with a
labelling of the places of its code, which are put together where pieces meet (`Labels.append`).
-/

namespace StackCode

open List Option

variable {instrs : List Instr} {x : Int}

/-! ## Instructions -/

/-- What an operation does to the stack. -/
structure Effect where
  /-- How many operands it takes. -/
  pops : Nat
  /-- How many it leaves in their place. -/
  pushes : Nat
  /-- Whether nothing runs behind it. -/
  ends : Bool
deriving DecidableEq, Repr

/-- The depth behind an effect. -/
def Effect.after (e : Effect) (depth : Nat) : Nat := depth - e.pops + e.pushes

/-- What an operation without operands in the code does to the stack. -/
def PlainOp.effect : PlainOp → Effect
  | .pop => ⟨1, 0, false⟩
  | .pushNil => ⟨0, 1, false⟩
  | .pushTrue => ⟨0, 1, false⟩
  | .pushFalse => ⟨0, 1, false⟩
  | .pushSelf => ⟨0, 1, false⟩
  | .defConst => ⟨3, 0, false⟩
  | .setSuperclass => ⟨2, 0, false⟩
  | .includeMixin => ⟨2, 0, false⟩
  | .getSingleton => ⟨1, 1, false⟩
  | .defIvars => ⟨2, 0, false⟩
  | .defMethod => ⟨3, 0, false⟩
  | .defGetter => ⟨2, 0, false⟩
  | .defSetter => ⟨2, 0, false⟩
  | .defMethodAlias => ⟨3, 0, false⟩
  | .initNamespace => ⟨2, 0, false⟩
  | .exec => ⟨1, 1, false⟩
  | .unary _ => ⟨1, 1, false⟩
  | .binary _ => ⟨2, 1, false⟩
  | .subscript => ⟨2, 1, false⟩
  | .isA => ⟨2, 1, false⟩
  | .length => ⟨1, 1, false⟩
  | .hasKey => ⟨2, 1, false⟩
  | .raise => ⟨1, 0, true⟩
  | .ret => ⟨1, 0, true⟩

/-- What an operation of a family does to the stack. A store keeps the value. -/
def Family.effect (family : Family) (index : Nat) : Effect :=
  match family with
  | .getLocal => ⟨0, 1, false⟩
  | .setLocal => ⟨1, 1, false⟩
  | .closeUpvalue => ⟨0, 0, false⟩
  | .getUpvalue => ⟨0, 1, false⟩
  | .setUpvalue => ⟨1, 1, false⟩
  | .loadValue => ⟨0, 1, false⟩
  | .getConst => ⟨0, 1, false⟩
  | .getIvar => ⟨0, 1, false⟩
  | .setIvar => ⟨1, 1, false⟩
  | .getIvarName => ⟨0, 1, false⟩
  | .setIvarName => ⟨1, 1, false⟩
  | .prepLocals => ⟨0, 0, false⟩
  | .newList => ⟨index, 1, false⟩
  | .newTuple => ⟨index, 1, false⟩
  | .newMap => ⟨2 * index, 1, false⟩

/-- The effect of a call. -/
def CallKind.effect (kind : CallKind) (count : Nat) : Effect :=
  match kind with
  | .method => ⟨count + 1, 1, false⟩
  | .self => ⟨count, 1, false⟩

/-- Whether a jump keeps the value that it looks at. -/
def JumpKind.keeps : JumpKind → Bool
  | .whenFalseKeep => true
  | .whenTrueKeep => true
  | _ => false

/-- Whether a jump looks at a value, and may go on behind itself. -/
def JumpKind.tests : JumpKind → Bool
  | .always => false
  | .back => false
  | _ => true

/-- The effect of a jump. -/
def JumpKind.effect (kind : JumpKind) : Effect :=
  match kind.tests, kind.keeps with
  | true, true => ⟨1, 1, false⟩
  | true, false => ⟨1, 0, false⟩
  | false, _ => ⟨0, 0, false⟩

/-- The effect of an instruction. -/
def Instr.effect : Instr → Effect
  | .plain op => op.effect
  | .int _ => ⟨0, 1, false⟩
  | .indexed family index => family.effect index.toNat
  | .send kind _ argc => kind.effect argc.toNat
  | .call argc => ⟨argc.toNat + 1, 1, false⟩
  | .instantiate argc => ⟨argc.toNat + 1, 1, false⟩
  | .defNamespace _ => ⟨2, 0, false⟩
  | .slice _ _ => ⟨1, 1, false⟩
  | .jump kind _ => kind.effect
  | .closure _ _ => ⟨0, 1, false⟩

/-- Where an instruction at a place may go on. -/
def Instr.successors (place : Int) (i : Instr) : List Int :=
  match i with
  | .jump kind _ =>
    (if kind.tests then [place + i.size] else []) ++ (i.target? place).toList
  | _ => if i.effect.ends then [] else [place + i.size]

/-! ## Paths -/

/-- A path through some code, from its start with some operands, comes to a place with a number
of operands. -/
inductive Reaches (code : Array UInt8) (start : Nat) : Int → Nat → Prop where
  | start : Reaches code start 0 start
  | step {place next : Int} {depth : Nat} {i : Instr} (here : Reaches code start place depth)
      (found : instrAt? code place = some i) (enough : i.effect.pops ≤ depth)
      (goes : next ∈ i.successors place) : Reaches code start next (i.effect.after depth)

/-- Every path through some code finds, at each place it comes to, an instruction with enough
operands, and as many of them as every other path finds there. If the code can be left at its end at
all, that is with `stop` operands. -/
structure Passes (code : Array UInt8) (start : Nat) (stop : Option Nat) : Prop where
  unique : ∀ {place : Int} {depth depth' : Nat}, Reaches code start place depth →
    Reaches code start place depth' → depth = depth'
  runs : ∀ {place : Int} {depth : Nat}, Reaches code start place depth →
    (∃ i, instrAt? code place = some i ∧ i.effect.pops ≤ depth) ∨
      place = code.size ∧ stop = some depth

/-! ## Labels -/

/-- Every instruction has enough operands by the labels of the places, and goes on only where
that is right. -/
def Labels (label : Int → Nat) (right : Int → Nat → Prop) : Int → List Instr → Prop
  | _, [] => True
  | place, i :: rest => i.effect.pops ≤ label place ∧
      (∀ next ∈ i.successors place, right next (i.effect.after (label place))) ∧
      Labels label right (place + i.size) rest

namespace Labels

variable {label label' : Int → Nat} {right right' : Int → Nat → Prop} {place : Int}
  {a b : List Instr}

theorem append (first : Labels label right place a)
    (second : Labels label right (place + codeSize a) b) : Labels label right place (a ++ b) := by
  induction a generalizing place with
  | nil => simpa using second
  | cons i rest ih =>
    obtain ⟨enough, goes, others⟩ := first
    refine ⟨enough, goes, ih others ?_⟩
    rwa [codeSize_cons, Int.natCast_add, ← Int.add_assoc] at second

theorem mono (labels : Labels label right place a)
    (weaker : ∀ next depth, right next depth → right' next depth) :
    Labels label right' place a := by
  induction a generalizing place with
  | nil => trivial
  | cons i rest ih =>
    obtain ⟨enough, goes, others⟩ := labels
    exact ⟨enough, fun next member => weaker _ _ (goes next member), ih others⟩

theorem congr (labels : Labels label right place a)
    (same : ∀ x ∈ cuts place a, label' x = label x) : Labels label' right place a := by
  induction a generalizing place with
  | nil => trivial
  | cons i rest ih =>
    obtain ⟨enough, goes, others⟩ := labels
    have here : label' place = label place := same place (mem_cuts_self place _)
    refine ⟨by rwa [here], fun next member => ?_, ih others fun x member => ?_⟩
    · rw [here]
      exact goes next member
    · exact same x (mem_cons_of_mem _ member)

theorem get {before after : List Instr} {i : Instr}
    (labels : Labels label right place (before ++ i :: after)) :
    i.effect.pops ≤ label (place + codeSize before) ∧
      ∀ next ∈ i.successors (place + codeSize before),
        right next (i.effect.after (label (place + codeSize before))) := by
  induction before generalizing place with
  | nil => simpa using ⟨labels.1, labels.2.1⟩
  | cons first before ih =>
    have := ih labels.2.2
    rwa [codeSize_cons, Int.natCast_add, ← Int.add_assoc]

end Labels

theorem cuts_bounds {place : Int} (member : x ∈ cuts place instrs) :
    place ≤ x ∧ x ≤ place + codeSize instrs := by
  induction instrs generalizing place with
  | nil =>
    have := mem_singleton.1 member
    simp only [codeSize_nil, Int.natCast_zero, Int.add_zero]
    omega
  | cons i rest ih =>
    rw [codeSize_cons, Int.natCast_add]
    rcases mem_cons.1 member with rfl | later
    · omega
    · have := ih later
      omega

/-- The labels of the places before a boundary, and of those from there on. -/
def glue (boundary : Int) (low high : Int → Nat) (x : Int) : Nat :=
  if x < boundary then low x else high x

theorem glue_low {boundary : Int} {low high : Int → Nat} (before : x < boundary) :
    glue boundary low high x = low x :=
  if_pos before

theorem glue_high {boundary : Int} {low high : Int → Nat} (behind : boundary ≤ x) :
    glue boundary low high x = high x :=
  if_neg (Int.not_lt.2 behind)

/-- Code is left for one place only, with one depth of the stack. -/
abbrev Only (place : Int) (depth : Nat) : Int → Nat → Prop := fun next after =>
  next = place ∧ after = depth

/-- Some code that stands at a place takes the stack from one depth to another, and is left for
another place than its end only as `leaves` says. -/
def Labelled (leaves : Int → Nat → Prop) (start stop : Nat) (place : Int) (instrs : List Instr) :
    Prop :=
  ∃ label : Int → Nat, label place = start ∧ label (place + codeSize instrs) = stop ∧
    Labels label (fun next depth => next ∈ cuts place instrs ∧ label next = depth ∨
      leaves next depth) place instrs

namespace Labelled

variable {leaves early late : Int → Nat → Prop} {start between stop : Nat} {place : Int}
  {a b : List Instr} {i : Instr}

/-- **Two pieces, one behind the other.** The first may be left for the end of the second, and the
second for the start of the first. -/
theorem append (first : Labelled early start between place a)
    (second : Labelled late between stop (place + codeSize a) b)
    (forward : ∀ next depth, early next depth →
      next = place + codeSize a + codeSize b ∧ depth = stop ∨ leaves next depth)
    (back : ∀ next depth, late next depth → next = place ∧ depth = start ∨ leaves next depth) :
    Labelled leaves start stop place (a ++ b) := by
  obtain ⟨low, lowStart, lowStop, lowLabels⟩ := first
  obtain ⟨high, highStart, highStop, highLabels⟩ := second
  -- Where the pieces meet both labellings say the same.
  let label := glue (place + codeSize a) low high
  have onFirst (x : Int) (member : x ∈ cuts place a) : label x = low x := by
    rcases Int.lt_or_eq_of_le (cuts_bounds member).2 with before | rfl
    · exact glue_low before
    · rw [lowStop, ← highStart]
      exact glue_high (Int.le_refl _)
  have onSecond (x : Int) (member : x ∈ cuts (place + codeSize a) b) : label x = high x :=
    glue_high (cuts_bounds member).1
  have atStart : label place = start := by
    rw [onFirst place (mem_cuts_self place a), lowStart]
  have atStop : label (place + codeSize a + codeSize b) = stop := by
    rw [onSecond _ (mem_cuts_end _ b), highStop]
  refine ⟨label, atStart, ?_, ?_⟩
  · rw [codeSize_append, Int.natCast_add, ← Int.add_assoc]
    exact atStop
  · refine ((lowLabels.congr onFirst).mono ?_).append ((highLabels.congr onSecond).mono ?_)
    · rintro next depth (⟨cut, same⟩ | left)
      · exact .inl ⟨mem_cuts_append.2 (.inl cut), (onFirst next cut).trans same⟩
      · rcases forward next depth left with ⟨rfl, rfl⟩ | outside
        · exact .inl ⟨mem_cuts_append.2 (.inr (mem_cuts_end _ b)), atStop⟩
        · exact .inr outside
    · rintro next depth (⟨cut, same⟩ | left)
      · exact .inl ⟨mem_cuts_append.2 (.inr cut), (onSecond next cut).trans same⟩
      · rcases back next depth left with ⟨rfl, rfl⟩ | outside
        · exact .inl ⟨mem_cuts_self _ _, atStart⟩
        · exact .inr outside

theorem nil : Labelled leaves start start place [] :=
  ⟨fun _ => start, rfl, rfl, trivial⟩

/-- One instruction. Where it does not go on behind itself, any depth will do there. -/
theorem one (enough : i.effect.pops ≤ start)
    (goes : ∀ next ∈ i.successors place, next = place + i.size ∧ i.effect.after start = stop ∨
      leaves next (i.effect.after start)) :
    Labelled leaves start stop place [i] := by
  have size : (codeSize [i] : Int) = i.size := by simp
  let label := glue (place + i.size) (fun _ => start) fun _ => stop
  have atStart : label place = start := by
    refine glue_low ?_
    have := i.size_pos
    omega
  have atStop : label (place + i.size) = stop := glue_high (Int.le_refl _)
  refine ⟨label, atStart, ?_, ?_, fun next member => ?_, trivial⟩
  · rw [size]
    exact atStop
  · rwa [atStart]
  · rw [atStart]
    rcases goes next member with ⟨rfl, same⟩ | outside
    · exact .inl ⟨by rw [← size]; exact mem_cuts_end place [i], atStop.trans same.symm⟩
    · exact .inr outside

theorem test {kind : JumpKind} {distance : UInt16} (forward : kind ≠ .back)
    (tests : kind.tests = true) (depth : Nat)
    (goes : leaves (place + 3 + distance.toNat) (kind.effect.after (depth + 1))) :
    Labelled leaves (depth + 1) (kind.effect.after (depth + 1)) place [.jump kind distance] := by
  have enough : kind.effect.pops ≤ depth + 1 := by
    cases kind <;> simp [JumpKind.effect, JumpKind.tests, JumpKind.keeps]
  refine one enough fun next member => ?_
  have target : (Instr.jump kind distance).target? place = some (place + 3 + distance.toNat) := by
    cases kind <;> first | rfl | exact absurd rfl forward
  simp only [Instr.successors, tests, target, if_true, toList_some, mem_append,
    mem_singleton] at member
  rcases member with rfl | rfl
  · exact .inl ⟨rfl, rfl⟩
  · exact .inr goes

/-- A jump that is always taken. Any depth will do behind it. -/
theorem leave {kind : JumpKind} {distance : UInt16} {target : Int}
    (always : kind.effect.pops = 0 ∧ kind.tests = false)
    (lands : (Instr.jump kind distance).target? place = some target)
    (goes : leaves target (kind.effect.after start)) :
    Labelled leaves start stop place [.jump kind distance] := by
  refine one (always.1 ▸ Nat.zero_le start) fun next member => .inr ?_
  simp only [Instr.successors, always.2, lands, toList_some, mem_append, mem_singleton] at member
  rcases member with never | rfl
  · cases never
  · exact goes

end Labelled

/-! ## Flows -/

variable {α : Type}

/-- Operations one behind the other take the stack from one depth to another. Behind an operation
that ends a function nothing is known of the stack, and any depth will do. -/
def Chain (effect : α → Effect) : Nat → List α → Nat → Prop
  | start, [], stop => start = stop
  | start, a :: rest, stop => (effect a).pops ≤ start ∧ ∃ between,
      ((effect a).ends = false → between = (effect a).after start) ∧ Chain effect between rest stop

/-- A flow takes the stack from one depth to another, and has `failed` operands where its checks
fail. -/
inductive Typed (effect : α → Effect) : Nat → Nat → Flow α → Nat → Prop where
  | ops {failed start stop : Nat} {operations : List α}
      (chain : Chain effect start operations stop) :
      Typed effect failed start (.ops operations) stop
  | seq {failed start between stop : Nat} {first second : Flow α}
      (isFirst : Typed effect failed start first between)
      (isSecond : Typed effect failed between second stop) :
      Typed effect failed start (.seq first second) stop
  | require {depth : Nat} : Typed effect depth (depth + 1) .require depth
  | skip {failed depth : Nat} {kind : JumpKind} {body : Flow α} (tests : kind.tests = true)
      (isBody : Typed effect failed (kind.effect.after (depth + 1)) body
        (kind.effect.after (depth + 1))) :
      Typed effect failed (depth + 1) (.skip kind body) (kind.effect.after (depth + 1))
  | choose {failed depth stop : Nat} {yes no : Flow α} (isYes : Typed effect failed depth yes stop)
      (isNo : Typed effect failed depth no stop) :
      Typed effect failed (depth + 1) (.choose yes no) stop
  | loop {failed depth : Nat} {condition body : Flow α}
      (isCondition : Typed effect failed depth condition (depth + 1))
      (isBody : Typed effect failed depth body depth) :
      Typed effect failed depth (.loop condition body) depth
  | attempt {failed between start stop : Nat} {checks otherwise : Flow α}
      (isChecks : Typed effect between start checks stop)
      (isOtherwise : Typed effect failed between otherwise stop) :
      Typed effect failed start (.attempt checks otherwise) stop
  | scope {failed start stop : Nat} {closings ending : List α} {block : Flow α}
      (inside : Typed effect failed start (.seq block (.ops ending)) stop) :
      Typed effect failed start (.scope closings block ending) stop

/-! ## Labels of flows -/

/-- Each operation is written as an instruction that does the same to the stack. -/
def SameEffect (effect : α → Effect) (Writes : α → Instr → Prop) : Prop :=
  ∀ a i, Writes a i → i.isJump = false ∧ i.effect = effect a

theorem successors_straight {i : Instr} (straight : i.isJump = false) (place : Int) :
    i.successors place = if i.effect.ends then [] else [place + i.size] := by
  cases i <;> first | rfl | cases straight

variable {effect : α → Effect} {Writes : α → Instr → Prop}

theorem labelled_ops (same : SameEffect effect Writes) {operations : List α}
    (each : Forall₂ Writes operations instrs) {leaves : Int → Nat → Prop} {start stop : Nat}
    (chain : Chain effect start operations stop) (place : Int) :
    Labelled leaves start stop place instrs := by
  induction each generalizing start place with
  | nil =>
    cases chain
    exact .nil
  | @cons a i operations instrs writes _ ih =>
    obtain ⟨straight, effect_eq⟩ := same a i writes
    obtain ⟨enough, between, falls, rest⟩ := chain
    have first : Labelled leaves start between place [i] := by
      rw [← effect_eq] at enough falls
      refine .one enough fun next member => ?_
      rw [successors_straight straight] at member
      cases ends : i.effect.ends with
      | true => simp [ends] at member
      | false =>
        simp only [ends, Bool.false_eq_true, if_false, mem_singleton] at member
        exact .inl ⟨member, (falls ends).symm⟩
    exact first.append (ih rest _) (fun _ _ => .inr) fun _ _ => .inr

/-- **The code of a flow is labelled as the flow is typed.** -/
theorem Codes.labelled (same : SameEffect effect Writes) {n : Nat} {flow : Flow α}
 (codes : Codes Writes n flow instrs) {failed start stop : Nat}
    (typed : Typed effect failed start flow stop) (place : Int) :
    Labelled (Only (place + codeSize instrs + n) failed) start stop place instrs := by
  induction codes generalizing failed start stop place with
  | ops each =>
    cases typed with
    | ops chain => exact labelled_ops same each chain place
  | seq _ _ first second =>
    cases typed with
    | seq isFirst isSecond =>
      refine (first isFirst place).append (second isSecond _) ?_ ?_
      · rintro next depth ⟨rfl, rfl⟩
        exact .inr ⟨by rw [codeSize_append]; push_cast; omega, rfl⟩
      · rintro next depth ⟨rfl, rfl⟩
        exact .inr ⟨by rw [codeSize_append]; push_cast; omega, rfl⟩
  | require goes =>
    cases typed with
    | require => exact .test (by decide) rfl _ ⟨by simp [goes], rfl⟩
  | @skip n kind body bodies distance forward _ goes isBody =>
    cases typed with
    | @skip _ depth _ _ tests typedBody =>
      have jump : Labelled (Only (place + 3 + codeSize bodies) (kind.effect.after (depth + 1)))
          (depth + 1) (kind.effect.after (depth + 1)) place [.jump kind distance] :=
        .test forward tests depth ⟨by rw [goes], rfl⟩
      refine jump.append (isBody typedBody _) ?_ ?_
      · rintro next after ⟨rfl, rfl⟩
        exact .inl ⟨rfl, rfl⟩
      · rintro next after ⟨rfl, rfl⟩
        exact .inr ⟨by simp; omega, rfl⟩
  | @choose n yes no yeses noes past leave _ _ pastGoes leaveGoes isYes isNo =>
    cases typed with
    | @choose _ depth _ _ _ typedYes typedNo =>
      -- The two jumps leave for the start and for the end of the second branch.
      let last : Int := place + 3 + codeSize yeses + 3 + codeSize noes
      have first : Labelled (Only (place + 3 + codeSize yeses + 3) depth) (depth + 1) depth place
          [.jump .whenFalse past] :=
        .test (by decide) rfl depth ⟨by rw [pastGoes]; push_cast; omega, rfl⟩
      have done : Labelled (Only last stop) stop depth (place + 3 + codeSize yeses)
          [.jump .always leave] :=
        .leave ⟨rfl, rfl⟩ rfl ⟨by rw [leaveGoes], rfl⟩
      have inside : Labelled (fun next after => next = last ∧ after = stop ∨
          next = last + n ∧ after = failed) depth depth (place + 3)
          (yeses ++ [.jump .always leave]) := by
        refine (isYes typedYes (place + 3)).append done ?_ fun next after left => .inr (.inl left)
        rintro next after ⟨rfl, rfl⟩
        exact .inr (.inr ⟨by simp [last]; omega, rfl⟩)
      have front : Labelled (fun next after => next = last ∧ after = stop ∨
          next = last + n ∧ after = failed) (depth + 1) depth place
          ([.jump .whenFalse past] ++ (yeses ++ [.jump .always leave])) := by
        refine first.append inside ?_ fun next after left => .inr left
        rintro next after ⟨rfl, rfl⟩
        exact .inl ⟨by simp; omega, rfl⟩
      have whole : Labelled (Only (last + n) failed) (depth + 1) stop
          place ([.jump .whenFalse past] ++ (yeses ++ [.jump .always leave]) ++ noes) := by
        refine front.append (isNo typedNo _) ?_ ?_
        · rintro next after (⟨rfl, rfl⟩ | left)
          · exact .inl ⟨by simp [last]; omega, rfl⟩
          · exact .inr left
        · rintro next after ⟨rfl, rfl⟩
          exact .inr ⟨by simp [last]; omega, rfl⟩
      have size : last = place + codeSize (.jump .whenFalse past ::
          (yeses ++ .jump .always leave :: noes)) := by
        simp [last]
        omega
      rw [size] at whole
      simpa using whole
  | @loop n condition body conditions bodies leave back _ _ leaveGoes backGoes isCondition isBody =>
    cases typed with
    | loop typedCondition typedBody =>
      let last : Int := place + codeSize conditions + 3 + codeSize bodies + 3
      have exit : Labelled (Only last start) (start + 1) start
          (place + codeSize conditions) [.jump .whenFalse leave] :=
        .test (by decide) rfl start ⟨by rw [leaveGoes]; simp only [last]; push_cast; omega, rfl⟩
      have front : Labelled (fun next after => next = last ∧ after = start ∨
          next = last + n ∧ after = failed) start start place
          (conditions ++ [.jump .whenFalse leave]) := by
        refine (isCondition typedCondition place).append exit ?_ fun next after left =>
          .inr (.inl left)
        rintro next after ⟨rfl, rfl⟩
        exact .inr (.inr ⟨by simp only [last]; push_cast; omega, rfl⟩)
      have once : Labelled (fun next after => next = last ∧ after = start ∨
          next = last + n ∧ after = failed) start start place
          (conditions ++ [.jump .whenFalse leave] ++ bodies) := by
        refine front.append (isBody typedBody _) (fun next after left => .inr left) ?_
        rintro next after ⟨rfl, rfl⟩
        exact .inr (.inr ⟨by simp [last]; omega, rfl⟩)
      -- The jump back goes to the start, and the loop is left behind it.
      have again : Labelled (Only place start) start start
          (place + codeSize (conditions ++ [.jump .whenFalse leave] ++ bodies))
          [.jump .back back] :=
        .leave ⟨rfl, rfl⟩ rfl ⟨by rw [backGoes]; simp; omega, rfl⟩
      have whole : Labelled (Only (last + n) failed) start start place
          (conditions ++ [.jump .whenFalse leave] ++ bodies ++ [.jump .back back]) := by
        refine once.append again ?_ fun next after left => .inl left
        rintro next after (⟨rfl, rfl⟩ | left)
        · exact .inl ⟨by simp [last]; omega, rfl⟩
        · exact .inr left
      have size : last = place + codeSize (conditions ++ .jump .whenFalse leave ::
          (bodies ++ [.jump .back back])) := by
        simp [last]
        omega
      rw [size] at whole
      simpa using whole
  | @attempt n checks otherwise checked instead leave _ _ leaveGoes isChecks isOtherwise =>
    cases typed with
    | @attempt _ between _ _ _ _ typedChecks typedOtherwise =>
      let last : Int := place + codeSize checked + 3 + codeSize instead
      have done : Labelled (Only last stop) stop between
          (place + codeSize checked) [.jump .always leave] :=
        .leave ⟨rfl, rfl⟩ rfl ⟨by rw [leaveGoes], rfl⟩
      -- Checks that fail leave for behind the jump.
      have front : Labelled (Only last stop) start between place
          (checked ++ [.jump .always leave]) := by
        refine (isChecks typedChecks place).append done ?_ fun next after left => .inr left
        rintro next after ⟨rfl, rfl⟩
        exact .inl ⟨by simp, rfl⟩
      have whole : Labelled (Only (last + n) failed) start stop place
          (checked ++ [.jump .always leave] ++ instead) := by
        refine front.append (isOtherwise typedOtherwise _) ?_ ?_
        · rintro next after ⟨rfl, rfl⟩
          exact .inl ⟨by simp [last]; omega, rfl⟩
        · rintro next after ⟨rfl, rfl⟩
          exact .inr ⟨by simp [last]; omega, rfl⟩
      have size : last = place + codeSize (checked ++ .jump .always leave :: instead) := by
        simp [last]
        omega
      rw [size] at whole
      simpa using whole
  | scope _ inside =>
    cases typed with
    | scope typedInside => exact inside typedInside place

/-! ## Paths through labelled code -/

theorem mem_cuts_cases {place : Int} (cut : x ∈ cuts place instrs) :
    (∃ before i after, instrs = before ++ i :: after ∧ x = place + codeSize before) ∨
      x = place + codeSize instrs := by
  induction instrs generalizing place with
  | nil => exact .inr (by simpa [cuts] using cut)
  | cons i rest ih =>
    rcases mem_cons.1 cut with rfl | later
    · exact .inl ⟨[], i, rest, rfl, by simp⟩
    · rcases ih later with ⟨before, j, after, rfl, rfl⟩ | rfl
      · exact .inl ⟨i :: before, j, after, rfl, by rw [codeSize_cons]; push_cast; omega⟩
      · exact .inr (by rw [codeSize_cons]; push_cast; omega)

namespace Labelled

variable {start stop : Nat} {code : Array UInt8} {instrs : List Instr} {place : Int} {depth : Nat}

section

variable (written : WrittenAs code instrs)
  (labelled : Labelled (Only (codeSize instrs) stop) start stop 0 instrs)

include written labelled

/-- Along every path the depth at a place is its label. -/
theorem reaches :
    ∃ label : Int → Nat, label (codeSize instrs) = stop ∧
      ∀ {place : Int} {depth : Nat}, Reaches code start place depth →
        place ∈ cuts 0 instrs ∧ label place = depth ∧
          ∀ i, instrAt? code place = some i → i.effect.pops ≤ depth := by
  obtain ⟨label, atStart, atStop, labels⟩ := labelled
  rw [Int.zero_add] at atStop
  have inside : ∀ {place : Int} {depth : Nat}, Reaches code start place depth →
      place ∈ cuts 0 instrs ∧ label place = depth := by
    intro place depth reached
    induction reached with
    | start => exact ⟨mem_cuts_self 0 instrs, atStart⟩
    | step _ found _ goes ih =>
      obtain ⟨before, after, rfl, rfl⟩ := written.of_instrAt? found
      obtain ⟨-, right⟩ := labels.get
      rw [Int.zero_add, ih.2] at right
      rcases right _ goes with stays | ⟨rfl, rfl⟩
      · exact stays
      · exact ⟨mem_cuts_end_zero _, atStop⟩
  refine ⟨label, atStop, fun reached => ?_⟩
  obtain ⟨cut, same⟩ := inside reached
  refine ⟨cut, same, fun i found => ?_⟩
  obtain ⟨before, after, rfl, rfl⟩ := written.of_instrAt? found
  have := labels.get.1
  rwa [Int.zero_add, same] at this

/-- A path is at an instruction that it has enough operands for, or at the end. -/
theorem runs (reached : Reaches code start place depth) :
    (∃ i, instrAt? code place = some i ∧ i.effect.pops ≤ depth) ∨
      place = code.size ∧ depth = stop := by
  obtain ⟨label, atStop, onPath⟩ := reaches written labelled
  obtain ⟨cut, same, enough⟩ := onPath reached
  rcases mem_cuts_cases cut with ⟨before, i, after, rfl, rfl⟩ | rfl
  · rw [Int.zero_add] at enough ⊢
    exact .inl ⟨i, written.instrAt?, enough i written.instrAt?⟩
  · refine .inr ⟨by rw [written.size]; simp, ?_⟩
    rw [Int.zero_add, atStop] at same
    exact same.symm

theorem unique {depth' : Nat} (reached : Reaches code start place depth)
    (reached' : Reaches code start place depth') : depth = depth' := by
  obtain ⟨label, -, onPath⟩ := reaches written labelled
  exact (onPath reached).2.1.symm.trans (onPath reached').2.1

theorem passes : Passes code start (some stop) where
  unique := unique written labelled
  runs reached := by
    rcases runs written labelled reached with inside | ⟨atEnd, rfl⟩
    · exact .inl inside
    · exact .inr ⟨atEnd, rfl⟩

end

theorem passes_none (written : WrittenAs code instrs)
    (labelled : ∀ stop, Labelled (Only (codeSize instrs) stop) start
      stop 0 instrs) : Passes code start none where
  unique := (labelled 0).unique written
  runs reached := by
    rcases (labelled 0).runs written reached with inside | ⟨-, zero⟩
    · exact .inl inside
    · rcases (labelled 1).runs written reached with inside | ⟨-, one⟩
      · exact .inl inside
      · omega

end Labelled

end StackCode
