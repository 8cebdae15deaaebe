import Mathlib.Data.List.Nodup
import StackCode.Proofs.TidyPrograms
import StackCode.Proofs.UnitPieces
import StackCode.Proofs.Ways

/-!
# Captured slots are closed once

Behind the block of a scope there is one instruction for each of its variables that a closure took
(`Region.ClosedIn`). Whatever way control takes from where the variable is taken to a place outside
of the scope, it passes the instruction that closes the variable exactly once: loops stay inside the
scope or begin it anew, and no jump goes past its end.
-/

namespace StackCode

open List Option

variable {f : CompiledFunction} {scheme : Scheme}

/-! ## The functions of a unit -/

/-- A function stands in the text of another one, at any depth, or is that function. -/
inductive Scheme.Within (scheme : Scheme) : Scheme → Prop where
  | self : Within scheme scheme
  | inside {outer inner : Scheme} {op : Op} (member : op ∈ outer.body.operations)
      (isInner : op.scheme? = some inner) (within : Within scheme inner) : Within scheme outer

theorem Scheme.Tidy.within {outer : Scheme} (tidy : outer.Tidy)
    (within : scheme.Within outer) : scheme.Tidy := by
  induction within with
  | self => exact tidy
  | inside member isInner _ ih =>
    cases tidy with
    | intro _ _ inner => exact ih (inner _ member _ isInner)

theorem CompiledFunction.mem_walk_self (f : CompiledFunction) : f ∈ f.walk := by
  obtain ⟨name, code, location, lines, constants, required, optional, upvalues⟩ := f
  exact mem_cons_self

theorem CompiledFunction.mem_walk_of_constant {g h : CompiledFunction}
    (constant : .function g ∈ f.constants) (member : h ∈ g.walk) : h ∈ f.walk := by
  obtain ⟨name, code, location, lines, constants, required, optional, upvalues⟩ := f
  rw [walk, walkPool_eq]
  exact mem_cons_of_mem _ (mem_flatMap.2 ⟨g, mem_filterMap.2 ⟨_, constant, rfl⟩, member⟩)

theorem Encoded.exists_constant {W : World} {op : Op} {i : Instr} (encoded : Encoded W op i)
    (isScheme : op.scheme? = some scheme) : ∃ g, .function g ∈ W.pool ∧ Built scheme g := by
  cases encoded with
  | function built noCapture found =>
    cases isScheme
    exact ⟨_, mem_of_getElem? found, built⟩
  | closure built found fit captures =>
    cases isScheme
    exact ⟨_, mem_of_getElem? found, built⟩
  | _ => cases isScheme

theorem Built.within {outer : Scheme} (built : Built outer f)
    (within : scheme.Within outer) : ∃ g ∈ f.walk, Built scheme g := by
  induction within generalizing f with
  | self => exact ⟨f, f.mem_walk_self, built⟩
  | inside member isInner _ ih =>
    cases built with
    | intro _ each _ =>
      obtain ⟨i, -, encoded⟩ := exists_of_forall₂ (builtOps_iff.1 each).flip member
      obtain ⟨g, constant, builtInner⟩ := encoded.exists_constant isInner
      obtain ⟨h, inside, isBuilt⟩ := ih builtInner
      exact ⟨h, CompiledFunction.mem_walk_of_constant constant inside, isBuilt⟩

/-! ## Code of built functions -/

theorem forall₂_append_cancel {α β : Type} {R : α → β → Prop} {a b : List α} {c d : List β}
    (related : Forall₂ R (a ++ b) (c ++ d)) (same : a.length = c.length) :
    Forall₂ R a c ∧ Forall₂ R b d := by
  have front := forall₂_take_append _ _ _ related
  have rear := forall₂_drop_append _ _ _ related
  rw [← same, take_left] at front
  rw [← same, drop_left] at rear
  exact ⟨front, rear⟩

/-- Instructions that go as a flow does, and write its operations one by one, are its code. -/
theorem Codes.of_straight {α : Type} {Shape Writes : α → Instr → Prop} {n : Nat} {flow : Flow α}
    {instrs : List Instr} (noJumps : ∀ a i, Shape a i → i.isJump = false)
    (shape : Codes Shape n flow instrs)
    (each : Forall₂ Writes flow.operations (instrs.filter fun i => !i.isJump)) :
    Codes Writes n flow instrs := by
  have jump (kind : JumpKind) (distance : UInt16) (rest : List Instr) :
      (Instr.jump kind distance :: rest).filter (fun i => !i.isJump) =
        rest.filter fun i => !i.isJump := rfl
  induction shape with
  | @ops n operations instrs shapes =>
    have kept : instrs.filter (fun i => !i.isJump) = instrs := by
      rw [filter_eq_self]
      intro i member
      obtain ⟨a, -, isShape⟩ := exists_of_forall₂ shapes member
      simp [noJumps a i isShape]
    rw [kept] at each
    exact .ops each
  | seq first second isFirst isSecond =>
    rw [filter_append] at each
    obtain ⟨front, rear⟩ := forall₂_append_cancel each (first.straight noJumps).length_eq
    exact .seq (isFirst front) (isSecond rear)
  | require goes => exact .require goes
  | skip forward _ goes isBody => exact .skip forward (isBody each) goes
  | choose yes no pastGoes leaveGoes isYes isNo =>
    rw [jump, filter_append, jump] at each
    obtain ⟨front, rear⟩ := forall₂_append_cancel each (yes.straight noJumps).length_eq
    exact .choose (isYes front) (isNo rear) pastGoes leaveGoes
  | loop condition body leaveGoes backGoes isCondition isBody =>
    rw [filter_append, jump, filter_append, jump, filter_nil, append_nil] at each
    obtain ⟨front, rear⟩ := forall₂_append_cancel each (condition.straight noJumps).length_eq
    exact .loop (isCondition front) (isBody rear) leaveGoes backGoes
  | attempt checks otherwise leaveGoes isChecks isOtherwise =>
    rw [filter_append, jump] at each
    obtain ⟨front, rear⟩ := forall₂_append_cancel each (checks.straight noJumps).length_eq
    exact .attempt (isChecks front) (isOtherwise rear) leaveGoes
  | scope _ inside => exact .scope (inside each)

/-- How often a function makes room for variables. -/
def CompiledFunction.roomCount (f : CompiledFunction) : Nat :=
  f.reads.countP fun i => i.room?.isSome

/-- **The code of a built function is that of its scheme.** -/
theorem Built.codes (built : Built scheme f) :
    ∃ room instrs, WrittenAs f.code (room ++ instrs) ∧ room.length = f.roomCount ∧
      Codes (Encoded (f.world scheme.captured)) 0 scheme.body instrs := by
  cases built with
  | intro _ each jumps =>
    obtain ⟨room, instrs, written, isRoom, shape⟩ := jumps
    have noRoom : ∀ i ∈ instrs, i.room? = none := by
      intro i member
      cases isJump : i.isJump with
      | true => cases i <;> first | rfl | cases isJump
      | false =>
        have straight := shape.straight fun _ _ isShape => isShape.1
        obtain ⟨_, -, isShape⟩ :=
          exists_of_forall₂ straight (mem_filter.2 ⟨member, by rw [isJump]; rfl⟩)
        exact isShape.2
    refine ⟨room, instrs, written, ?_, shape.of_straight (fun _ _ isShape => isShape.1) ?_⟩
    · have none : instrs.countP (fun i => i.room?.isSome) = 0 := by
        rw [countP_eq_zero]
        intro i member
        simp [noRoom i member]
      rw [CompiledFunction.roomCount, written.reads, countP_append, none, Nat.add_zero]
      rcases isRoom with rfl | ⟨i, rfl⟩ <;> rfl
    · have inside : f.operations = instrs.filter fun i => !i.isJump := by
        rw [CompiledFunction.operations, written.reads, filter_append]
        have none : room.filter (fun i => !i.isJump && i.room?.isNone) = [] := by
          rcases isRoom with rfl | ⟨i, rfl⟩ <;> rfl
        rw [none, nil_append]
        refine filter_congr fun i member => ?_
        rw [noRoom i member, isNone_none, Bool.and_true]
      rw [← inside]
      exact builtOps_iff.1 each

/-! ## Instructions that close -/

/-- The instruction that closes a variable. -/
def Local.closing (l : Local) : Instr := .indexed .closeUpvalue (.ofNat l.slot)

namespace Encoded

variable {W : World} {op : Op} {i : Instr} {l : Local}

theorem closing (encoded : Encoded W op i) (isClosed : op.closed? = some l) :
    i = l.closing ∧ l.slot < 65536 := by
  cases encoded with
  | @close _ live _ index denotes =>
    cases isClosed
    have isSlot : l.slot = index.toNat := by simpa using List.find?_some denotes.1
    rw [Local.closing, isSlot, UInt16.ofNat_toNat]
    exact ⟨rfl, index.toNat_lt⟩
  | _ => cases isClosed

theorem closed_of_closing (encoded : Encoded W op l.closing) (small : l.slot < 65536) :
    ∃ other, op.closed? = some other ∧ other.slot = l.slot := by
  generalize isClosing : l.closing = i at encoded
  cases encoded with
  | @close _ live other index denotes =>
    refine ⟨other, rfl, ?_⟩
    have isSlot : other.slot = index.toNat := by simpa using List.find?_some denotes.1
    rw [Local.closing, Instr.indexed.injEq] at isClosing
    rw [isSlot, ← isClosing.2, UInt16.toNat_ofNat_of_lt' small]
  | @sequence _ kind => cases kind <;> cases isClosing
  | _ => cases isClosing

theorem captures_slot {live : List Local} {inner : Scheme}
    (encoded : Encoded W (.closure live inner) i)
    (captured : l ∈ inner.captured) (own : l ∉ W.captured) :
    ∃ index places, i = .closure index places ∧ .local l.slot ∈ places ∧ l.slot < 65536 := by
  cases encoded with
  | @closure _ _ _ g index places built found fit captures =>
    obtain ⟨place, member, denotes⟩ := exists_of_forall₂ captures captured
    refine ⟨index, places, rfl, ?_⟩
    cases place with
    | «local» slot =>
      have isSlot : l.slot = slot := by simpa using List.find?_some denotes.1
      rw [isSlot]
      exact ⟨member, fit _ member⟩
    | upvalue index => exact absurd (mem_of_getElem? denotes) own

end Encoded

theorem eq_map_closing {W : World} {operations : List Op} {instrs : List Instr}
    (each : Forall₂ (Encoded W) operations instrs)
    (closing : ∀ op ∈ operations, ∃ l, op.closed? = some l) :
    instrs = (operations.filterMap Op.closed?).map Local.closing ∧
      ∀ l ∈ operations.filterMap Op.closed?, l.slot < 65536 := by
  induction each with
  | nil => exact ⟨rfl, nofun⟩
  | @cons op i operations instrs encoded _ ih =>
    obtain ⟨l, isClosed⟩ := closing op mem_cons_self
    obtain ⟨rfl, small⟩ := encoded.closing isClosed
    obtain ⟨rfl, others⟩ := ih fun other member => closing other (mem_cons_of_mem op member)
    rw [filterMap_cons_some isClosed]
    exact ⟨rfl, forall_mem_cons.2 ⟨small, others⟩⟩

theorem count_closing {locals : List Local} {l : Local} (member : l ∈ locals)
    (slots : locals.Pairwise fun a b => a.slot ≠ b.slot) (small : ∀ l ∈ locals, l.slot < 65536) :
    (locals.map Local.closing).count l.closing = 1 := by
  refine count_eq_one_of_mem ?_ (List.mem_map.2 ⟨l, member, rfl⟩)
  rw [List.Nodup, pairwise_map]
  refine slots.imp_of_mem fun {a b} isA isB differ same => differ ?_
  rw [Local.closing, Local.closing, Instr.indexed.injEq] at same
  rw [← UInt16.toNat_ofNat_of_lt' (small a isA), ← UInt16.toNat_ofNat_of_lt' (small b isB), same.2]

/-! ## Scopes in code -/

/-- A closure at a place of a flow captures a variable. -/
def Flow.CapturesAt (flow : Flow Op) (i : Nat) (l : Local) : Prop :=
  ∃ live inner, flow.written[i]? = some (some (.closure live inner)) ∧ l ∈ inner.captured

theorem Flow.CapturesAt.captured {flow : Flow Op} {i : Nat} {l : Local}
    (captures : flow.CapturesAt i l) :
    capturedBy flow.operations l = true := by
  obtain ⟨live, inner, isClosure, captured⟩ := captures
  refine List.any_eq_true.2 ⟨_, Flow.mem_written.1 (mem_of_getElem? isClosure), ?_⟩
  exact decide_eq_true captured

namespace Codes

variable {W : World} {n i : Nat} {flow : Flow Op} {instrs before ending after : List Instr}
  {l : Local}

theorem capturesAt (codes : Codes (Encoded W) n flow instrs) (captures : flow.CapturesAt i l)
    (own : l ∉ W.captured) :
    ∃ index places, instrs[i]? = some (.closure index places) ∧ .local l.slot ∈ places ∧
      l.slot < 65536 := by
  obtain ⟨live, inner, isClosure, captured⟩ := captures
  obtain ⟨low, same⟩ := List.getElem?_eq_some_iff.1 isClosure
  have low' : i < instrs.length := codes.length_eq ▸ low
  have writes := codes.writes.get low low'
  obtain ⟨index, places, isInstr, member, small⟩ := (writes _ same).captures_slot captured own
  exact ⟨index, places, List.getElem?_eq_some_iff.2 ⟨low', isInstr⟩, member, small⟩

/-- **On every way from where a variable is captured out of its scope, its slot is closed as often
as the ending of the scope does that.** -/
theorem leaves {code : Array UInt8} (codes : Codes (Encoded W) n flow instrs)
    (guarded : flow.Guarded) (declares : flow.Declares l) (captures : flow.CapturesAt i l)
    (small : l.slot < 65536) (straight : ∀ i ∈ ending, i.isJump = false)
    (written : WrittenAs code (before ++ instrs ++ ending ++ after)) {trace : List Instr}
    {stop : Int}
    (way : Way code (codeSize before) (codeSize (before ++ instrs ++ ending))
      (codeSize (before ++ instrs.take i)) trace stop)
    (left : stop < codeSize before ∨ codeSize (before ++ instrs ++ ending) ≤ stop) :
    trace.count l.closing = ending.count l.closing := by
  obtain ⟨a, b, splits, uncaptured, unclosed⟩ := declares
  obtain ⟨firsts, seconds, rfl, isFirst, isSecond⟩ := codes.split splits
  have noJumps (op : Op) (i : Instr) (encoded : Encoded W op i) : i.isJump = false :=
    (Encoded.sameEffect _ op i encoded).1
  -- The closure is made behind the declaration of the variable.
  have late : firsts.length ≤ i := by
    by_contra early
    obtain ⟨live, inner, isClosure, captured⟩ := captures
    rw [splits.written_eq,
      List.getElem?_append_left (by rw [isFirst.length_eq]; omega)] at isClosure
    have : a.CapturesAt i l := ⟨live, inner, isClosure, captured⟩
    rw [this.captured] at uncaptured
    cases uncaptured
  have uncounted : ∀ i ∈ seconds, (i == l.closing) = false := by
    intro i member
    rw [beq_eq_false_iff_ne]
    rintro rfl
    rcases isSecond.jump_or_encoded member with ⟨_, _, never⟩ | ⟨op, isOp, encoded⟩
    · cases never
    · obtain ⟨other, isClosed, same⟩ := encoded.closed_of_closing small
      refine unclosed other ?_ same
      exact List.any_eq_true.2 ⟨op, isOp, decide_eq_true isClosed⟩
  have place : codeSize (before ++ (firsts ++ seconds).take i) =
      codeSize (before ++ firsts) + codeSize (seconds.take (i - firsts.length)) := by
    rw [take_append, take_of_length_le late, ← List.append_assoc, codeSize_append]
  have rest : codeSize (seconds.take (i - firsts.length)) ≤ codeSize seconds := by
    conv_rhs => rw [← take_append_drop (i - firsts.length) seconds, codeSize_append]
    omega
  have stays : ∀ next ∈ targets (codeSize (before ++ firsts)) seconds,
      codeSize (before ++ firsts) ≤ next ∧
        next ≤ codeSize (before ++ firsts) + codeSize seconds := by
    intro next goes
    rcases isSecond.targets_land noJumps goes with ⟨cut, -⟩ | ⟨-, free⟩
    · exact cuts_bounds cut
    · exact absurd (splits.guarded guarded) free
  have written' : WrittenAs code (before ++ firsts ++ seconds ++ ending ++ after) := by
    simpa using written
  refine (way.out (· == l.closing) written' ?_ ?_ stays uncounted straight left ?_).1
  · simp only [codeSize_append]
    push_cast
    omega
  · rw [codeSize_append]
    omega
  · rw [place]
    push_cast
    omega

end Codes

namespace Region

/-- In the code of a function, a scope closes what was captured of it: its ending has one
instruction for each of these variables, in the order of their declarations, and nothing else closes
them. All closures that capture a variable of the scope are made in its block, from the slot of
the variable. On every way from there out of the scope, the slot is closed once. -/
structure ClosedIn (r : Region Op) (scheme : Scheme) (f : CompiledFunction)
    (before block ending after : List Instr) : Prop where
  reads : f.reads = before ++ block ++ ending ++ after
  first : before.length = r.first
  length : block.length = r.block.written.length
  closes : ending = (r.locals.filter (capturedBy scheme.body.operations)).map Local.closing
  once : ∀ l ∈ r.locals, closedBy r.block.operations l = false
  inside : ∀ l ∈ r.locals, scheme.body.operations.countP (Op.captures l) =
    r.block.operations.countP (Op.captures l)
  captures : ∀ l ∈ r.locals, ∀ i, r.block.CapturesAt i l →
    ∃ index places, block[i]? = some (.closure index places) ∧ .local l.slot ∈ places
  leaves : ∀ l ∈ r.locals, ∀ i, r.block.CapturesAt i l → ∀ (trace : List Instr) (stop : Int),
    Way f.code (codeSize before) (codeSize (before ++ block ++ ending))
      (codeSize (before ++ block.take i)) trace stop →
    stop < codeSize before ∨ codeSize (before ++ block ++ ending) ≤ stop →
      trace.count l.closing = 1

namespace Closed

variable {r : Region Op} {operations : List Op}

theorem filterMap_ending (closed : r.Closed operations) :
    r.ending.filterMap Op.closed? = r.locals.filter (capturedBy operations) := by
  have each := closed.closings
  rw [closed.ending, Region.locals]
  generalize r.closings = closings at each
  induction closings with
  | nil => rfl
  | cons op rest ih =>
    obtain ⟨l, isClosed⟩ := each op mem_cons_self
    have others := ih fun other member => each other (mem_cons_of_mem op member)
    rw [filter_cons, isClosed, any_some, filterMap_cons_some isClosed, filter_cons]
    split
    · rw [filterMap_cons_some isClosed, others]
    · exact others

theorem captured (closed : r.Closed operations) {l : Local} (member : l ∈ r.locals) {i : Nat}
    (captures : r.block.CapturesAt i l) : capturedBy operations l = true := by
  rw [capturedBy_eq, closed.inside l member, ← capturedBy_eq]
  exact captures.captured

variable {scheme : Scheme} {f : CompiledFunction} {before inside after : List Instr} {m : Nat}

/-- **The code of a scope closes what was captured of the scope.** -/
theorem closedIn (closed : r.Closed scheme.body.operations)
    (own : ∀ l ∈ r.locals, l ∉ scheme.captured)
    (written : WrittenAs f.code (before ++ inside ++ after)) (first : before.length = r.first)
    (codes : Codes (Encoded (f.world scheme.captured)) m (.seq r.block (.ops r.ending)) inside) :
    ∃ block ending, r.ClosedIn scheme f before block ending after := by
  cases codes with
  | @seq _ _ _ block ending isBlock isEnding =>
    cases isEnding with
    | ops each =>
      have closing : ∀ op ∈ r.ending, ∃ l, op.closed? = some l := by
        intro op member
        rw [closed.ending] at member
        exact closed.closings op (mem_of_mem_filter member)
      obtain ⟨isEnding, small⟩ := eq_map_closing each closing
      rw [closed.filterMap_ending] at isEnding small
      have straight : ∀ i ∈ ending, i.isJump = false := by
        intro i member
        rw [isEnding] at member
        obtain ⟨l, -, rfl⟩ := List.mem_map.1 member
        rfl
      rw [← List.append_assoc] at written
      refine ⟨block, ending, written.reads, first, isBlock.length_eq.symm, isEnding, closed.once,
        closed.inside, fun l member i captures =>
          ?_, fun l member i captures trace stop way left => ?_⟩
      · obtain ⟨index, places, isClosure, isPlace, -⟩ := isBlock.capturesAt captures (own l member)
        exact ⟨index, places, isClosure, isPlace⟩
      · have isCaptured := mem_filter.2 ⟨member, closed.captured member captures⟩
        rw [isBlock.leaves closed.guarded (closed.declares l member) captures (small l isCaptured)
          straight written way left, isEnding]
        exact count_closing isCaptured (closed.slots.filter _) small

end Closed

end Region

/-! ## Units -/

/-- **Captured slots are closed exactly once when their scope ends**, in every function of a
unit. -/
theorem compileAgainst_closes_scopes {options : Options} {base current : Registry}
    {program : Program}
    {f : CompiledFunction}
    (compiled : (compileAgainst options base current program).1.function = some f)
    {scheme : Scheme} (within : scheme.Within (program.scheme (program.unitInfo options base))) :
    ∃ g ∈ f.walk, Built scheme g ∧ ∀ r ∈ scheme.body.regions g.roomCount,
      ∃ before block ending after, r.ClosedIn scheme g before block ending after := by
  obtain ⟨g, member, built⟩ := (compileAgainst_built compiled).1.within within
  refine ⟨g, member, built, fun r isRegion => ?_⟩
  have tidy := (program.tidy_scheme (program.unitInfo options base)).within within
  cases tidy with
  | intro closed own _ =>
    obtain ⟨room, instrs, written, isRoom, codes⟩ := built.codes
    obtain ⟨before, inside, after, m, rfl, first, isCode⟩ := codes.region isRegion
    have written' : WrittenAs g.code (room ++ before ++ inside ++ after) := by
      simpa using written
    obtain ⟨block, ending, closedIn⟩ := (closed _ r isRegion).closedIn (own _ r isRegion) written'
      (by rw [List.length_append, isRoom, first]) isCode
    exact ⟨room ++ before, block, ending, after, closedIn⟩

/-- A loop with two captured variables, one of them in a scope of its own and the other one captured
there as well, and a variable between them that is not captured. -/
def capturingUnit : Program :=
  let at_ := Span.zero
  let mention (name : String) : Stmt := .expression at_ (.local at_ name)
  let closure (body : List Stmt) : Stmt := .expression at_ (.closure at_ [] body)
  .ofStatements [.loop at_ (.literal at_ (.bool false)) [
    .variable at_ "x" true none (some (.literal at_ (.int 1))),
    .variable at_ "y" true none (some (.literal at_ (.int 2))),
    .expression at_ (.conditional at_ (.local at_ "y") [
      .variable at_ "z" true none (some (.literal at_ (.int 3))),
      closure [mention "z", closure [mention "x"]]] none),
    closure [mention "x"]]]

theorem compileAgainst_closes_scopes_loop :
    ∃ f, (compileAgainst (.forFile "loop") .prelude .prelude capturingUnit).1.function = some f ∧
      let scheme := capturingUnit.scheme (capturingUnit.unitInfo (.forFile "loop") .prelude)
      ((scheme.body.regions 1).map fun r => (r.first, r.locals.map Local.slot,
        (r.locals.filter (capturedBy scheme.body.operations)).map Local.slot)) =
          [(3, [1, 2], [1]), (11, [3], [3])] ∧
      ∃ g ∈ f.walk, Built scheme g ∧ ∀ r ∈ scheme.body.regions g.roomCount,
        ∃ before block ending after, r.ClosedIn scheme g before block ending after := by
  have succeeds : (compileAgainst (.forFile "loop") .prelude .prelude
      capturingUnit).1.function.isSome := by
    decide +kernel
  obtain ⟨f, compiled⟩ := Option.isSome_iff_exists.1 succeeds
  exact ⟨f, compiled, by decide +kernel, compileAgainst_closes_scopes compiled .self⟩

end StackCode
