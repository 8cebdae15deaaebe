import StackCode.Proofs.Openings
import StackCode.Proofs.Regions
import StackCode.Proofs.Simulation

/-!
# What scopes close

At its end a scope closes those of its variables that closures captured. A variable of a scope was
mentioned in another function if and only if a closure that is made in the scope captures it.

That is one of the facts about a part of the text that hold of the whole if they hold of its parts
(`Passage`). The others tell variables apart, by when they are declared and by their slots, which
are used again when a scope has ended.
-/

namespace StackCode

open List Option

variable {l : Local} {operations : List Op}

/-! ## Operations on variables -/

/-- The variable that an operation closes. -/
def Op.closed? : Op → Option Local
  | .close _ l => some l
  | _ => none

/-- The function that an operation loads or makes a closure of. -/
def Op.scheme? : Op → Option Scheme
  | .function scheme => some scheme
  | .closure _ scheme => some scheme
  | _ => none

/-- Whether an operation makes a closure that captures a variable. -/
def Op.captures (l : Local) : Op → Bool
  | .closure _ scheme => decide (l ∈ scheme.captured)
  | _ => false

/-- Whether some operations capture a variable. -/
def capturedBy (operations : List Op) (l : Local) : Bool := operations.any (Op.captures l)

/-- Whether some operations close a variable. -/
def closedBy (operations : List Op) (l : Local) : Bool := operations.any (·.closed? = some l)

@[simp] theorem capturedBy_append (a b : List Op) (l : Local) :
    capturedBy (a ++ b) l = (capturedBy a l || capturedBy b l) := any_append

theorem capturedBy_eq (operations : List Op) (l : Local) :
    capturedBy operations l = decide (0 < operations.countP (Op.captures l)) := by
  rw [Bool.eq_iff_iff, decide_eq_true_iff, countP_pos_iff]
  exact List.any_eq_true

theorem countP_captures (uncaptured : capturedBy operations l = false) :
    operations.countP (Op.captures l) = 0 := by
  rw [capturedBy_eq, decide_eq_false_iff_not] at uncaptured
  omega

@[simp] theorem closedBy_append (a b : List Op) (l : Local) :
    closedBy (a ++ b) l = (closedBy a l || closedBy b l) := any_append

/-- The operation has nothing to do with closures. -/
def Op.inert (op : Op) : Bool := op.scheme?.isNone && op.closed?.isNone

theorem Op.captures_of_inert {op : Op} (inert : op.inert = true) (l : Local) :
    op.captures l = false := by
  cases op <;> first | rfl | cases inert

theorem capturedBy_of_inert (inert : ∀ op ∈ operations, op.inert = true)
    (l : Local) : capturedBy operations l = false :=
  List.any_eq_false.2 fun op member => by simp [Op.captures_of_inert (inert op member)]

theorem closedBy_of_inert (inert : ∀ op ∈ operations, op.inert = true)
    (l : Local) : closedBy operations l = false := by
  refine List.any_eq_false.2 fun op member => ?_
  have isInert := inert op member
  rw [Op.inert, Bool.and_eq_true, isNone_iff_eq_none, isNone_iff_eq_none] at isInert
  simp [isInert.2]

/-! ## Scopes -/

/-- A variable is declared in a flow. Nothing before its declaration captures it, and nothing behind
it closes the slot of the variable. -/
def Flow.Declares (flow : Flow Op) (l : Local) : Prop :=
  ∃ a b, flow.Splits a b ∧ capturedBy a.operations l = false ∧
    ∀ other, closedBy b.operations other = true → other.slot ≠ l.slot

namespace Region

/-- The variables of a scope, in the order of their declarations. -/
def locals (r : Region Op) : List Local := r.closings.filterMap Op.closed?

/-- A scope closes what the closures of its function captured of it, at its end and nowhere else. -/
structure Closed (operations : List Op) (r : Region Op) : Prop where
  closings : ∀ op ∈ r.closings, ∃ l, op.closed? = some l
  ending : r.ending = r.closings.filter fun op => op.closed?.any (capturedBy operations)
  slots : r.locals.Pairwise fun a b => a.slot ≠ b.slot
  guarded : r.block.Guarded
  once : ∀ l ∈ r.locals, closedBy r.block.operations l = false
  declares : ∀ l ∈ r.locals, r.block.Declares l
  /-- All closures that capture a variable of the scope are made in it. -/
  inside : ∀ l ∈ r.locals, operations.countP (Op.captures l) = r.block.operations.countP
    (Op.captures l)

theorem Closed.congr {operations operations' : List Op} {r : Region Op}
    (closed : r.Closed operations)
    (same : ∀ l ∈ r.locals, operations'.countP (Op.captures l) =
      operations.countP (Op.captures l)) :
    r.Closed operations' where
  closings := closed.closings
  ending := by
    rw [closed.ending]
    refine filter_congr fun op member => ?_
    obtain ⟨l, isClosed⟩ := closed.closings op member
    rw [isClosed, any_some, any_some, capturedBy_eq, capturedBy_eq,
      same l (mem_filterMap.2 ⟨op, member, isClosed⟩)]
  slots := closed.slots
  guarded := closed.guarded
  once := closed.once
  declares := closed.declares
  inside l member := (same l member).trans (closed.inside l member)

end Region

/-- All scopes of a function, and those of the functions in it, close what was captured of them.
Their variables are not ones that the function itself captured. -/
inductive Scheme.Tidy : Scheme → Prop where
  | intro {scheme : Scheme}
      (closed : ∀ n, ∀ r ∈ scheme.body.regions n, r.Closed scheme.body.operations)
      (own : ∀ n, ∀ r ∈ scheme.body.regions n, ∀ l ∈ r.locals, l ∉ scheme.captured)
      (inner : ∀ op ∈ scheme.body.operations, ∀ scheme', op.scheme? = some scheme' → Tidy scheme') :
      Tidy scheme

/-- All scopes of the function of an operation close what was captured of them. -/
def Op.Tidy (op : Op) : Prop := ∀ scheme, op.scheme? = some scheme → scheme.Tidy

theorem Op.tidy_of_inert {op : Op} (inert : op.inert = true) : op.Tidy := by
  intro scheme isScheme
  rw [Op.inert, isScheme] at inert
  cases inert

/-! ## Places -/

/-- A variable can be seen in the first of some functions, each of which stands in the next. -/
def Level.Sees (l : Local) : List Level → Prop
  | [] => False
  | level :: outer => l ∈ level.locals ∨ level.isClosure = true ∧ Level.Sees l outer

theorem Level.Sees.mem {levels : List Level} (sees : Level.Sees l levels) :
    ∃ level ∈ levels, l ∈ level.locals := by
  induction levels with
  | nil => cases sees
  | cons level outer ih =>
    rcases sees with here | ⟨-, outside⟩
    · exact ⟨level, mem_cons_self, here⟩
    · obtain ⟨found, member, inside⟩ := ih outside
      exact ⟨found, mem_cons_of_mem _ member, inside⟩

theorem Level.sees_of_resolve? {here : Level} {outer : List Level} {name : String}
    (found : here.resolve? name outer = some l) : Level.Sees l (here :: outer) := by
  induction outer generalizing here with
  | nil => exact .inl (mem_of_find?_eq_some found)
  | cons parent outer ih =>
    rw [resolve?] at found
    split at found
    · rename_i isHere
      cases found
      exact .inl (mem_of_find?_eq_some isHere)
    · split at found
      · rename_i isClosure
        exact .inr ⟨isClosure, ih found⟩
      · cases found

namespace Env

/-- A variable can be seen at a place. -/
def Sees (env : Env) (l : Local) : Prop := Level.Sees l (env.here :: env.outer)

/-- A place in the text, where so much was counted and noted. Variables are told apart by when they
are declared. -/
structure Ordered (env : Env) (t : Progress) : Prop where
  laid : Laid env.live
  first : env.here.first ≤ t.count
  own : ∀ l ∈ env.live, env.here.first ≤ l.id ∧ l.id < t.count
  outer : ∀ level ∈ env.outer, ∀ l ∈ level.locals, l.id < env.here.first
  noted : ∀ l ∈ t.mentions, l.id < t.count

variable {env env' : Env} {t t' : Progress} {l : Local} {count : Nat}

theorem Ordered.enter (ordered : env.Ordered t) : env.enter.Ordered t :=
  ⟨ordered.laid, ordered.first, ordered.own, ordered.outer, ordered.noted⟩

theorem Ordered.later (ordered : env.Ordered t) (more : t.count ≤ t'.count)
    (noted : ∀ l ∈ t'.mentions, l.id < t'.count) : env.Ordered t' where
  laid := ordered.laid
  first := Nat.le_trans ordered.first more
  own l member := ⟨(ordered.own l member).1, Nat.lt_of_lt_of_le (ordered.own l member).2 more⟩
  outer := ordered.outer
  noted := noted

theorem Ordered.live_of_sees (ordered : env.Ordered t) (sees : env.Sees l)
    (own : env.here.first ≤ l.id) : l ∈ env.live := by
  rcases sees with here | ⟨-, outside⟩
  · exact here
  · obtain ⟨level, member, inside⟩ := outside.mem
    have := ordered.outer level member l inside
    omega

namespace Grows

theorem subset (grows : env.Grows count env') (member : l ∈ env.live) : l ∈ env'.live := by
  obtain ⟨new, isNew, -⟩ := grows.fresh
  rw [isNew]
  exact mem_append.2 (.inr member)

theorem live_or (grows : env.Grows count env') (member : l ∈ env'.live) :
    l ∈ env.live ∨ count ≤ l.id := by
  obtain ⟨new, isNew, ids⟩ := grows.fresh
  rw [isNew] at member
  exact (mem_append.1 member).elim (fun isNew => .inr (ids l isNew)) .inl

theorem length_le (grows : env.Grows count env') : env.live.length ≤ env'.live.length :=
  grows.behind.locals.length_le

theorem sees_or (grows : env.Grows count env') (sees : env'.Sees l) :
    env.Sees l ∨ count ≤ l.id := by
  rcases sees with here | ⟨isClosure, outside⟩
  · exact (grows.live_or here).imp .inl id
  · rw [grows.behind.outer] at outside
    rw [grows.behind.isClosure] at isClosure
    exact .inl (.inr ⟨isClosure, outside⟩)

end Grows

end Env

/-! ## Parts of the text -/

/-- What a part of the text notes: variables that can be seen from it and its own, of the functions
that it is in only those that closures of the part capture. -/
structure Notes (env : Env) (count : Nat) (flow : Flow Op) (env' : Env) (new : List Local) :
    Prop where
  seen : ∀ l ∈ new, env.Sees l ∨ count ≤ l.id
  captured : ∀ l ∈ new, l ∈ env'.live → capturedBy flow.operations l = true
  captures : ∀ l, capturedBy flow.operations l = true → l ∈ new

/-- A variable that a part of the text declares in one of its scopes. -/
structure Hidden (env : Env) (t : Progress) (env' : Env) (t' : Progress) (l : Local) : Prop where
  slot : env.live.length < l.slot
  young : t.count ≤ l.id
  old : l.id < t'.count
  gone : l ∉ env'.live

/-- A part of the text, from a place to the place behind it in the same scope, with the namespaces
that are opened in it. -/
structure Passing (opened : List NamespaceRecord) (env : Env) (t : Progress) (flow : Flow Op)
    (env' : Env)
    (t' : Progress) : Prop where
  count : t.count ≤ t'.count
  grows : env.Grows t.count env'
  ordered : env'.Ordered t'
  noted : ∃ new, t'.mentions = t.mentions ++ new ∧ Notes env t.count flow env' new
  closes : ∀ l, closedBy flow.operations l = true → Hidden env t env' t' l
  hides : ∀ n, ∀ r ∈ flow.regions n, ∀ l ∈ r.locals, Hidden env t env' t' l
  closed : ∀ n, ∀ r ∈ flow.regions n, r.Closed flow.operations
  guarded : flow.Guarded
  declares : ∀ l ∈ env'.live, l ∉ env.live → flow.Declares l
  tidy : ∀ op ∈ flow.operations, op.Tidy
  members : (∀ op ∈ t.members, op.Tidy) → ∀ op ∈ t'.members, op.Tidy
  records : t'.records = opened.foldl noteOpening t.records

/-- A part of the text that opens no namespace. -/
abbrev Passage : Env → Progress → Flow Op → Env → Progress → Prop := Passing []

/-- A flow has what two others have, one behind the other. -/
structure Flow.Joins (flow a b : Flow Op) : Prop where
  operations : flow.operations = a.operations ++ b.operations
  regions : ∀ n, ∀ r ∈ flow.regions n, (∃ m, r ∈ a.regions m) ∨ ∃ m, r ∈ b.regions m
  guarded : a.Guarded → b.Guarded → flow.Guarded

namespace Flow.Joins

theorem seq (a b : Flow Op) : (a ++ b).Joins a b :=
  ⟨rfl, fun _ _ member => (mem_append.1 member).imp (⟨_, ·⟩) (⟨_, ·⟩), fun x y => ⟨x, y⟩⟩

theorem choose (a b : Flow Op) : (Flow.choose a b).Joins a b :=
  ⟨rfl, fun _ _ member => (mem_append.1 member).imp (⟨_, ·⟩) (⟨_, ·⟩), fun x y => ⟨x, y⟩⟩

theorem loop (a b : Flow Op) : (Flow.loop a b).Joins a b :=
  ⟨rfl, fun _ _ member => (mem_append.1 member).imp (⟨_, ·⟩) (⟨_, ·⟩), fun x y => ⟨x, y⟩⟩

end Flow.Joins

namespace Passing

variable {env env₁ env₂ : Env} {t t₁ t₂ : Progress} {a b flow : Flow Op} {l : Local}
  {opened later : List NamespaceRecord}

theorem hidden_left (second : Passing later env₁ t₁ b env₂ t₂) (hidden : Hidden env t env₁ t₁ l) :
    Hidden env t env₂ t₂ l where
  slot := hidden.slot
  young := hidden.young
  old := Nat.lt_of_lt_of_le hidden.old second.count
  gone member := (second.grows.live_or member).elim hidden.gone
    fun late => Nat.not_le_of_lt hidden.old late

theorem hidden_right (first : Passing opened env t a env₁ t₁) (hidden : Hidden env₁ t₁ env₂ t₂ l) :
    Hidden env t env₂ t₂ l where
  slot := Nat.lt_of_le_of_lt first.grows.length_le hidden.slot
  young := Nat.le_trans first.count hidden.young
  old := hidden.old
  gone := hidden.gone

theorem id_lt_of_captured (first : Passing opened env t a env₁ t₁)
    (captured : capturedBy a.operations l = true) : l.id < t₁.count := by
  obtain ⟨new, isNew, notes⟩ := first.noted
  refine first.ordered.noted l ?_
  rw [isNew]
  exact mem_append.2 (.inr (notes.captures l captured))

theorem not_captured_of_hidden (second : Passing later env₁ t₁ b env₂ t₂)
    (ordered : env₁.Ordered t₁)
    (hidden : Hidden env t env₁ t₁ l) (first : env₁.here.first ≤ t.count) :
    capturedBy b.operations l = false := by
  rw [Bool.eq_false_iff]
  intro captured
  obtain ⟨new, -, notes⟩ := second.noted
  rcases notes.seen l (notes.captures l captured) with sees | late
  · exact hidden.gone (ordered.live_of_sees sees (Nat.le_trans first hidden.young))
  · exact Nat.not_le_of_lt hidden.old late

section

variable (ordered : env.Ordered t) (first : Passing opened env t a env₁ t₁)
  (second : Passing later env₁ t₁ b env₂ t₂)

include ordered first second

/-- **A part behind another one.** -/
theorem join (joins : flow.Joins a b)
    (declares : ∀ l ∈ env₂.live, l ∉ env.live → flow.Declares l) :
    Passing (opened ++ later) env t flow env₂ t₂ where
  count := Nat.le_trans first.count second.count
  grows := first.grows.trans second.grows first.count
  ordered := second.ordered
  noted := by
    obtain ⟨new, isNew, notes⟩ := first.noted
    obtain ⟨new', isNew', notes'⟩ := second.noted
    refine ⟨new ++ new', by rw [isNew', isNew, List.append_assoc], fun l member => ?_,
      fun l member live => ?_, fun l captured => ?_⟩
    · rcases mem_append.1 member with early | late
      · exact notes.seen l early
      · rcases notes'.seen l late with sees | young
        · exact first.grows.sees_or sees
        · exact .inr (Nat.le_trans first.count young)
    · rw [joins.operations, capturedBy_append, Bool.or_eq_true]
      rcases mem_append.1 member with early | late
      · -- What was noted before the second part began was not declared in it.
        have old : l.id < t₁.count := first.ordered.noted l (by
          rw [isNew]
          exact mem_append.2 (.inr early))
        exact .inl (notes.captured l early ((second.grows.live_or live).resolve_right
          (Nat.not_le_of_lt old)))
      · exact .inr (notes'.captured l late live)
    · rw [joins.operations, capturedBy_append, Bool.or_eq_true] at captured
      exact mem_append.2 (captured.imp (notes.captures l) (notes'.captures l))
  closes l closed := by
    rw [joins.operations, closedBy_append, Bool.or_eq_true] at closed
    exact closed.elim (fun early => second.hidden_left (first.closes l early))
      fun late => first.hidden_right (second.closes l late)
  hides n r member l own := by
    rcases joins.regions n r member with ⟨m, early⟩ | ⟨m, late⟩
    · exact second.hidden_left (first.hides m r early l own)
    · exact first.hidden_right (second.hides m r late l own)
  closed n r member := by
    rw [joins.operations]
    rcases joins.regions n r member with ⟨m, early⟩ | ⟨m, late⟩
    · refine (first.closed m r early).congr fun l own => ?_
      have late := second.not_captured_of_hidden first.ordered (first.hides m r early l own)
        (by rw [first.grows.behind.first]; exact ordered.first)
      rw [countP_append, countP_captures late, Nat.add_zero]
    · refine (second.closed m r late).congr fun l own => ?_
      have young := (second.hides m r late l own).young
      have early : capturedBy a.operations l = false := Bool.eq_false_iff.2 fun captured =>
        Nat.not_le_of_lt (first.id_lt_of_captured captured) young
      rw [countP_append, countP_captures early, Nat.zero_add]
  guarded := joins.guarded first.guarded second.guarded
  declares := declares
  tidy op member := by
    rw [joins.operations] at member
    exact (mem_append.1 member).elim (first.tidy op) (second.tidy op)
  members given := second.members (first.members given)
  records := by rw [second.records, first.records, foldl_append]

theorem append : Passing (opened ++ later) env t (a ++ b) env₂ t₂ := by
  refine first.join ordered second (.seq a b) fun l live new => ?_
  by_cases early : l ∈ env₁.live
  · -- What the second part closes has other slots than all that was declared before it.
    obtain ⟨front, rear, splits, uncaptured, unclosed⟩ := first.declares l early new
    refine ⟨front, rear ++ b, .left splits, uncaptured, fun other closed => ?_⟩
    rw [Flow.operations_append, closedBy_append, Bool.or_eq_true] at closed
    rcases closed with closed | closed
    · exact unclosed other closed
    · have := (second.closes other closed).slot
      have := (first.ordered.laid.slot_bounds early).2
      omega
  · obtain ⟨front, rear, splits, uncaptured, unclosed⟩ := second.declares l live early
    refine ⟨a ++ front, rear, .right splits, ?_, unclosed⟩
    have young : t₁.count ≤ l.id := (second.grows.live_or live).resolve_left early
    rw [Flow.operations_append, capturedBy_append, uncaptured, Bool.or_false, Bool.eq_false_iff]
    exact fun captured => Nat.not_le_of_lt (first.id_lt_of_captured captured) young

end

theorem choose (ordered : env.Ordered t) (first : Passage env t a env t₁)
    (second : Passage env t₁ b env t₂) : Passage env t (.choose a b) env t₂ :=
  first.join ordered second (.choose a b) fun _ live new => absurd live new

theorem loop (ordered : env.Ordered t) (first : Passage env t a env t₁)
    (second : Passage env t₁ b env t₂) : Passage env t (.loop a b) env t₂ :=
  first.join ordered second (.loop a b) fun _ live new => absurd live new

theorem skip (kind : JumpKind) (body : Passage env t a env t₁) :
    Passage env t (.skip kind a) env t₁ :=
  { body with
    noted := by
      obtain ⟨new, isNew, seen, captured, captures⟩ := body.noted
      exact ⟨new, isNew, seen, captured, captures⟩
    hides := fun n r member l own => body.hides (n + 1) r member l own
    closed := fun n r member => body.closed (n + 1) r member
    declares := fun _ live new => absurd live new }

end Passing

end StackCode
