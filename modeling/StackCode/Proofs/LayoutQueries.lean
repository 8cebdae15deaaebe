import StackCode.Proofs.GatheredTables

/-!
# Laying out comes to an end

To lay out a namespace, the tables of others are asked for. `Asks` says which queries a query leads
to. Its depth is there only to say what the queries before have left in the tables; more depth never
changes a result (`tableOf?_refines`).

Linking leaves no circle of new classes (`link_ranked`), so that along queries either one
more namespace waits, or the rank goes down. A superclass that is asked for never waits itself,
since everything that waits is a new class of higher rank.
-/

namespace StackCode

open List Option

/-! ## Depth -/

/-- The results of a computation are results of another one. -/
def Refines {α : Type} (c c' : StateT Tables Option α) : Prop :=
  ∀ tables result, c tables = some result → c' tables = some result

section Refines

variable {α β : Type} {c c' : StateT Tables Option α}

theorem Refines.refl (c : StateT Tables Option α) : Refines c c := fun _ _ => id

theorem Refines.trans {c'' : StateT Tables Option α} (first : Refines c c')
    (second : Refines c' c'') :
    Refines c c'' :=
  fun tables result run => second tables result (first tables result run)

theorem Refines.bind {f f' : α → StateT Tables Option β} (first : Refines c c')
    (rest : ∀ a, Refines (f a) (f' a)) : Refines (c >>= f) (c' >>= f') := by
  intro tables result run
  obtain ⟨⟨a, after⟩, runFirst, runRest⟩ := bind_eq_some_iff.1 run
  exact (bind_run (first tables (a, after) runFirst)).trans (rest a after result runRest)

theorem Refines.map {f : α → β} (refines : Refines c c') : Refines (f <$> c) (f <$> c') :=
  refines.bind fun a => .refl (pure (f a))

end Refines

section Calls

variable {call call' : String → StateT Tables Option NameTable}
  (calls : ∀ other, Refines (call other) (call' other))

include calls

theorem startTable_refines (registered : NameTable) (ns : DeclaredNamespace) :
    Refines (startTable call registered ns) (startTable call' registered ns) := by
  unfold startTable
  split
  · exact .refl _
  · split
    · exact calls _
    · exact .refl _

theorem contributions_refines (contributions : List Contribution) (start : NameTable) :
    Refines (contributions.foldlM (addContribution call) start)
      (contributions.foldlM (addContribution call') start) := by
  induction contributions generalizing start with
  | nil => exact .refl _
  | cons contribution rest ih =>
    rw [foldlM_cons, foldlM_cons]
    refine Refines.bind ?_ ih
    cases contribution with
    | declare name span => exact .refl _
    | «include» M => exact (calls M).bind fun _ => .refl _

end Calls

section Queries

variable (d : Declared) (r : Registry) (singleton : Bool)
variable (depth : Nat) (visiting : List String) (n : String) {tables : Tables}
  {call : String → StateT Tables Option NameTable}

/-- The table of another namespace, while some namespaces wait. -/
def askFor (depth : Nat) (visiting : List String) (other : String) :
    StateT Tables Option NameTable :=
  Prod.fst <$> tableOf? d r singleton depth visiting other

variable {d r singleton}

theorem tableOf?_refines_succ :
    Refines (tableOf? d r singleton depth visiting n)
      (tableOf? d r singleton (depth + 1) visiting n) := by
  induction depth generalizing visiting n with
  | zero =>
    intro tables result run
    cases run
  | succ depth ih =>
    intro tables result run
    have calls (waiting : List String) (other : String) :
        Refines (askFor d r singleton depth waiting other)
          (askFor d r singleton (depth + 1) waiting other) := (ih waiting other).map
    cases found : d.get? n with
    | none =>
      rw [tableOf?_undeclared found] at run ⊢
      exact run
    | some ns =>
      cases present : tables[n]? with
      | some table =>
        rw [tableOf?_found found present] at run ⊢
        obtain ⟨start, started, rfl⟩ := map_eq_some_iff.1 run
        have startedToo := startTable_refines (calls visiting) _ ns tables start started
        exact map_eq_some_iff.2 ⟨start, startedToo, rfl⟩
      | none =>
        by_cases waits : n ∈ visiting
        · rw [tableOf?_waiting found present waits] at run ⊢
          exact run
        · rw [tableOf?_new found present waits] at run ⊢
          refine Refines.bind (startTable_refines (calls (n :: visiting)) _ ns)
            (fun base => ?_) tables
            result run
          exact (contributions_refines (calls (n :: visiting)) _ base).bind fun _ => .refl _

/-- **More depth does not change a result.** -/
theorem tableOf?_refines {depth depth' : Nat} (le : depth ≤ depth') (visiting : List String)
    (n : String) : Refines (tableOf? d r singleton depth visiting n)
      (tableOf? d r singleton depth' visiting n) := by
  induction le with
  | refl => exact .refl _
  | step _ ih => exact ih.trans (tableOf?_refines_succ _ visiting n)

theorem askFor_refines {depth depth' : Nat} (le : depth ≤ depth') (visiting : List String)
    (n : String) :
    Refines (askFor d r singleton depth visiting n) (askFor d r singleton depth' visiting n) :=
  (tableOf?_refines le visiting n).map

/-! ## Queries -/

/-- The table of a namespace is asked for, while others wait and some tables are complete. -/
structure Query where
  visiting : List String
  tables : Tables
  name : String

variable (d r singleton)

/-- The answer to a query, and the tables after it. -/
def Query.answer? (q : Query) (depth : Nat) : Option ((NameTable × Nat) × Tables) :=
  tableOf? d r singleton depth q.visiting q.name q.tables

/-- A query is for a namespace that is being laid out, so that it has nothing yet. -/
def Query.InProgress (q : Query) : Prop :=
  (d.get? q.name).isSome ∧ q.tables[q.name]? = none ∧ q.name ∈ q.visiting

/-- Why a table is asked for. -/
inductive Reason where
  | superclass
  | mixin
deriving DecidableEq

/-- What a query leads to, if what it leads to is followed so deep. -/
inductive Asks (depth : Nat) : Query → Reason → Query → Prop where
  /-- The table is complete. What it started from is asked for again, whatever waits. -/
  | again {q : Query} {ns : DeclaredNamespace} {table : NameTable} {S : String}
      (found : d.get? q.name = some ns) (complete : q.tables[q.name]? = some table)
      (new : ns.registered = false) (isClass : ns.kind = .class) (linked : ns.superclass = some S) :
      Asks depth q .superclass { q with name := S }
  /-- The table is begun with that of the superclass. -/
  | start {q : Query} {ns : DeclaredNamespace} {S : String}
      (found : d.get? q.name = some ns) (missing : q.tables[q.name]? = none)
      (fresh : q.name ∉ q.visiting) (new : ns.registered = false) (isClass : ns.kind = .class)
      (linked : ns.superclass = some S) :
      Asks depth q .superclass ⟨q.name :: q.visiting, q.tables, S⟩
  /-- A mixin is included, after what stands before it in the body. -/
  | contribution {q : Query} {ns : DeclaredNamespace} {before after : List Contribution}
      {M : String}
      {base table : NameTable} {middle late : Tables}
      (found : d.get? q.name = some ns) (missing : q.tables[q.name]? = none)
      (fresh : q.name ∉ q.visiting)
      (isNext : ns.contributionsTo singleton = before ++ .include M :: after)
      (started : startTable (askFor d r singleton depth (q.name :: q.visiting))
        (r.tableOf q.name singleton) ns q.tables = some (base, middle))
      (added : before.foldlM (addContribution (askFor d r singleton depth
        (q.name :: q.visiting))) base middle = some (table, late)) :
      Asks depth q .mixin ⟨q.name :: q.visiting, late, M⟩

/-- Tables that are left when some namespaces have been laid out, one after the other. -/
inductive LeftOver : Tables → Prop where
  | none : LeftOver ∅
  | next {tables after : Tables} {n : String} {depth : Nat} {result : NameTable × Nat}
      (left : LeftOver tables)
      (answered : tableOf? d r singleton depth [] n tables = some (result, after)) :
      LeftOver after

/-- A query that comes up when some namespace is laid out after others. -/
inductive Reached : Query → Prop where
  | first {tables : Tables} (left : LeftOver d r singleton tables) (n : String) :
      Reached ⟨[], tables, n⟩
  | asked {q q' : Query} {depth : Nat} {reason : Reason} (reached : Reached q)
      (asks : Asks d r singleton depth q reason q') : Reached q'

variable {d r singleton}

/-! ## A query and those that it leads to -/

theorem isSome_startTable_iff {registered : NameTable} {ns : DeclaredNamespace} :
    (startTable call registered ns tables).isSome ↔
      ∀ S, ns.registered = false → ns.kind = .class → ns.superclass = some S →
        (call S tables).isSome := by
  rcases ns.start_cases with old | ⟨S, new, isClass, linked⟩ | ⟨new, unlinked⟩
  · rw [startTable_registered old]
    exact iff_of_true rfl fun S new => nomatch old.symm.trans new
  · rw [startTable_superclass new isClass linked]
    refine ⟨fun answered T _ _ same => ?_, fun answered => answered S new isClass linked⟩
    cases linked.symm.trans same
    exact answered
  · rw [startTable_nothing new unlinked]
    exact iff_of_true rfl fun S _ isClass found => nomatch (unlinked isClass).symm.trans found

theorem isSome_bind_iff {α β : Type} {c : StateT Tables Option α} {f : α → StateT Tables Option β} :
    ((c >>= f) tables).isSome ↔
      (c tables).isSome ∧ ∀ a after, c tables = some (a, after) → (f a after).isSome := by
  show ((c tables).bind fun result => f result.1 result.2).isSome ↔ _
  cases c tables with
  | none => simp
  | some result =>
    obtain ⟨a, after⟩ := result
    simp

theorem isSome_contributions_iff {contributions : List Contribution} {start : NameTable} :
    (contributions.foldlM (addContribution call) start tables).isSome ↔
      ∀ before M after table late, contributions = before ++ .include M :: after →
        before.foldlM (addContribution call) start tables = some (table, late) →
          (call M late).isSome := by
  induction contributions generalizing start tables with
  | nil =>
    refine iff_of_true rfl fun before M after table late empty => ?_
    simp at empty
  | cons contribution rest ih =>
    rw [foldlM_cons, isSome_bind_iff]
    have first : (addContribution call start contribution tables).isSome ↔
        ∀ M, contribution = .include M → (call M tables).isSome := by
      cases contribution with
      | declare name span => exact iff_of_true rfl fun M same => nomatch same
      | «include» M =>
        refine isSome_bind_iff.trans ⟨fun both other same => ?_, fun answered =>
          ⟨answered M rfl, ?_⟩⟩
        · cases same
          exact both.1
        · exact fun _ _ _ => rfl
    rw [first]
    constructor
    · rintro ⟨isFirst, others⟩ before M after table late split run
      cases before with
      | nil =>
        cases split
        cases run
        exact isFirst M rfl
      | cons item before =>
        obtain ⟨rfl, splitRest⟩ := List.cons.inj split
        rw [foldlM_cons] at run
        obtain ⟨⟨a, middle⟩, runFirst, runRest⟩ := bind_eq_some_iff.1 run
        exact ih.1 (others a middle runFirst) before M after table late splitRest runRest
    · intro each
      refine ⟨fun M same => each [] M rest start tables (same ▸ rfl) rfl, fun a middle run => ?_⟩
      refine ih.2 fun before M after table late split runRest => ?_
      refine each (contribution :: before) M after table late (congrArg _ split) ?_
      rw [foldlM_cons]
      exact (bind_run run).trans runRest

theorem isSome_askFor (tables : Tables) :
    (askFor d r singleton depth visiting n tables).isSome =
      (Query.answer? d r singleton ⟨visiting, tables, n⟩ depth).isSome := by
  show ((tableOf? d r singleton depth visiting n tables).bind _).isSome = _
  unfold Query.answer?
  cases tableOf? d r singleton depth visiting n tables <;> rfl

/-- **A query has an answer exactly if all queries that it leads to have one.** -/
theorem isSome_answer?_iff (q : Query) :
    (q.answer? d r singleton (depth + 1)).isSome ↔
      ∀ reason q', Asks d r singleton depth q reason q' →
        (q'.answer? d r singleton depth).isSome := by
  unfold Query.answer?
  cases found : d.get? q.name with
  | none =>
    rw [tableOf?_undeclared found]
    refine iff_of_true rfl fun reason q' asks => ?_
    cases asks with
    | again foundToo => cases found.symm.trans foundToo
    | start foundToo => cases found.symm.trans foundToo
    | contribution foundToo => cases found.symm.trans foundToo
  | some ns =>
    cases present : q.tables[q.name]? with
    | some table =>
      rw [tableOf?_found found present, isSome_map]
      refine isSome_startTable_iff.trans ⟨fun each reason q' asks =>
        ?_, fun each S new isClass linked => ?_⟩
      · cases asks with
        | again foundToo _ new isClass linked =>
          cases found.symm.trans foundToo
          exact (isSome_askFor ..).symm.trans (each _ new isClass linked)
        | start _ missing => cases present.symm.trans missing
        | contribution _ missing => cases present.symm.trans missing
      · exact (isSome_askFor ..).trans (each _ _ (.again found present new isClass linked))
    | none =>
      by_cases waits : q.name ∈ q.visiting
      · rw [tableOf?_waiting found present waits]
        refine iff_of_true rfl fun reason q' asks => ?_
        cases asks with
        | again _ complete => cases present.symm.trans complete
        | start _ _ fresh => exact absurd waits fresh
        | contribution _ _ fresh => exact absurd waits fresh
      · rw [tableOf?_new found present waits, isSome_bind_iff]
        constructor
        · rintro ⟨started, added⟩ reason q' asks
          cases asks with
          | again _ complete => cases present.symm.trans complete
          | start foundToo _ _ new isClass linked =>
            cases found.symm.trans foundToo
            exact (isSome_askFor ..).symm.trans
              (isSome_startTable_iff.1 started _ new isClass linked)
          | contribution foundToo _ _ isNext isStart run =>
            cases found.symm.trans foundToo
            have each := (isSome_bind_iff.1 (added _ _ isStart)).1
            exact (isSome_askFor ..).symm.trans
              (isSome_contributions_iff.1 each _ _ _ _ _ isNext run)
        · intro each
          refine ⟨isSome_startTable_iff.2 fun S new isClass linked =>
            ?_, fun base middle isStart => ?_⟩
          · exact (isSome_askFor ..).trans
              (each _ _ (.start found present waits new isClass linked))
          · refine isSome_bind_iff.2 ⟨isSome_contributions_iff.2 ?_, fun _ _ _ => rfl⟩
            intro before M after table late isNext run
            exact (isSome_askFor ..).trans
              (each _ _ (.contribution found present waits isNext isStart run))

/-! ## Queries of a linked unit -/

/-- What holds of every query of a unit whose classes are ranked. -/
structure Query.Sound (d : Declared) (r : Registry) (singleton : Bool) (rank : String → Nat)
    (q : Query) : Prop where
  waiting : Waiting d rank q.visiting q.name
  complete : Complete d r singleton q.tables

section Sound

variable {rank : String → Nat} {q q' : Query}

theorem Query.Sound.answered (sound : q.Sound d r singleton rank)
    (includes : d.IncludesMixins) (ranked : d.Ranked rank) {depth : Nat}
    (enough : layoutDepth d ≤ depth) :
    ∃ result after, q.answer? d r singleton depth = some (result, after) ∧
      Complete d r singleton after := by
  obtain ⟨result, after, run, complete, -⟩ := tableOf?_yields includes ranked depth sound.waiting
    ((roomFor_le d q.visiting).trans enough) sound.complete
  exact ⟨result, after, run, complete⟩

theorem LeftOver.complete (includes : d.IncludesMixins) (ranked : d.Ranked rank)
    {tables : Tables} (left : LeftOver d r singleton tables) :
    Complete d r singleton tables := by
  induction left with
  | none => exact .empty
  | @next tables after n depth result _ answered ih =>
    have sound : Query.Sound d r singleton rank ⟨[], tables, n⟩ :=
      ⟨.nil n, ih⟩
    obtain ⟨_, _, run, complete⟩ := sound.answered includes ranked (Nat.le_max_left _ depth)
    cases (tableOf?_refines (Nat.le_max_right _ _) [] n tables _ answered).symm.trans run
    exact complete

theorem Query.Sound.superclass (sound : q.Sound d r singleton rank)
    (includes : d.IncludesMixins) (ranked : d.Ranked rank) {depth : Nat}
    (asks : Asks d r singleton depth q .superclass q') :
    q'.Sound d r singleton rank ∧ q'.name ∉ q'.visiting := by
  cases asks with
  | again found _ new isClass linked =>
    have absent := sound.waiting.superclass_not_mem ranked found new isClass linked
    exact ⟨⟨(sound.waiting.superclass ranked includes found new isClass linked).of_cons,
      sound.complete⟩,
      fun waits => absent (mem_cons_of_mem _ waits)⟩
  | start found _ _ new isClass linked =>
    exact ⟨⟨sound.waiting.superclass ranked includes found new isClass linked, sound.complete⟩,
      sound.waiting.superclass_not_mem ranked found new isClass linked⟩

theorem Query.Sound.mixin (sound : q.Sound d r singleton rank)
    (includes : d.IncludesMixins) (ranked : d.Ranked rank) {depth : Nat}
    (asks : Asks d r singleton depth q .mixin q') :
    q'.Sound d r singleton rank := by
  cases asks with
  | @contribution ns before after M base table middle late found missing fresh isNext
      started added =>
    have next (M : String) (included : .include M ∈ ns.contributionsTo singleton) :
        Waiting d rank (q.name :: q.visiting) M :=
      sound.waiting.mixin fresh found (DeclaredNamespace.include_mem included) includes
    have isIncluded : .include M ∈ ns.contributionsTo singleton := by simp [isNext]
    refine ⟨next M isIncluded, ?_⟩
    -- With depth enough all of them have answers, and these are the same.
    have more : depth ≤ max depth (layoutDepth d) := Nat.le_max_left _ _
    have enough : roomFor d (q.name :: q.visiting) ≤ max depth (layoutDepth d) :=
      (roomFor_le _ _).trans (Nat.le_max_right _ _)
    have begins : Yields d r singleton (q.name :: q.visiting) q.tables
        (startTable (askFor d r singleton (max depth (layoutDepth d))
          (q.name :: q.visiting)) (r.tableOf q.name singleton) ns) fun after start =>
            StartsFrom d r singleton after q.name ns start := by
      refine Yields.start sound.complete fun S new isClass linked => ?_
      have absent := sound.waiting.superclass_not_mem ranked found new isClass linked
      exact ((tableOf?_yields includes ranked _
        (sound.waiting.superclass ranked includes found new isClass linked) enough
          sound.complete).imp
          fun _ _ seen => (seen absent).1).map
    obtain ⟨_, _, run, completeMiddle, -⟩ := begins
    cases (startTable_refines (askFor_refines more _) _ ns _ _ started).symm.trans run
    have extended : Yields d r singleton (q.name :: q.visiting) middle
        (before.foldlM (addContribution (askFor d r singleton
          (max depth (layoutDepth d)) (q.name :: q.visiting))) base) fun after table =>
            Gathers d r singleton after q.name base before table := by
      refine Yields.contributions before (fun other tables member complete => ?_) middle base
        completeMiddle
      have included : .include other ∈ ns.contributionsTo singleton := by
        rw [isNext]
        exact mem_append_left _ member
      refine ((tableOf?_yields includes ranked _ (next other included) enough complete).imp
        fun _ _ seen => ?_).map
      by_cases round : other ∈ q.name :: q.visiting
      · exact .inl (sound.waiting.reaches_of_mem found (DeclaredNamespace.include_mem included)
          includes round)
      · exact .inr (seen round).1
    obtain ⟨_, _, runLate, completeLate, -⟩ := extended
    cases (contributions_refines (askFor_refines more _) before base _ _ added).symm.trans runLate
    exact completeLate

theorem Reached.sound (includes : d.IncludesMixins) (ranked : d.Ranked rank)
    (reached : Reached d r singleton q) : q.Sound d r singleton rank := by
  induction reached with
  | first left n => exact ⟨.nil n, left.complete includes ranked⟩
  | @asked _ _ _ reason _ asks ih =>
    cases reason with
    | superclass => exact (ih.superclass includes ranked asks).1
    | mixin => exact ih.mixin includes ranked asks

/-- What goes down along queries: how many namespaces may still wait, and then the rank. A
registered namespace is below all new ones. -/
def Query.weight (d : Declared) (rank : String → Nat) (q : Query) : Nat :=
  (d.namespaces.size - q.visiting.length) * (d.namespaces.size + 2) +
    if (d.get? q.name).any (!·.registered) then rank q.name + 1 else 0

theorem Asks.weight_lt (ranked : d.Ranked rank) (sound : q'.Sound d r singleton rank)
    {depth : Nat} {reason : Reason} (asks : Asks d r singleton depth q reason q') :
    q'.weight d rank < q.weight d rank := by
  -- If one more namespace waits, the rest does not count.
  have longer {tables : Tables} {n m : String}
      (isLonger : (m :: q.visiting).length ≤ d.namespaces.size) :
      Query.weight d rank ⟨m :: q.visiting, tables, n⟩ < q.weight d rank := by
    have small : (if (d.get? n).any (!·.registered) then rank n + 1 else 0) <
        d.namespaces.size + 2 := by
      have := ranked.le_size n
      split <;> omega
    have room : d.namespaces.size - q.visiting.length =
        d.namespaces.size - (m :: q.visiting).length + 1 := by
      rw [length_cons] at isLonger ⊢
      omega
    unfold Query.weight
    rw [room, Nat.succ_mul]
    dsimp only
    omega
  cases asks with
  | @again ns _ S found _ new isClass linked =>
    unfold Query.weight
    refine Nat.add_lt_add_left ?_ _
    have isNew : (d.get? q.name).any (!·.registered) = true := by simp [found, new]
    rw [if_pos isNew]
    dsimp only
    split
    · rename_i baseNew
      obtain ⟨base, baseFound, isBaseNew⟩ := (Option.any_eq_true _ _).1 baseNew
      have link := Declared.parent?_eq_some.2 ⟨ns, base, found, new, isClass, linked, baseFound,
        by simpa using isBaseNew⟩
      exact Nat.succ_lt_succ (ranked.descends _ _ link)
    · exact Nat.succ_pos _
  | start => exact longer sound.waiting.length_le
  | contribution => exact longer sound.waiting.length_le

theorem Reached.acc (includes : d.IncludesMixins) (ranked : d.Ranked rank)
    (reached : Reached d r singleton q) :
    Acc (fun q' q => ∃ depth reason, Asks d r singleton depth q reason q') q := by
  induction weight : q.weight d rank using Nat.strong_induction_on generalizing q with
  | _ k ih =>
    refine .intro q fun q' ⟨depth, reason, asks⟩ => ?_
    have reachedToo := reached.asked asks
    exact ih _ (weight ▸ asks.weight_lt ranked (reachedToo.sound includes ranked)) reachedToo rfl

end Sound

end Queries

/-! ## Linked units -/

/-- The links from the new classes of a unit to their superclasses. -/
def Declared.Inherits (d : Declared) (n S : String) : Prop :=
  ∃ ns, d.get? n = some ns ∧ ns.registered = false ∧ ns.kind = .class ∧ ns.superclass = some S

theorem Declared.Ranked.lt_of_inherits {d : Declared} {rank : String → Nat} (ranked : d.Ranked rank)
    {n m : String} (inherits : Relation.TransGen d.Inherits n m) {ns : DeclaredNamespace}
    (found : d.get? m = some ns) (new : ns.registered = false) : rank m < rank n := by
  induction inherits generalizing ns with
  | single link =>
    obtain ⟨sub, foundSub, newSub, isClass, linked⟩ := link
    exact ranked.descends _ _
      (Declared.parent?_eq_some.2 ⟨sub, ns, foundSub, newSub, isClass, linked,
      found, new⟩)
  | tail _ link ih =>
    obtain ⟨sub, foundSub, newSub, isClass, linked⟩ := link
    exact (ranked.descends _ _
      (Declared.parent?_eq_some.2 ⟨sub, ns, foundSub, newSub, isClass, linked,
      found, new⟩)).trans (ih foundSub newSub)

theorem Declared.Ranked.no_circle {d : Declared} {rank : String → Nat} (ranked : d.Ranked rank)
    (n : String) : ¬Relation.TransGen d.Inherits n n := by
  intro circle
  obtain ⟨_, ⟨ns, found, new, -⟩, -⟩ := Relation.TransGen.head'_iff.1 circle
  exact Nat.lt_irrefl _ (ranked.lt_of_inherits circle found new)

section Linked

variable {r : Registry} (statements : List Stmt) {c : Collection} {info : NamespaceInfo}

theorem link_includesMixins (clean : c.Clean r) :
    (link r statements c).declared.IncludesMixins := by
  intro n ns M other found included foundOther
  have sources := link_sources r statements c n
  rw [found] at sources
  obtain ⟨walked, foundWalked, same⟩ := map_eq_some_iff.1 sources.symm
  have isSame : walked.contributions = ns.contributions := congrArg (·.2.1) same
  have seen := (linkWalk_over statements clean).1.include_of foundWalked (isSame ▸ included)
  have kinds := (link_kinds r statements c M).trans ((linkWalk_steps r statements c).kinds M).symm
  rw [foundOther] at kinds
  obtain ⟨mixin, foundMixin, sameKind⟩ := map_eq_some_iff.1 kinds.symm
  exact sameKind.symm.trans (seen.kind_eq foundMixin)

theorem link_isRanked (clean : c.Clean r) (object : r.get? objectName = some info) :
    ∃ rank, (link r statements c).declared.Ranked rank := by
  exact (link_ranked clean object).imp fun rank ranked => ⟨ranked.1, ranked.2⟩

end Linked

/-- Laying out the namespaces of a unit comes to an end, whichever are laid out and in whatever
order. -/
structure Declared.LayoutEnds (r : Registry) (d : Declared) : Prop where
  /-- There is no circle of new classes. -/
  no_circle : ∀ n, ¬Relation.TransGen d.Inherits n n
  /-- What a query leads to is all that it needs answers to. -/
  isSome_answer : ∀ singleton q depth, (q.answer? d r singleton (depth + 1)).isSome ↔
    ∀ reason q', Asks d r singleton depth q reason q' →
      (q'.answer? d r singleton depth).isSome
  /-- No query leads to an endless chain of others. -/
  no_chain : ∀ singleton q, Reached d r singleton q →
    Acc (fun q' q => ∃ depth reason, Asks d r singleton depth q reason q') q
  /-- Every query has an answer, which a depth that depends on the unit only is enough for. -/
  answered : ∀ singleton q, Reached d r singleton q →
    ∃ answer, ∀ depth, layoutDepth d ≤ depth → q.answer? d r singleton depth = some answer
  /-- What is still being laid out is asked for as a mixin only. -/
  inProgress : ∀ singleton q depth reason q', Reached d r singleton q →
    Asks d r singleton depth q reason q' → q'.InProgress d → reason = .mixin

/-- **Laying out the namespaces of a linked unit comes to an end**, whatever the registry has, as
long as it has the default superclass. -/
theorem link_layoutEnds {r : Registry} {info : NamespaceInfo} (statements : List Stmt)
    (object : r.get? objectName = some info) :
    (link r statements (collect r statements)).declared.LayoutEnds r := by
  have clean := clean_collect r statements
  obtain ⟨rank, ranked⟩ := link_isRanked statements clean object
  have includes := link_includesMixins statements clean
  refine ⟨ranked.no_circle, fun singleton q depth => isSome_answer?_iff depth q,
    fun singleton q reached => reached.acc includes ranked, fun singleton q reached => ?_,
    fun singleton q depth reason q' reached asks inProgress => ?_⟩
  · obtain ⟨result, after, answered, -⟩ :=
      (reached.sound includes ranked).answered includes ranked (Nat.le_refl _)
    exact ⟨(result, after), fun depth enough => tableOf?_refines enough _ _ _ _ answered⟩
  · cases reason with
    | superclass =>
      exact absurd inProgress.2.2
        ((reached.sound includes ranked).superclass includes ranked asks).2
    | mixin => rfl

/-- Two classes that inherit from each other, one that inherits from itself, one below them all, and
two mixins that include each other. -/
def circularStatements : List Stmt := [
  .namespace .zero .class ⟨["D"], false⟩ (some ⟨["A"], false⟩) [],
  .namespace .zero .class ⟨["A"], false⟩ (some ⟨["B"], false⟩) [],
  .namespace .zero .class ⟨["B"], false⟩ (some ⟨["A"], false⟩) [.include .zero [⟨["M"], false⟩]],
  .namespace .zero .class ⟨["C"], false⟩ (some ⟨["C"], false⟩) [],
  .namespace .zero .mixin ⟨["M"], false⟩ none [.include .zero [⟨["N"], false⟩]],
  .namespace .zero .mixin ⟨["N"], false⟩ none [.include .zero [⟨["M"], false⟩]]]

/-- Both circles are cut, and the chain that leads into the first one is left as it is. -/
theorem link_layoutEnds_circular :
    (Registry.prelude.get? objectName).isSome ∧
      ["Root::D", "Root::A", "Root::B", "Root::C"].map (fun n =>
        ((link .prelude circularStatements (collect .prelude circularStatements)).declared.get?
          n).bind
          DeclaredNamespace.superclass) =
        [some "Root::A", some "Root::Std::Object", some "Root::A", some "Root::Std::Object"] ∧
      (link .prelude circularStatements (collect .prelude circularStatements)).declared.LayoutEnds
        .prelude := by
  have there : (Registry.prelude.get? objectName).isSome := by decide +kernel
  obtain ⟨info, object⟩ := Option.isSome_iff_exists.1 there
  exact ⟨there, by decide +kernel, link_layoutEnds circularStatements object⟩

end StackCode
