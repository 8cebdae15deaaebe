import StackCode.Proofs.LayoutQueries
import StackCode.Proofs.NamespaceDefinitions

/-!
# Layouts by their plain definition

The table of a namespace appends to what it starts from, in the order of the body, what is declared
and what the included mixins have. That is a definition by equations (`PlainTables`): it says
nothing about which table comes first, nor about tables that are kept or namespaces that wait.

If no mixin of the unit includes itself, there is exactly one solution, and it is what laying out
gives, in whatever order (`layOutIn_plain`). The tables that are longer than what they start from
are registered by a function of the unit (`compileUnit_layoutDefinitions`).
-/

namespace StackCode

open List

section Plain

variable (d : Declared) (r : Registry) (singleton : Bool)

/-- What a namespace starts from, given the tables of the others. One that is registered has its
table there, a new class the table of its superclass, and all else starts from nothing. -/
def plainStart (tables : String → NameTable) (n : String) (ns : DeclaredNamespace) : NameTable :=
  if ns.registered then r.tableOf n singleton
  else if ns.kind = .class then (ns.superclass.map tables).getD .empty
  else .empty

/-- What one contribution adds, given the tables of the others. -/
def plainAdd (tables : String → NameTable) (table : NameTable) : Contribution → NameTable
  | .declare name _ => table.insert name
  | .include M => table.append (tables M)

/-- The table of a namespace, given the tables of the others. -/
def plainTable (tables : String → NameTable) (n : String) : NameTable :=
  match d.get? n with
  | none => r.tableOf n singleton
  | some ns =>
    (ns.contributionsTo singleton).foldl (plainAdd tables) (plainStart r singleton tables n ns)

/-- Tables are as the definition says. -/
def PlainTables (tables : String → NameTable) : Prop :=
  ∀ n, tables n = plainTable d r singleton tables n

variable {d r singleton}

theorem le_foldl_plainAdd (tables : String → NameTable) (contributions : List Contribution)
    (start : NameTable) : start ≤ contributions.foldl (plainAdd tables) start := by
  induction contributions generalizing start with
  | nil => exact le_refl start
  | cons contribution rest ih =>
    refine le_trans ?_ (ih _)
    cases contribution with
    | declare name span => exact NameTable.le_insert start name
    | «include» M => exact NameTable.le_append start (tables M)

/-- No mixin of a unit includes itself, directly or by way of others. -/
def Declared.MixinsAcyclic (d : Declared) : Prop :=
  ∀ M ns, d.get? M = some ns → ns.kind = .mixin → ¬d.Reaches M M

theorem Declared.MixinsAcyclic.not_reaches (acyclic : d.MixinsAcyclic)
    (includes : d.IncludesMixins) (n : String) : ¬d.Reaches n n := by
  intro circle
  obtain ⟨_, ⟨ns, found, -⟩, -⟩ := Relation.TransGen.head'_iff.1 circle
  obtain ⟨m, -, other, foundOther, included⟩ := Relation.TransGen.tail'_iff.1 circle
  exact acyclic n ns found (includes m other n ns foundOther included found) circle

theorem Declared.MixinsAcyclic.of_rank (rank : String → Nat)
    (falls : ∀ n M, d.Includes n M → rank M < rank n) : d.MixinsAcyclic := by
  have lower {n m : String} (reached : d.Reaches n m) : rank m < rank n := by
    induction reached with
    | single included => exact falls _ _ included
    | tail _ included ih => exact (falls _ _ included).trans ih
  exact fun M _ _ _ circle => Nat.lt_irrefl _ (lower circle)

/-! ## What is completed is the solution -/

section Solution

variable {tables : Tables} {final : String → NameTable} {n : String} {ns : DeclaredNamespace}
  {start table : NameTable}

theorem SeenIn.unique {other : NameTable} (seen : SeenIn d r singleton tables n table)
    (also : SeenIn d r singleton tables n other) : table = other := by
  unfold SeenIn at seen also
  split at seen <;> simp_all

theorem StartsFrom.eq_plain (starts : StartsFrom d r singleton tables n ns start)
    (seen : ∀ m other, SeenIn d r singleton tables m other → other = final m) :
    start = plainStart r singleton final n ns := by
  cases starts with
  | registered old => simp [plainStart, old]
  | superclass new isClass linked isSeen => simp [plainStart, new, isClass, linked, seen _ _ isSeen]
  | nothing new unlinked =>
    by_cases isClass : ns.kind = .class
    · simp [plainStart, new, isClass, unlinked isClass]
    · simp [plainStart, new, isClass]

theorem Gathers.eq_plain {contributions : List Contribution}
    (makes : Gathers d r singleton tables n start contributions table)
    (apart : ∀ M, .include M ∈ contributions → ¬d.Reaches M n)
    (seen : ∀ m other, SeenIn d r singleton tables m other → other = final m) :
    table = contributions.foldl (plainAdd final) start := by
  induction makes with
  | nil table => rfl
  | declare span _ ih => exact ih fun M member => apart M (mem_cons_of_mem _ member)
  | @«include» start other table M rest given _ ih =>
    have isFinal := seen M other (given.resolve_left (apart M mem_cons_self))
    rw [ih fun M member => apart M (mem_cons_of_mem _ member), isFinal]
    rfl

variable (noCircle : ∀ n, ¬d.Reaches n n)

include noCircle

theorem Gathers.eq_plainTable (found : d.get? n = some ns)
    (starts : StartsFrom d r singleton tables n ns start)
    (makes : Gathers d r singleton tables n start (ns.contributionsTo singleton) table)
    (seen : ∀ m other, SeenIn d r singleton tables m other → other = final m) :
    table = plainTable d r singleton final n := by
  have apart (M : String) (member : .include M ∈ ns.contributionsTo singleton) : ¬d.Reaches M n :=
    fun reaches => noCircle n (reaches.head ⟨ns, found, DeclaredNamespace.include_mem member⟩)
  rw [makes.eq_plain apart seen, starts.eq_plain seen, plainTable, found]

/-- **Whatever is completed is as the definition says.** Each table was made of earlier ones, so the
induction is on the order in which they were completed. -/
theorem Complete.eq_plain (complete : Complete d r singleton tables)
    (plain : PlainTables d r singleton final) :
    ∀ m other, SeenIn d r singleton tables m other → other = final m := by
  have present (tables : Tables) (kept : ∀ (m : String) (other : NameTable), tables[m]? =
    some other →
      other = final m) (m : String) (other : NameTable)
      (seen : SeenIn d r singleton tables m other) : other = final m := by
    unfold SeenIn at seen
    split at seen
    · rename_i undeclared
      rw [seen, plain m, plainTable, undeclared]
    · exact kept m other seen
  refine present tables ?_
  induction complete with
  | empty => simp
  | @insert before n ns start table _ _ found starts makes ih =>
    intro m other isThere
    rw [Std.ExtTreeMap.getElem?_insert] at isThere
    split at isThere
    · rename_i same
      cases Std.LawfulEqCmp.eq_of_compare same
      cases isThere
      rw [plain n]
      exact makes.eq_plainTable noCircle found starts (present before ih)
    · exact ih m other isThere

/-- **Where every namespace has been laid out, the equations have exactly one solution.** -/
theorem Complete.existsUnique_plain (complete : Complete d r singleton tables)
    (all : ∀ n, (d.get? n).isSome → (tables[n]?).isSome) :
    ∃ final, PlainTables d r singleton final ∧
      ∀ others, PlainTables d r singleton others → others = final := by
  have isSeen (n : String) : ∃ table, SeenIn d r singleton tables n table := by
    unfold SeenIn
    cases found : d.get? n with
    | none => exact ⟨_, rfl⟩
    | some ns => exact Option.isSome_iff_exists.1 (all n (by rw [found]; rfl))
  choose final isFinal using isSeen
  refine ⟨final, fun n => ?_, fun others plain => ?_⟩
  · have here := isFinal n
    unfold SeenIn at here
    split at here
    · rename_i undeclared
      rw [here, plainTable, undeclared]
    · obtain ⟨ns, start, found, starts, makes⟩ := complete.made here
      exact makes.eq_plainTable noCircle found starts fun m _ seen => seen.unique (isFinal m)
  · exact funext fun n => (complete.eq_plain noCircle plain n _ (isFinal n)).symm

end Solution

end Plain

/-! ## Laying out a unit -/

/-- Lay out namespaces in an order. -/
def layOutIn (r : Registry) (d : Declared) (order : List DeclaredNamespace)
    (issues : Array Issue) : LayingOut :=
  order.foldl (LayingOut.layOutNamespace d r) ⟨.empty, issues⟩

/-- Those of some tables that are longer than what they start from. -/
def grownTables (r : Registry) (final : Bool → String → NameTable)
    (tables : List (DeclaredNamespace × Bool)) : List LayoutChange :=
  (tables.filter fun (ns, singleton) =>
    (plainStart r singleton (final singleton) ns.fullName ns).size <
      (final singleton ns.fullName).size).map fun (ns, singleton) => ⟨ns.fullName, singleton⟩

theorem layOutTable_changes {d : Declared} {r : Registry} {singleton : Bool}
    {ns : DeclaredNamespace} {l : LayingOut} {table : NameTable} {base : Nat} {after : Tables}
    (run : tableOf? d r singleton (layoutDepth d) [] ns.fullName
      (l.layouts.tablesOf singleton) = some ((table, base), after)) :
    (LayingOut.layOutTable d r singleton ns l).layouts.changes =
      l.layouts.changes ++ if base < table.size then [⟨ns.fullName, singleton⟩] else [] := by
  rw [Layouts.tablesOf] at run
  unfold LayingOut.layOutTable StateT.run
  dsimp only
  rw [run]
  dsimp only
  split
  · cases singleton <;> rfl
  · cases singleton <;> simp

section LayOut

variable {d : Declared} {r : Registry} {final : Bool → String → NameTable}
  {rank : String → Nat} (includes : d.IncludesMixins) (ranked : d.Ranked rank)
  (noCircle : ∀ n, ¬d.Reaches n n)

include includes ranked noCircle

theorem existsUnique_plainTables (filed : ∀ n ns, d.get? n = some ns → ns.fullName = n)
    (singleton : Bool) : ∃ final, PlainTables d r singleton final ∧
      ∀ others, PlainTables d r singleton others → others = final := by
  have listed {ns : DeclaredNamespace} : ns ∈ d.namespaces.toValues ↔
      d.get? ns.fullName = some ns := OrderedMap.mem_toValues_iff filed
  obtain ⟨progresses, settled⟩ := layOutTables_settled includes ranked
    (d.namespaces.toValues.map (·, singleton)) ⟨.empty, #[]⟩ (by simp [listed])
    (@complete_empty d r)
  refine (progresses.complete complete_empty singleton).existsUnique_plain noCircle
    fun n isDeclared => ?_
  obtain ⟨ns, found⟩ := Option.isSome_iff_exists.1 isDeclared
  obtain rfl := filed n ns found
  obtain ⟨table, present, -⟩ := settled (ns, singleton) (mem_map.2 ⟨ns, listed.2 found, rfl⟩)
  rw [Layouts.table?_eq] at present
  exact present ▸ rfl

variable (plain : ∀ singleton, PlainTables d r singleton (final singleton))

include plain

theorem layOutTable_grown {l : LayingOut}
    (complete : ∀ singleton, Complete d r singleton (l.layouts.tablesOf singleton))
    {ns : DeclaredNamespace} (found : d.get? ns.fullName = some ns) (singleton : Bool) :
    (LayingOut.layOutTable d r singleton ns l).layouts.changes =
      l.layouts.changes ++ grownTables r final [(ns, singleton)] := by
  obtain ⟨⟨table, base⟩, after, run, completeAfter, -, seen⟩ := tableOf?_yields includes ranked
    (layoutDepth d) (.nil ns.fullName) (roomFor_le d []) (complete singleton)
  obtain ⟨isSeen, starts⟩ := seen not_mem_nil
  obtain ⟨start, startsFrom, size⟩ := starts ns found
  have final := completeAfter.eq_plain noCircle (plain singleton)
  dsimp only at isSeen size
  rw [layOutTable_changes run, size, startsFrom.eq_plain final, final _ _ isSeen, grownTables]
  split <;> rename_i grown <;> simp [grown]

theorem layOutTables_grown (tables : List (DeclaredNamespace × Bool)) : ∀ l : LayingOut,
    (∀ table ∈ tables, d.get? table.1.fullName = some table.1) →
    (∀ singleton, Complete d r singleton (l.layouts.tablesOf singleton)) →
    (tables.foldl (fun l table => LayingOut.layOutTable d r table.2 table.1 l) l).layouts.changes =
      l.layouts.changes ++ grownTables r final tables := by
  induction tables with
  | nil => exact fun l _ _ => (append_nil _).symm
  | cons table rest ih =>
    intro l listed complete
    have found := listed table mem_cons_self
    obtain ⟨progresses, -⟩ := layOutTable_settled includes ranked complete found table.2
    have later := ih _ (fun other member => listed other (mem_cons_of_mem table member))
      (progresses.complete complete)
    rw [foldl_cons, later, layOutTable_grown includes ranked noCircle plain complete found,
      append_assoc]
    refine congrArg (l.layouts.changes ++ ·) ?_
    simp only [grownTables, ← map_append, ← filter_append]
    rfl

/-- **Laying out namespaces gives them the final tables**, in whatever order they come, and lists
those that grew. -/
theorem layOutIn_plain (filed : ∀ n ns, d.get? n = some ns → ns.fullName = n)
    (order : List DeclaredNamespace) (issues : Array Issue)
    (perm : order.Perm d.namespaces.toValues) :
    (layOutIn r d order issues).layouts.changes =
        grownTables r final (tablesIn order) ∧
      ∀ n ns singleton, d.get? n = some ns → ns.hasTable singleton = true →
        (layOutIn r d order issues).layouts.table? n singleton = some (final singleton n) := by
  have listed {ns : DeclaredNamespace} : ns ∈ order ↔ d.get? ns.fullName = some ns :=
    perm.mem_iff.trans (OrderedMap.mem_toValues_iff filed)
  have inOrder : ∀ table ∈ tablesIn order, d.get? table.1.fullName = some table.1 :=
    fun _ member => listed.1 (mem_tablesIn.1 member).1
  rw [layOutIn, foldl_layOutNamespace]
  refine ⟨layOutTables_grown includes ranked noCircle plain _ _ inOrder complete_empty,
    fun n ns singleton found has => ?_⟩
  obtain rfl := filed n ns found
  obtain ⟨progresses, settled⟩ :=
    layOutTables_settled includes ranked (tablesIn order) ⟨.empty, issues⟩
    inOrder (@complete_empty d r)
  obtain ⟨table, present, -⟩ := settled _ (mem_tablesIn.2 ⟨listed.2 found, has⟩)
  have completed := progresses.complete complete_empty singleton
  rw [present, completed.eq_plain noCircle (plain singleton) ns.fullName table]
  unfold SeenIn
  rw [found]
  exact (Layouts.table?_eq _ _ _).symm.trans present

end LayOut

/-! ## What is registered -/

/-- Instructions that register some tables, one after the other: each refers to a namespace or to
its singleton, loads the table and registers it. -/
inductive RegisteredBy (constants : List Value) : List (LayoutChange × NameTable) → List Instr →
    Prop where
  | nil : RegisteredBy constants [] []
  | cons {n : String} {singleton : Bool} {table : NameTable} {i j : UInt16}
      {tables : List (LayoutChange × NameTable)} {rest : List Instr}
      (owner : constants[i.toNat]? = some (.symbol n))
      (value : constants[j.toNat]? = some (.ivars table))
      (others : RegisteredBy constants tables rest) :
      RegisteredBy constants ((⟨n, singleton⟩, table) :: tables)
        (.indexed .getConst i :: (if singleton then [.plain .getSingleton] else []) ++
          .indexed .loadValue j :: .plain .defIvars :: rest)

/-- The function that registers the tables of a unit. -/
def CompiledFunction.layoutDefinitions? (f : CompiledFunction) : Option CompiledFunction :=
  (f.constants.filterMap Value.function?).find? (·.name = "<ivarIndices>")

/-- A unit registers some tables in order, and nothing else. Without any it has no function for
that. -/
def CompiledFunction.RegistersLayouts (f : CompiledFunction)
    (tables : List (LayoutChange × NameTable)) : Prop :=
  f.layoutDefinitions? = none ∧ tables = [] ∨ ∃ g room instrs, f.layoutDefinitions? = some g ∧
    g.reads = room ++ (instrs ++ [.plain .pushNil, .plain .ret]) ∧
    (room = [] ∨ ∃ i, room = [.indexed .prepLocals i]) ∧ RegisteredBy g.constants tables instrs

section Registers

variable {unit : UnitInfo} (final : LayoutChange → NameTable) {W : World}

theorem RegisteredBy.of_encoded {changes : List LayoutChange}
    (laidOut : ∀ change ∈ changes, unit.layouts.table? change.fullName change.singleton =
      some (final change)) {instrs : List Instr}
    (each : Forall₂ (Encoded W)
      (changes.flatMap (LayoutChange.ops unit) ++ [.plain .pushNil, .plain .ret]) instrs) :
    ∃ own, instrs = own ++ [.plain .pushNil, .plain .ret] ∧
      RegisteredBy W.pool (changes.map fun change => (change, final change)) own := by
  induction changes generalizing instrs with
  | nil =>
    rcases each with _ | ⟨⟨⟩, _ | ⟨⟨⟩, ⟨⟩⟩⟩
    exact ⟨[], rfl, .nil⟩
  | cons change rest ih =>
    obtain ⟨n, singleton⟩ := change
    rw [flatMap_cons, LayoutChange.ops, laidOut _ mem_cons_self] at each
    rcases each with _ | ⟨owner, each⟩
    cases owner with
    | constant known owner =>
      cases known n rfl
      cases singleton
      case' true => rcases each with _ | ⟨⟨⟩, each⟩
      all_goals
        rcases each with _ | ⟨value, _ | ⟨⟨⟩, each⟩⟩
        cases value with
        | value _ value =>
          obtain ⟨own, rfl, others⟩ :=
            ih (fun change member => laidOut change (mem_cons_of_mem _ member)) each
          exact ⟨_, rfl, .cons owner value others⟩

/-- **A unit registers the tables that grew**, in the order in which they are listed, and no
other. -/
theorem compileUnit_layoutDefinitions {o : Options} {r : Registry} {p : Program}
    (clean : ¬Failed (compileUnit o r p).issues)
    (laidOut : ∀ change ∈ (p.laidOut r).layouts.changes,
      (p.laidOut r).layouts.table? change.fullName change.singleton = some (final change)) :
    (compileUnit o r p).function.RegistersLayouts
      ((p.laidOut r).layouts.changes.map fun change => (change, final change)) := by
  obtain ⟨bodies, namespaces, ivars, functions, -, built, isBody, names, isIvars⟩ :=
    compileUnit_functions clean
  have early : ∀ g ∈ bodies ++ namespaces, g.name ≠ "<ivarIndices>" := by
    intro g member
    rcases mem_append.1 member with inText | isNamespaces
    · exact (isBody g inText).ne (by decide) (by decide)
    · rw [names g isNamespaces]
      decide
  have late : ∀ g ∈ (p.unitInfo o r).definingMembers p.span
      (p.compiledBody o r).2.members, g.name ≠ "<ivarIndices>" := by
    intro g member
    rw [UnitInfo.name_definingMembers member]
    decide
  have found : (compileUnit o r p).function.layoutDefinitions?.toList = ivars := by
    rw [CompiledFunction.layoutDefinitions?, functions, ← append_assoc,
      toList_find?_name early isIvars late (length_le_one built)]
  split at built
  · rename_i none
    cases built
    have unchanged : (p.laidOut r).layouts.changes = [] := isEmpty_iff.1 none
    exact .inl ⟨Option.toList_eq_nil_iff.1 found, by rw [unchanged, map_nil]⟩
  · rcases built with _ | ⟨⟨⟨room, instrs, assembled⟩, -⟩, ⟨⟩⟩
    cases assembled.codes 0 with
    | ops each =>
      obtain ⟨own, rfl, registered⟩ :=
        @RegisteredBy.of_encoded (p.unitInfo o r) final _ _ laidOut _ each
      exact .inr ⟨_, room, own, Option.toList_eq_singleton_iff.1 found, assembled.written.reads,
        assembled.isRoom, registered⟩

end Registers

/-! ## Linked units -/

theorem link_fullName {r : Registry} {statements : List Stmt} {c : Collection}
    {info : NamespaceInfo} (clean : c.Clean r) (object : r.get? objectName = some info)
    (n : String) (ns : DeclaredNamespace)
    (found : (link r statements c).declared.get? n = some ns) :
    ns.fullName = n := by
  obtain ⟨-, change, changes, -⟩ :=
    (linkCut_uncircled statements clean object).1.trans (linkCut_fallsBack r statements c)
  rw [changes.get?_eq] at found
  obtain ⟨walked, foundWalked, rfl⟩ := Option.map_eq_some_iff.1 found
  rw [changes.fullName_eq]
  exact (linkWalk_over statements clean).1.fullName_eq foundWalked

/-- The layouts of a unit are some tables. -/
structure Program.LaysOutPlainly (p : Program) (r : Registry)
    (final : Bool → String → NameTable) : Prop where
  /-- The tables are the only ones that the definition describes. -/
  plain_iff : ∀ singleton tables,
    PlainTables (p.linked r).declared r singleton tables ↔ tables = final singleton
  /-- Laying out gives them to the namespaces, -/
  table?_laidOut : ∀ n ns singleton, (p.linked r).declared.get? n = some ns →
    ns.hasTable singleton = true →
    (p.laidOut r).layouts.table? n singleton = some (final singleton n)
  /-- also if these come in another order. -/
  table?_layOutIn : ∀ order issues,
    order.Perm (p.linked r).declared.namespaces.toValues →
    ∀ n ns singleton, (p.linked r).declared.get? n = some ns →
      ns.hasTable singleton = true →
      (layOutIn r (p.linked r).declared order issues).layouts.table? n singleton =
        some (final singleton n)
  /-- Each table extends what it starts from. -/
  start_le : ∀ n ns singleton, (p.linked r).declared.get? n = some ns →
    plainStart r singleton (final singleton) n ns ≤ final singleton n
  /-- Those that are longer are listed as grown, -/
  changes : (p.laidOut r).layouts.changes =
    grownTables r final (tablesIn (p.linked r).declared.namespaces.toValues)
  /-- and they are what the code registers. -/
  registers : ∀ o current f,
    (compileAgainst o r current p).1.function = some f →
    f.RegistersLayouts ((p.laidOut r).layouts.changes.map fun change =>
      (change, final change.singleton change.fullName))

/-- **The layouts of a unit are those of the plain definition**, if no mixin of the unit includes
itself. -/
theorem laidOut_plain {r : Registry} {info : NamespaceInfo} {p : Program}
    (object : r.get? objectName = some info)
    (acyclic : (p.linked r).declared.MixinsAcyclic) :
    ∃ final, p.LaysOutPlainly r final := by
  let d := (p.linked r).declared
  have clean := clean_collect r p.statements
  obtain ⟨rank, ranked⟩ := link_isRanked p.statements clean object
  have includes : d.IncludesMixins := link_includesMixins p.statements clean
  have noCircle := acyclic.not_reaches includes
  have filed (n : String) (ns : DeclaredNamespace) (found : d.get? n = some ns) : ns.fullName = n :=
    link_fullName clean object n ns found
  choose final plain unique using
    @existsUnique_plainTables d r rank includes ranked noCircle filed
  have inOrder := layOutIn_plain includes ranked noCircle plain filed
  obtain ⟨changes, own⟩ := inOrder _ (p.linked r).issues (.refl _)
  refine ⟨final, fun singleton other => ⟨unique singleton other, ?_⟩, own,
    fun order issues perm => (inOrder order issues perm).2, fun n ns singleton found => ?_, changes,
      fun o current f compiled => ?_⟩
  · rintro rfl
    exact plain singleton
  · rw [plain singleton n, plainTable, found]
    exact le_foldl_plainAdd _ _ _
  · obtain ⟨⟨clean, -⟩, rfl⟩ := compileAgainst_published compiled
    refine compileUnit_layoutDefinitions
      (fun change => final change.singleton change.fullName) clean
      fun change member => ?_
    obtain ⟨⟨ns, singleton⟩, grown, rfl⟩ := mem_map.1 (changes ▸ member)
    obtain ⟨isListed, has⟩ := mem_tablesIn.1 (mem_filter.1 grown).1
    exact own ns.fullName ns singleton ((OrderedMap.mem_toValues_iff filed).1 isListed) has

/-- A subclass before its superclass, mixins that include each other, and a class that is opened
again. -/
def reopeningUnit : Program :=
  let at_ := Span.zero
  .ofStatements [
    .namespace at_ .class ⟨["D"], false⟩ (some ⟨["C"], false⟩) [
      .ivar at_ "d" none, .include at_ [⟨["N"], false⟩]],
    .namespace at_ .class ⟨["C"], false⟩ none [
      .include at_ [⟨["M"], false⟩], .singleton at_ [.ivar at_ "s" none]],
    .namespace at_ .mixin ⟨["M"], false⟩ none [.include at_ [⟨["N"], false⟩], .ivar at_ "m" none],
    .namespace at_ .mixin ⟨["N"], false⟩ none [.ivar at_ "n" none],
    .namespace at_ .class ⟨["C"], false⟩ none [.ivar at_ "n" none, .ivar at_ "c" none]]

/-- The code registers the tables of all four namespaces, although the first one needs all the
others: its table begins with that of its superclass. -/
theorem laidOut_plain_reopening :
    (Registry.prelude.get? objectName).isSome ∧
      (reopeningUnit.linked .prelude).declared.MixinsAcyclic ∧
      (reopeningUnit.laidOut .prelude).layouts.changes =
        [⟨"Root::D", false⟩, ⟨"Root::C", false⟩, ⟨"Root::C", true⟩, ⟨"Root::M", false⟩,
          ⟨"Root::N", false⟩] ∧
      (["Root::C", "Root::D"].map fun n =>
        ((reopeningUnit.laidOut .prelude).layouts.table? n false).map
        (·.names.toList)) = [some ["n", "m", "c"], some ["n", "m", "c", "d"]] ∧
      ∃ final, reopeningUnit.LaysOutPlainly .prelude final := by
  have there : (Registry.prelude.get? objectName).isSome := by decide +kernel
  have object := Option.eq_some_of_isSome there
  have acyclic : (reopeningUnit.linked .prelude).declared.MixinsAcyclic := by
    have clean := clean_collect .prelude reopeningUnit.statements
    have filed (n : String) (ns : DeclaredNamespace) :
        (reopeningUnit.linked .prelude).declared.get? n = some ns → ns.fullName = n :=
      link_fullName clean object n ns
    have falls : ∀ ns ∈ (reopeningUnit.linked .prelude).declared.namespaces.toValues,
      ∀ M ∈ ns.mixins,
        ["Root::N", "Root::M"].idxOf M < ["Root::N", "Root::M"].idxOf ns.fullName := by
      decide +kernel
    refine .of_rank (["Root::N", "Root::M"].idxOf ·) ?_
    rintro n M ⟨ns, found, included⟩
    obtain rfl := filed n ns found
    exact falls ns ((OrderedMap.mem_toValues_iff filed).2 found) M
      ((link_mixin_iff clean found M).2 included)
  exact ⟨there, acyclic, by decide +kernel, by decide +kernel, laidOut_plain object acyclic⟩

end StackCode
