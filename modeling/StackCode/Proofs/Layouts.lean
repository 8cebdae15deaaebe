import StackCode.Namespace.Layout
import StackCode.Proofs.Ancestry
import StackCode.Proofs.TableOrder

/-!
# What a layout is made of

The tables of a unit are laid out one after the other, and those that are complete are kept. Each of
them was made of the table that its namespace starts from and of what is contributed to it, in order
(`Complete`). There is one exception: a mixin that is still being laid out contributes nothing. Such
a mixin reaches, by inclusions of the unit, the namespace that includes it (`Declared.Reaches`).

Classes wait for classes of lower rank only (`Waiting`), so the recursion neither runs out of depth
nor comes back to a superclass that is still being laid out.
-/

namespace StackCode

open List Option

/-- A namespace of the unit includes a mixin. -/
def Declared.Includes (d : Declared) (n M : String) : Prop :=
  ∃ ns, d.get? n = some ns ∧ .include M ∈ ns.contributions

/-- A namespace includes another, directly or by way of others. -/
abbrev Declared.Reaches (d : Declared) : String → String → Prop := Relation.TransGen d.Includes

section Tables

variable (d : Declared) (r : Registry) (singleton : Bool)
variable {α : Type}

/-- The table of a namespace as a unit sees it: the complete one, or the registered one of
a namespace that the unit leaves alone. -/
def SeenIn (tables : Tables) (n : String) (table : NameTable) : Prop :=
  match d.get? n with
  | none => table = r.tableOf n singleton
  | some _ => tables[n]? = some table

/-- What the table of a namespace starts from. -/
inductive StartsFrom (tables : Tables) (n : String) (ns : DeclaredNamespace) :
    NameTable → Prop where
  | registered (old : ns.registered = true) : StartsFrom tables n ns (r.tableOf n singleton)
  | superclass {S : String} {table : NameTable}
      (new : ns.registered = false) (isClass : ns.kind = .class)
      (linked : ns.superclass = some S) (seen : SeenIn d r singleton tables S table) :
      StartsFrom tables n ns table
  | nothing (new : ns.registered = false) (unlinked : ns.kind = .class → ns.superclass = none) :
      StartsFrom tables n ns .empty

/-- The table that contributions to a namespace make of another one. What is included is seen, or
comes back to the namespace. -/
inductive Gathers (tables : Tables) (n : String) : NameTable → List Contribution → NameTable →
    Prop where
  | nil (table : NameTable) : Gathers tables n table [] table
  | declare {start table : NameTable} {x : String} {rest : List Contribution} (span : Span)
      (later : Gathers tables n (start.insert x) rest table) :
      Gathers tables n start (.declare x span :: rest) table
  | include {start other table : NameTable} {M : String} {rest : List Contribution}
      (given : d.Reaches M n ∨ SeenIn d r singleton tables M other)
      (later : Gathers tables n (start.append other) rest table) :
      Gathers tables n start (.include M :: rest) table

/-- Tables that were completed one after the other, each of them from the table that its namespace
starts from and from what is contributed to it. -/
inductive Complete : Tables → Prop where
  | empty : Complete ∅
  | insert {before : Tables} {n : String} {ns : DeclaredNamespace} {start table : NameTable}
      (complete : Complete before) (missing : before[n]? = none) (found : d.get? n = some ns)
      (starts : StartsFrom d r singleton before n ns start)
      (makes : Gathers d r singleton before n start (ns.contributionsTo singleton) table) :
      Complete (before.insert n table)

/-- Tables were completed, none of them of a namespace that waits. -/
structure Grows (visiting : List String) (before after : Tables) : Prop where
  kept : ∀ (n : String) (table : NameTable), before[n]? = some table → after[n]? = some table
  waiting : ∀ n ∈ visiting, before[n]? = none → after[n]? = none

variable {d r singleton}

theorem Grows.refl (visiting : List String) (tables : Tables) : Grows visiting tables tables :=
  ⟨fun _ _ found => found, fun _ _ missing => missing⟩

theorem Grows.trans {visiting : List String} {first second third : Tables}
    (early : Grows visiting first second) (late : Grows visiting second third) :
    Grows visiting first third where
  kept n table found := late.kept n table (early.kept n table found)
  waiting n waits missing := late.waiting n waits (early.waiting n waits missing)

section Grows

variable {visiting : List String} {before after : Tables} {n : String}
variable {start table : NameTable}

theorem SeenIn.grow (seen : SeenIn d r singleton before n table)
    (grows : Grows visiting before after) : SeenIn d r singleton after n table := by
  unfold SeenIn at *
  split
  · rename_i missing
    rw [missing] at seen
    exact seen
  · rename_i ns found
    rw [found] at seen
    exact grows.kept n table seen

theorem StartsFrom.grow {ns : DeclaredNamespace}
    (starts : StartsFrom d r singleton before n ns start)
    (grows : Grows visiting before after) :
    StartsFrom d r singleton after n ns start := by
  cases starts with
  | registered old => exact .registered old
  | superclass new isClass linked seen => exact .superclass new isClass linked (seen.grow grows)
  | nothing new unlinked => exact .nothing new unlinked

theorem Gathers.grow {contributions : List Contribution}
    (makes : Gathers d r singleton before n start contributions table)
    (grows : Grows visiting before after) :
    Gathers d r singleton after n start contributions table := by
  induction makes with
  | nil table => exact .nil table
  | declare span _ ih => exact .declare span ih
  | «include» given _ ih => exact .include (given.imp_right fun seen => seen.grow grows) ih

theorem Gathers.le {contributions : List Contribution}
    (makes : Gathers d r singleton before n start contributions table) : start ≤ table := by
  induction makes with
  | nil table => exact le_refl table
  | declare _ _ ih => exact le_trans (NameTable.le_insert _ _) ih
  | «include» _ _ ih => exact le_trans (NameTable.le_append _ _) ih

theorem Grows.insert (missing : before[n]? = none) (table : NameTable) :
    Grows [] before (before.insert n table) := by
  refine ⟨fun m other found => ?_, by simp⟩
  rw [Std.ExtTreeMap.getElem?_insert]
  split
  · rename_i same
    cases Std.LawfulEqCmp.eq_of_compare same
    cases missing.symm.trans found
  · exact found

theorem Complete.made {tables : Tables}
    (complete : Complete d r singleton tables) (present : tables[n]? = some table) :
    ∃ ns start, d.get? n = some ns ∧ StartsFrom d r singleton tables n ns start ∧
      Gathers d r singleton tables n start (ns.contributionsTo singleton) table := by
  induction complete with
  | empty => simp at present
  | @insert before m ns start other _ missing found starts makes ih =>
    have grows := Grows.insert missing other
    rw [Std.ExtTreeMap.getElem?_insert] at present
    split at present
    · rename_i same
      cases Std.LawfulEqCmp.eq_of_compare same
      cases present
      exact ⟨ns, start, found, starts.grow grows, makes.grow grows⟩
    · obtain ⟨ns, start, found, starts, makes⟩ := ih present
      exact ⟨ns, start, found, starts.grow grows, makes.grow grows⟩

end Grows

/-! ## Computations that complete tables -/

theorem bind_run {β : Type} {c : StateT Tables Option α} {f : α → StateT Tables Option β}
    {tables after : Tables} {a : α} (run : c tables = some (a, after)) :
    (c >>= f) tables = f a after := by
  show (c tables).bind _ = _
  rw [run]
  rfl

theorem map_run {β : Type} {f : α → β} {c : StateT Tables Option α}
    {tables after : Tables} {a : α} (run : c tables = some (a, after)) :
    (f <$> c) tables = some (f a, after) :=
  bind_run (f := fun a => pure (f a)) run

variable (d r singleton) in
/-- A computation comes to a result and leaves the tables complete. -/
def Yields (visiting : List String) (tables : Tables) (c : StateT Tables Option α)
    (answer : Tables → α → Prop) : Prop :=
  ∃ a after, c tables = some (a, after) ∧ Complete d r singleton after ∧
    Grows visiting tables after ∧ answer after a

theorem DeclaredNamespace.start_cases (ns : DeclaredNamespace) : ns.registered = true ∨
    (∃ S, ns.registered = false ∧ ns.kind = .class ∧ ns.superclass = some S) ∨
    ns.registered = false ∧ (ns.kind = .class → ns.superclass = none) := by
  cases old : ns.registered with
  | true => exact .inl rfl
  | false =>
    by_cases linked : ∃ S, ns.kind = .class ∧ ns.superclass = some S
    · obtain ⟨S, isClass, linked⟩ := linked
      exact .inr (.inl ⟨S, rfl, isClass, linked⟩)
    · exact .inr (.inr ⟨rfl, fun isClass => eq_none_iff_forall_ne_some.2 fun S found =>
        linked ⟨S, isClass, found⟩⟩)

section StartTable

variable {m : Type → Type} [Monad m] {call : String → m NameTable} {table : NameTable}
    {ns : DeclaredNamespace}

theorem startTable_registered (old : ns.registered = true) :
    startTable call table ns = pure table :=
  if_pos old

theorem startTable_superclass {S : String} (new : ns.registered = false)
    (isClass : ns.kind = .class) (linked : ns.superclass = some S) :
    startTable call table ns = call S := by
  simp only [startTable, new, isClass, linked]
  rfl

theorem startTable_nothing (new : ns.registered = false)
    (unlinked : ns.kind = .class → ns.superclass = none) :
    startTable call table ns = pure .empty := by
  simp only [startTable, new]
  split
  · contradiction
  · split
    · rename_i isClass linked
      rw [unlinked isClass] at linked
      cases linked
    · rfl

end StartTable

section Yields

variable {α β : Type} {visiting : List String} {tables : Tables} {answer : Tables → α → Prop}
variable {c : StateT Tables Option α} {answer' : Tables → β → Prop}

theorem Yields.pure (complete : Complete d r singleton tables)
    {a : α} (holds : answer tables a) :
    Yields d r singleton visiting tables (Pure.pure a) answer :=
  ⟨a, tables, rfl, complete, .refl visiting tables, holds⟩

theorem Yields.imp {c : StateT Tables Option α} {weaker : Tables → α → Prop}
    (yields : Yields d r singleton visiting tables c answer)
    (imp : ∀ after a, answer after a → weaker after a) :
    Yields d r singleton visiting tables c weaker := by
  obtain ⟨a, after, run, complete, grows, holds⟩ := yields
  exact ⟨a, after, run, complete, grows, imp after a holds⟩

theorem Yields.map {f : α → β}
    (yields : Yields d r singleton visiting tables c fun after a =>
      answer' after (f a)) :
    Yields d r singleton visiting tables (f <$> c) answer' := by
  obtain ⟨a, after, run, complete, grows, holds⟩ := yields
  exact ⟨f a, after, map_run run, complete, grows, holds⟩

theorem Yields.start {call : String → StateT Tables Option NameTable} {n : String}
    {ns : DeclaredNamespace} (complete : Complete d r singleton tables)
    (superclass : ∀ S, ns.registered = false → ns.kind = .class → ns.superclass = some S →
      Yields d r singleton visiting tables (call S) fun after table =>
        SeenIn d r singleton after S table) :
    Yields d r singleton visiting tables
      (startTable call (r.tableOf n singleton) ns) fun after start =>
        StartsFrom d r singleton after n ns start := by
  rcases ns.start_cases with old | ⟨S, new, isClass, linked⟩ | ⟨new, unlinked⟩
  · rw [startTable_registered old]
    exact Yields.pure complete (.registered old)
  · rw [startTable_superclass new isClass linked]
    exact (superclass S new isClass linked).imp fun _ _ => .superclass new isClass linked
  · rw [startTable_nothing new unlinked]
    exact Yields.pure complete (.nothing new unlinked)

theorem Yields.contributions {call : String → StateT Tables Option NameTable} {n : String}
    (contributions : List Contribution)
    (mixin : ∀ M tables, .include M ∈ contributions → Complete d r singleton tables →
      Yields d r singleton visiting tables (call M) fun after other =>
        d.Reaches M n ∨ SeenIn d r singleton after M other) :
    ∀ (tables : Tables) (start : NameTable), Complete d r singleton tables →
      Yields d r singleton visiting tables (contributions.foldlM (addContribution call) start)
        fun after table => Gathers d r singleton after n start contributions table := by
  induction contributions with
  | nil => exact fun tables start complete => Yields.pure complete (.nil start)
  | cons contribution rest ih =>
    intro tables start complete
    rw [foldlM_cons]
    have others := ih fun M tables member => mixin M tables (mem_cons_of_mem _ member)
    cases contribution with
    | declare name span =>
      exact (others tables (start.insert name) complete).imp fun _ _ later => .declare span later
    | «include» M =>
      obtain ⟨other, middle, run, completeMiddle, grows, given⟩ :=
        mixin M tables mem_cons_self complete
      obtain ⟨table, after, runRest, completeAfter, growsRest, later⟩ :=
        others middle (start.append other) completeMiddle
      refine ⟨table, after, (bind_run (bind_run run)).trans runRest, completeAfter,
        grows.trans growsRest, ?_⟩
      exact .include (given.imp_right fun seen => seen.grow growsRest) later

end Yields

end Tables

/-! ## Laying out one namespace -/

section TableOf

variable {d : Declared} {r : Registry} {singleton : Bool}
variable {table : NameTable} {visiting : List String} {tables : Tables} {n : String}
  {ns : DeclaredNamespace}

theorem get_bind {α : Type} (f : Tables → StateT Tables Option α) (tables : Tables) :
    (get >>= f) tables = f tables tables := rfl

theorem tableOf?_undeclared (undeclared : d.get? n = none) (depth : Nat)
    (visiting : List String) (tables : Tables) :
    tableOf? d r singleton (depth + 1) visiting n tables =
      some ((r.tableOf n singleton, (r.tableOf n singleton).size), tables) := by
  simp only [tableOf?, undeclared]
  rfl

theorem tableOf?_found (found : d.get? n = some ns) (complete : tables[n]? = some table)
    (depth : Nat) (visiting : List String) :
    tableOf? d r singleton (depth + 1) visiting n tables =
      (startTable
        (fun other => Prod.fst <$> tableOf? d r singleton depth visiting other)
        (r.tableOf n singleton) ns tables).map fun (start, after) =>
          ((table, start.size), after) := by
  simp only [tableOf?, found]
  rw [get_bind, complete]
  show Option.bind _ _ = _
  cases startTable
    (fun other => Prod.fst <$> tableOf? d r singleton depth visiting other)
    (r.tableOf n singleton) ns tables <;> rfl

theorem tableOf?_waiting (found : d.get? n = some ns) (missing : tables[n]? = none)
    (waits : n ∈ visiting) (depth : Nat) :
    tableOf? d r singleton (depth + 1) visiting n tables =
      some ((.empty, 0), tables) := by
  simp only [tableOf?, found]
  rw [get_bind, missing]
  simp only [contains_iff_mem.2 waits]
  rfl

theorem tableOf?_new (found : d.get? n = some ns) (missing : tables[n]? = none)
    (new : n ∉ visiting) (depth : Nat) :
    tableOf? d r singleton (depth + 1) visiting n tables =
      (do
        let tableIn (other : String) : StateT Tables Option NameTable :=
          Prod.fst <$> tableOf? d r singleton depth (n :: visiting) other
        let base ← startTable tableIn (r.tableOf n singleton) ns
        let table ← (ns.contributionsTo singleton).foldlM (addContribution tableIn) base
        modify (·.insert n table)
        return (table, base.size) : StateT Tables Option (NameTable × Nat)) tables := by
  simp only [tableOf?, found]
  rw [get_bind, missing]
  have unlisted : visiting.contains n = false := by simpa using new
  simp only [unlisted]
  rfl

/-- Ranks that go down along the links between the new classes of a unit. -/
structure Declared.Ranked (d : Declared) (rank : String → Nat) : Prop where
  le_size : ∀ n, rank n ≤ d.namespaces.size
  descends : ∀ n S, d.parent? n = some S → rank S < rank n

variable {rank : String → Nat}

/-- A complete table is found again, together with what it starts from, if the chain of complete
superclasses above it is no longer than the depth. -/
theorem tableOf?_complete (ranked : d.Ranked rank)
    (complete : Complete d r singleton tables) (visiting : List String) (depth : Nat)
    (found : d.get? n = some ns) (present : tables[n]? = some table)
    (enough : (ns.registered = true ∧ 1 ≤ depth) ∨ rank n + 2 ≤ depth) :
    ∃ start, StartsFrom d r singleton tables n ns start ∧
      tableOf? d r singleton depth visiting n tables =
        some ((table, start.size), tables) := by
  induction depth generalizing n ns table with
  | zero => omega
  | succ depth ih =>
    obtain ⟨ns', start, found', starts, -⟩ := complete.made present
    cases found.symm.trans found'
    refine ⟨start, starts, ?_⟩
    rw [tableOf?_found found present]
    have started : startTable
        (fun other => Prod.fst <$> tableOf? d r singleton depth visiting other)
        (r.tableOf n singleton) ns tables = some (start, tables) := by
      cases starts with
      | registered old =>
        rw [startTable_registered old]
        rfl
      | nothing new unlinked =>
        rw [startTable_nothing new unlinked]
        rfl
      | @superclass S _ new isClass linked seen =>
        rw [startTable_superclass new isClass linked]
        have deep : rank n + 2 ≤ depth + 1 := by simpa [new] using enough
        unfold SeenIn at seen
        split at seen
        · rename_i undeclared
          obtain ⟨depth, rfl⟩ : ∃ k, depth = k + 1 := ⟨depth - 1, by omega⟩
          exact seen ▸ map_run (tableOf?_undeclared undeclared depth visiting tables)
        · rename_i base baseFound
          -- A registered superclass starts from its own table, and a new one is of lower rank.
          have baseEnough : (base.registered = true ∧ 1 ≤ depth) ∨ rank S + 2 ≤ depth := by
            cases old : base.registered with
            | true => exact .inl ⟨rfl, by omega⟩
            | false =>
              have link :=
                Declared.parent?_eq_some.2 ⟨ns, base, found, new, isClass, linked, baseFound, old⟩
              have := ranked.descends n S link
              exact .inr (by omega)
          obtain ⟨start, -, run⟩ := ih baseFound seen baseEnough
          exact map_run run
    rw [started]
    rfl

/-- The namespaces that wait for one another, the last of them for the one that is asked for.
A class is asked for by new classes of higher rank only, and those that are no classes wait because
of inclusions. -/
structure Waiting (d : Declared) (rank : String → Nat) (visiting : List String)
    (n : String) : Prop where
  nodup : visiting.Nodup
  isDeclared : ∀ v ∈ visiting, ∃ ns, d.get? v = some ns
  below : ∀ ns, d.get? n = some ns → ns.kind = .class → ∀ v ∈ visiting,
    (∃ other, d.get? v = some other ∧ other.registered = false) ∧
      (ns.registered = false → rank n < rank v)
  reaches : ∀ v ∈ visiting, (∃ ns, d.get? v = some ns ∧ ns.kind = .class) ∨ d.Reaches v n

/-- What a unit includes is a mixin, if it is a namespace of the unit. -/
def Declared.IncludesMixins (d : Declared) : Prop :=
  ∀ n ns M other, d.get? n = some ns → .include M ∈ ns.contributions → d.get? M = some other →
    other.kind = .mixin

namespace Waiting

theorem nil (n : String) : Waiting d rank [] n := ⟨nodup_nil, by simp, by simp, by simp⟩

theorem of_cons {n v : String} (waiting : Waiting d rank (v :: visiting) n) :
    Waiting d rank visiting n where
  nodup := waiting.nodup.of_cons
  isDeclared w waits := waiting.isDeclared w (mem_cons_of_mem v waits)
  below ns found isClass w waits := waiting.below ns found isClass w (mem_cons_of_mem v waits)
  reaches w waits := waiting.reaches w (mem_cons_of_mem v waits)

variable {visiting : List String} {n : String}
variable {S : String} {ns : DeclaredNamespace}

section

variable (waiting : Waiting d rank visiting n)

include waiting

theorem length_le :
    visiting.length ≤ d.namespaces.size := by
  have listed : visiting ⊆ d.namespaces.keys.toList := by
    intro v waits
    obtain ⟨ns, found⟩ := waiting.isDeclared v waits
    rw [d.namespaces.mem_keys_iff, ← Declared.get?, found]
    rfl
  exact (subperm_of_subset waiting.nodup listed).length_le.trans_eq Array.length_toList

theorem not_mem (found : d.get? n = some ns)
    (new : ns.registered = false) (isClass : ns.kind = .class) :
    n ∉ visiting := fun waits =>
  Nat.lt_irrefl _ ((waiting.below ns found isClass n waits).2 new)

/-- A new class asks for its superclass. Nothing reaches a class, so only classes wait then. -/
theorem superclass (ranked : d.Ranked rank) (includes : d.IncludesMixins)
    (found : d.get? n = some ns) (new : ns.registered = false) (isClass : ns.kind = .class)
    (linked : ns.superclass = some S) :
    Waiting d rank (n :: visiting) S where
  nodup := nodup_cons.2 ⟨waiting.not_mem found new isClass, waiting.nodup⟩
  isDeclared v waits := by
    rcases mem_cons.1 waits with rfl | waits
    · exact ⟨ns, found⟩
    · exact waiting.isDeclared v waits
  below base baseFound _ v waits := by
    have lower (baseNew : base.registered = false) : rank S < rank n :=
      ranked.descends n S (Declared.parent?_eq_some.2 ⟨ns, base, found, new, isClass, linked,
        baseFound, baseNew⟩)
    rcases mem_cons.1 waits with rfl | waits
    · exact ⟨⟨ns, found, new⟩, lower⟩
    · obtain ⟨other, above⟩ := waiting.below ns found isClass v waits
      exact ⟨other, fun baseNew => (lower baseNew).trans (above new)⟩
  reaches v waits := by
    rcases mem_cons.1 waits with rfl | before
    · exact .inl ⟨ns, found, isClass⟩
    · refine .inl ((waiting.reaches v before).resolve_right fun reaches => ?_)
      obtain ⟨m, -, other, foundOther, included⟩ := Relation.TransGen.tail'_iff.1 reaches
      rw [includes m other n ns foundOther included found] at isClass
      cases isClass

/-- The superclass of a new class does not wait: all that wait are new, and of higher rank. -/
theorem superclass_not_mem (ranked : d.Ranked rank) (found : d.get? n = some ns)
    (new : ns.registered = false) (isClass : ns.kind = .class) (linked : ns.superclass = some S) :
    S ∉ n :: visiting := by
  intro waits
  have above : ∃ other, d.get? S = some other ∧ other.registered = false ∧ rank n ≤ rank S := by
    rcases mem_cons.1 waits with rfl | before
    · exact ⟨ns, found, new, Nat.le_refl _⟩
    · obtain ⟨⟨other, foundOther, newOther⟩, higher⟩ := waiting.below ns found isClass S before
      exact ⟨other, foundOther, newOther, (higher new).le⟩
  obtain ⟨other, foundOther, newOther, higher⟩ := above
  exact absurd (ranked.descends n S
    (Declared.parent?_eq_some.2 ⟨ns, other, found, new, isClass, linked,
    foundOther, newOther⟩)) (Nat.not_lt.2 higher)

end

theorem mixin {M : String} (waiting : Waiting d rank visiting n) (absent : n ∉ visiting)
    (found : d.get? n = some ns) (included : .include M ∈ ns.contributions)
    (includes : d.IncludesMixins) : Waiting d rank (n :: visiting) M where
  nodup := nodup_cons.2 ⟨absent, waiting.nodup⟩
  isDeclared v waits := by
    rcases mem_cons.1 waits with rfl | waits
    · exact ⟨ns, found⟩
    · exact waiting.isDeclared v waits
  below other otherFound isClass := by
    rw [includes n ns M other found included otherFound] at isClass
    cases isClass
  reaches v waits := by
    rcases mem_cons.1 waits with rfl | before
    · exact .inr (.single ⟨ns, found, included⟩)
    · exact (waiting.reaches v before).imp_right fun reaches => reaches.tail ⟨ns, found, included⟩

theorem reaches_of_mem {M : String} (waiting : Waiting d rank visiting n)
    (found : d.get? n = some ns) (included : .include M ∈ ns.contributions)
    (includes : d.IncludesMixins) (waits : M ∈ n :: visiting) : d.Reaches M n := by
  rcases mem_cons.1 waits with rfl | before
  · exact .single ⟨ns, found, included⟩
  · refine (waiting.reaches M before).resolve_left ?_
    rintro ⟨other, foundOther, isClass⟩
    rw [includes n ns M other found included foundOther] at isClass
    cases isClass

end Waiting

theorem Declared.Sees.kind_eq {kind : NamespaceKind} (seen : d.Sees r n kind)
    (found : d.get? n = some ns) :
    ns.kind = kind := by
  rcases seen with ⟨other, foundOther, otherKind⟩ | ⟨missing, -⟩
  · cases found.symm.trans foundOther
    exact otherKind
  · rw [missing] at found
    cases found

theorem Declared.Over.includesMixins (stands : d.Over r) : d.IncludesMixins :=
  fun _ _ _ _ found included => (stands.include_of found included).kind_eq

theorem DeclaredNamespace.include_mem {M : String}
    (included : .include M ∈ ns.contributionsTo singleton) :
    .include M ∈ ns.contributions := by
  unfold contributionsTo at included
  split at included
  · simp at included
  · exact included

theorem tableOf?_yields_new {depth : Nat} (found : d.get? n = some ns)
    (present : tables[n]? = none) (waits : n ∉ visiting)
    (started : Yields d r singleton (n :: visiting) tables
      (startTable
        (fun other => Prod.fst <$> tableOf? d r singleton depth (n :: visiting) other)
        (r.tableOf n singleton) ns)
      fun after start => StartsFrom d r singleton after n ns start)
    (added : ∀ middle start, Complete d r singleton middle →
      Yields d r singleton (n :: visiting) middle
        ((ns.contributionsTo singleton).foldlM (addContribution fun other =>
          Prod.fst <$> tableOf? d r singleton depth (n :: visiting) other) start)
        fun after table => Gathers d r singleton after n start (ns.contributionsTo singleton)
          table) :
    Yields d r singleton visiting tables
      (tableOf? d r singleton (depth + 1) visiting n)
      fun after result => SeenIn d r singleton after n result.1 ∧
        ∃ start, StartsFrom d r singleton after n ns start ∧
          result.2 = start.size := by
  obtain ⟨start, middle, run, completeMiddle, growsMiddle, starts⟩ := started
  obtain ⟨table, late, run', completeLate, growsLate, makes⟩ := added middle start completeMiddle
  have grows := growsMiddle.trans growsLate
  have missing := grows.waiting n mem_cons_self present
  have growsAfter := Grows.insert missing table
  have completeAfter := completeLate.insert missing found (starts.grow growsLate) makes
  refine ⟨(table, start.size), late.insert n table, ?_, completeAfter, ⟨?_, ?_⟩, ?_, ?_⟩
  · rw [tableOf?_new found present waits]
    exact (bind_run run).trans (bind_run run')
  · exact fun m other foundOther => growsAfter.kept m other (grows.kept m other foundOther)
  · intro m waitsToo missingToo
    rw [Std.ExtTreeMap.getElem?_insert, if_neg]
    · exact grows.waiting m (mem_cons_of_mem n waitsToo) missingToo
    · intro same
      cases Std.LawfulEqCmp.eq_of_compare same
      exact waits waitsToo
  · unfold SeenIn
    rw [found]
    exact Std.ExtTreeMap.getElem?_insert_self
  · exact ⟨start, (starts.grow growsLate).grow growsAfter, rfl⟩

/-- A depth that is enough for a namespace while others wait. -/
def roomFor (d : Declared) (visiting : List String) : Nat :=
  d.namespaces.size - visiting.length + d.namespaces.size + 2

theorem roomFor_le (d : Declared) (visiting : List String) :
    roomFor d visiting ≤ layoutDepth d := by
  unfold roomFor layoutDepth
  omega

/-- **Laying out a namespace gives it a complete table**, whatever is complete already. -/
theorem tableOf?_yields (includes : d.IncludesMixins) (ranked : d.Ranked rank)
    (depth : Nat) (waiting : Waiting d rank visiting n)
    (enough : roomFor d visiting ≤ depth) (complete : Complete d r singleton tables) :
    Yields d r singleton visiting tables
      (tableOf? d r singleton depth visiting n)
      fun after result => n ∉ visiting → SeenIn d r singleton after n result.1 ∧
        ∀ ns, d.get? n = some ns → ∃ start,
          StartsFrom d r singleton after n ns start ∧ result.2 = start.size := by
  induction depth generalizing visiting n tables with
  | zero => cases enough
  | succ depth ih =>
    cases found : d.get? n with
    | none =>
      refine ⟨_, tables, tableOf?_undeclared found depth visiting tables, complete, .refl _ _,
        fun _ => ⟨?_, ?_⟩⟩
      · unfold SeenIn
        rw [found]
      · rintro _ ⟨⟩
    | some ns =>
      cases present : tables[n]? with
      | some table =>
        have := ranked.le_size n
        unfold roomFor at enough
        obtain ⟨start, starts, run⟩ :=
          tableOf?_complete ranked complete visiting (depth + 1) found present (.inr (by omega))
        refine ⟨_, tables, run, complete, .refl _ _, fun _ => ⟨?_, ?_⟩⟩
        · unfold SeenIn
          rw [found]
          exact present
        · rintro _ ⟨⟩
          exact ⟨start, starts, rfl⟩
      | none =>
        by_cases waits : n ∈ visiting
        · exact ⟨_, tables, tableOf?_waiting found present waits depth, complete,
            .refl _ _, absurd waits⟩
        -- The namespace waits now, so there is room for one more and one step of depth fewer is
        -- needed.
        have room (other : String) (next : Waiting d rank (n :: visiting) other) :
            roomFor d (n :: visiting) ≤ depth := by
          have := next.length_le
          unfold roomFor at enough ⊢
          rw [length_cons] at this ⊢
          omega
        refine (tableOf?_yields_new found present waits ?_ fun middle start done => ?_).imp
          fun after result seen _ => ⟨seen.1, ?_⟩
        · refine Yields.start complete fun S new isClass linked => ?_
          have next := waiting.superclass ranked includes found new isClass linked
          have absent := waiting.superclass_not_mem ranked found new isClass linked
          exact ((ih next (room S next) complete).imp fun _ _ seen => (seen absent).1).map
        · refine Yields.contributions _ (fun M tables included complete => ?_) middle start done
          have included := DeclaredNamespace.include_mem included
          have next := waiting.mixin waits found included includes
          refine ((ih next (room M next) complete).imp fun _ _ seen => ?_).map
          by_cases round : M ∈ n :: visiting
          · exact .inl (waiting.reaches_of_mem found included includes round)
          · exact .inr (seen round).1
        · rintro _ ⟨⟩
          exact seen.2

end TableOf

/-! ## Laying out a unit -/

namespace Layouts

/-- The complete tables of one kind. -/
def tablesOf (l : Layouts) (singleton : Bool) :
    Tables := if singleton then l.singletons else l.instances

theorem table?_eq (l : Layouts) (n : String) (singleton : Bool) :
    l.table? n singleton = (l.tablesOf singleton)[n]? := by
  unfold table? tablesOf
  split <;> rfl

/-- Change the tables of one kind. -/
def setTables (l : Layouts) (singleton : Bool) (tables : Tables) : Layouts :=
  if singleton then { l with singletons := tables } else { l with instances := tables }

theorem tablesOf_setTables (l : Layouts) (singleton other : Bool) (tables : Tables) :
    (l.setTables singleton tables).tablesOf other = if singleton =
      other then tables else l.tablesOf other := by
  cases singleton <;> cases other <;> rfl

@[simp] theorem tablesOf_empty (singleton : Bool) : Layouts.empty.tablesOf singleton = ∅ := by
  cases singleton <;> rfl

end Layouts

/-- Whether a namespace has a table of a kind. -/
def DeclaredNamespace.hasTable (ns : DeclaredNamespace) (singleton : Bool) : Bool :=
  if singleton then ns.kind ≠ .interface else ns.kind.holdsInstances

/-- The kinds of tables that a namespace has, that of the instances first. -/
def DeclaredNamespace.tableKinds (ns : DeclaredNamespace) : List Bool :=
  [false, true].filter ns.hasTable

/-- The tables that are laid out, in order. -/
def tablesIn (order : List DeclaredNamespace) : List (DeclaredNamespace × Bool) :=
  order.flatMap fun ns => ns.tableKinds.map (ns, ·)

theorem mem_tablesIn {order : List DeclaredNamespace} {ns : DeclaredNamespace} {singleton : Bool} :
    (ns, singleton) ∈ tablesIn order ↔ ns ∈ order ∧ ns.hasTable singleton = true := by
  unfold tablesIn DeclaredNamespace.tableKinds
  cases singleton <;> simp

section LayOut

variable {d : Declared} {r : Registry}
variable {singleton : Bool} {l' l : LayingOut} {issues : Array Issue} {ns : DeclaredNamespace}

theorem foldl_layOutNamespace (order : List DeclaredNamespace) (l : LayingOut) :
    order.foldl (LayingOut.layOutNamespace d r) l =
      (tablesIn order).foldl (fun l table =>
        LayingOut.layOutTable d r table.2 table.1 l) l := by
  rw [tablesIn, foldl_flatMap]
  refine foldl_ext _ _ _ fun l ns _ => ?_
  unfold LayingOut.layOutNamespace DeclaredNamespace.tableKinds DeclaredNamespace.hasTable
  cases ns.kind <;> rfl

/-- What laying out a table keeps, laying out a unit keeps. -/
theorem layOut_induction {P : LayingOut → Prop} (start : P ⟨.empty, issues⟩)
    (each : ∀ singleton ns l, P l → P (LayingOut.layOutTable d r singleton ns l)) :
    P (layOut r d issues) := by
  rw [layOut, foldl_layOutNamespace]
  exact List.foldlRecOn _ _ start fun l holds table _ => each table.2 table.1 l holds

/-- The table of a namespace is complete, and did not grow if it must not. -/
def Settled (r : Registry) (l : LayingOut) (ns : DeclaredNamespace) (singleton : Bool) : Prop :=
  ∃ table, l.layouts.table? ns.fullName singleton = some table ∧
    (ns.registered = true → (r.tableOf ns.fullName singleton).size < table.size →
      Failed l.issues ∨ r.subclasses ns.fullName = [])

/-- Tables were completed and issues added. -/
structure Progresses (d : Declared) (r : Registry) (l l' : LayingOut) : Prop where
  complete : (∀ singleton, Complete d r singleton (l.layouts.tablesOf singleton)) →
    ∀ singleton, Complete d r singleton (l'.layouts.tablesOf singleton)
  kept : ∀ n singleton table, l.layouts.table? n singleton = some table →
    l'.layouts.table? n singleton = some table
  failed : Failed l.issues → Failed l'.issues

theorem Progresses.refl (l : LayingOut) : Progresses d r l l :=
  ⟨id, fun _ _ _ => id, id⟩

theorem Progresses.trans {l'' : LayingOut} (first : Progresses d r l l')
    (second : Progresses d r l' l'') :
    Progresses d r l l'' :=
  ⟨second.complete ∘ first.complete, fun n singleton table found => second.kept n singleton table
    (first.kept n singleton table found), second.failed ∘ first.failed⟩

theorem Settled.progress (settled : Settled r l ns singleton)
    (progresses : Progresses d r l l') :
    Settled r l' ns singleton := by
  obtain ⟨table, found, frozen⟩ := settled
  exact ⟨table, progresses.kept _ _ _ found, fun old grew => (frozen old grew).imp_left
    progresses.failed⟩

theorem checkFrozen_failed (ns : DeclaredNamespace) (span : Span) (issues : Array Issue) :
    Continues issues (LayingOut.checkFrozen r ns span issues) ∧
      (ns.registered = true → Failed (LayingOut.checkFrozen r ns span issues) ∨
        r.subclasses ns.fullName = []) := by
  unfold LayingOut.checkFrozen
  split
  · split
    · rename_i none
      exact ⟨.refl, fun _ => .inr none⟩
    · exact ⟨.push .refl rfl, fun _ => .inl (failed_push_failure _ _ _)⟩
  · rename_i new
    exact ⟨.refl, fun old => absurd old new⟩

variable {rank : String → Nat}

theorem layOutTable_eq {table : NameTable} {base : Nat} {after : Tables}
    (run : tableOf? d r singleton
      (layoutDepth d) [] ns.fullName (l.layouts.tablesOf singleton) =
        some ((table, base), after)) :
    (∀ other, (LayingOut.layOutTable d r singleton ns l).layouts.tablesOf other =
        (l.layouts.setTables singleton after).tablesOf other) ∧
      (LayingOut.layOutTable d r singleton ns l).issues =
        if base < table.size then
          LayingOut.checkFrozen r ns (LayingOut.firstDeclared ns singleton) l.issues
        else l.issues := by
  rw [Layouts.tablesOf] at run
  unfold LayingOut.layOutTable StateT.run
  dsimp only
  rw [run]
  dsimp only
  split
  · exact ⟨fun other => by cases singleton <;> cases other <;> rfl, rfl⟩
  · exact ⟨fun other => by cases singleton <;> cases other <;> rfl, rfl⟩

theorem complete_empty (singleton : Bool) :
    Complete d r singleton (Layouts.empty.tablesOf singleton) := by
  rw [Layouts.tablesOf_empty]
  exact .empty

theorem layOutTable_settled (includes : d.IncludesMixins) (ranked : d.Ranked rank)
    (complete : ∀ singleton, Complete d r singleton (l.layouts.tablesOf singleton))
    (found : d.get? ns.fullName = some ns) (singleton : Bool) :
    Progresses d r l (LayingOut.layOutTable d r singleton ns l) ∧
      Settled r (LayingOut.layOutTable d r singleton ns l) ns singleton := by
  obtain ⟨⟨table, base⟩, after, run, completeAfter, grows, seen⟩ := tableOf?_yields includes ranked
    (layoutDepth d) (.nil ns.fullName) (roomFor_le d []) (complete singleton)
  obtain ⟨present, starts⟩ := seen not_mem_nil
  obtain ⟨tables, issues⟩ := layOutTable_eq run
  obtain ⟨continues, frozen⟩ :=
    checkFrozen_failed ns (LayingOut.firstDeclared ns singleton) l.issues
  refine ⟨⟨fun _ other => ?_, fun n other table found => ?_, fun failed => ?_⟩, table, ?_, ?_⟩
  · rw [tables, Layouts.tablesOf_setTables]
    split
    · rename_i same
      exact same ▸ completeAfter
    · exact complete other
  · rw [Layouts.table?_eq] at found ⊢
    rw [tables, Layouts.tablesOf_setTables]
    split
    · rename_i same
      subst same
      exact grows.kept n table found
    · exact found
  · rw [issues]
    split
    · exact continues.failed failed
    · exact failed
  · rw [Layouts.table?_eq, tables, Layouts.tablesOf_setTables, if_pos rfl]
    unfold SeenIn at present
    rw [found] at present
    exact present
  · intro old grew
    obtain ⟨start, startsFrom, size⟩ := starts ns found
    -- Only a registered namespace was asked for, so it starts from the registered table.
    cases startsFrom with
    | registered =>
      rw [issues, if_pos (size.trans_lt grew)]
      exact frozen old
    | superclass new => rw [old] at new; cases new
    | nothing new => rw [old] at new; cases new

theorem layOutTables_settled (includes : d.IncludesMixins) (ranked : d.Ranked rank)
    (tables : List (DeclaredNamespace × Bool)) : ∀ l : LayingOut,
    (∀ table ∈ tables, d.get? table.1.fullName = some table.1) →
    (∀ singleton, Complete d r singleton (l.layouts.tablesOf singleton)) →
    let l' := tables.foldl (fun l table =>
      LayingOut.layOutTable d r table.2 table.1 l) l
    Progresses d r l l' ∧ ∀ table ∈ tables, Settled r l' table.1 table.2 := by
  induction tables with
  | nil => exact fun l _ _ => ⟨.refl l, by simp⟩
  | cons table rest ih =>
    intro l listed complete
    obtain ⟨first, settled⟩ :=
      layOutTable_settled includes ranked complete (listed table mem_cons_self) table.2
    obtain ⟨later, settledLater⟩ := ih _
      (fun other member => listed other (mem_cons_of_mem table member)) (first.complete complete)
    refine ⟨first.trans later, fun other member => ?_⟩
    rcases mem_cons.1 member with rfl | member
    · exact settled.progress later
    · exact settledLater other member

/-- **Laying out a unit settles all its tables.** -/
theorem layOut_settled (stands : d.Over r) (ranked : d.Ranked rank)
    (issues : Array Issue) : (∀ singleton, Complete d r singleton
        ((layOut r d issues).layouts.tablesOf singleton)) ∧
      (Failed issues → Failed (layOut r d issues).issues) ∧
      ∀ {n ns singleton}, d.get? n = some ns → ns.hasTable singleton = true →
        Settled r (layOut r d issues) ns singleton := by
  have listed {ns : DeclaredNamespace} : ns ∈ d.namespaces.toValues ↔
      d.get? ns.fullName = some ns := Declared.mem_toValues stands
  obtain ⟨progresses, settled⟩ := layOutTables_settled stands.includesMixins ranked
    (tablesIn d.namespaces.toValues) ⟨.empty, issues⟩
    (fun _ member => listed.1 (mem_tablesIn.1 member).1) complete_empty
  rw [layOut, foldl_layOutNamespace]
  refine ⟨progresses.complete complete_empty, progresses.failed, fun found has => ?_⟩
  exact settled _ (mem_tablesIn.2 ⟨listed.2 (stands.fullName_eq found ▸ found), has⟩)

theorem continues_layOut : Continues issues (layOut r d issues).issues := by
  refine layOut_induction (P := fun l => Continues issues l.issues) .refl
    fun singleton ns l earlier => ?_
  unfold LayingOut.layOutTable
  dsimp only
  split
  · exact earlier
  · split
    · exact earlier.trans (checkFrozen_failed ns _ _).1
    · exact earlier

end LayOut

end StackCode
