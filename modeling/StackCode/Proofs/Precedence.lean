import StackCode.Namespace.Resolve

/-!
# What a constant path denotes

Here is the rule that the searches for a constant path come to, without any search in it
(`Denotes`).

* The innermost scope that binds the head of a relative path decides the whole path. The
  latest import of the name wins, whatever wildcards there are. Without one, all wildcards that have
  the name must mean the same constant.
* If no scope binds the head, the whole path is looked for in the enclosing namespaces, and then in
  the standard one. The first of them in which every step exists decides.

Each of the searches takes the first item of a list that has some property (`First`).
-/

namespace StackCode

open List Option

variable {start : String} {lookup : Lookup} {segments : List String}

/-! ## The first item with a property -/

/-- An item is the first of a list with a property. -/
inductive First {α : Type} (p : α → Prop) : List α → α → Prop where
  | here {a : α} {rest : List α} (holds : p a) : First p (a :: rest) a
  | later {a b : α} {rest : List α} (lacks : ¬p a) (first : First p rest b) : First p (a :: rest) b

section First

variable {α β : Type} {p : α → Prop} {list : List α} {a b : α}

theorem First.mem (first : First p list a) : a ∈ list := by
  induction first with
  | here => exact mem_cons_self
  | later _ _ ih => exact mem_cons_of_mem _ ih

theorem First.holds (first : First p list a) : p a := by
  induction first with
  | here holds => exact holds
  | later _ _ ih => exact ih

theorem First.unique (one : First p list a) (other : First p list b) : a = b := by
  induction one with
  | here holds =>
    cases other with
    | here => rfl
    | later lacks => exact absurd holds lacks
  | later lacks _ ih =>
    cases other with
    | here holds => exact absurd holds lacks
    | later _ first => exact ih first

theorem First.congr {q : α → Prop} (same : ∀ a ∈ list, p a ↔ q a) (first : First p list a) :
    First q list a := by
  induction first with
  | here holds => exact .here ((same _ mem_cons_self).1 holds)
  | later lacks _ ih =>
    refine .later (fun holds => lacks ((same _ mem_cons_self).2 holds)) ?_
    exact ih fun a listed => same a (mem_cons_of_mem _ listed)

theorem first_concat_iff {last : α} :
    First p (list ++ [last]) a ↔ First p list a ∨ (∀ b ∈ list, ¬p b) ∧ p last ∧ a = last := by
  induction list with
  | nil =>
    constructor
    · rintro (has | ⟨-, never⟩)
      · exact .inr ⟨nofun, has, rfl⟩
      · cases never
    · rintro (never | ⟨-, has, rfl⟩)
      · cases never
      · exact .here has
  | cons head rest ih =>
    constructor
    · rintro (has | ⟨lacks, first⟩)
      · exact .inl (.here has)
      · rcases ih.1 first with early | ⟨missing, has, rfl⟩
        · exact .inl (.later lacks early)
        · exact .inr ⟨forall_mem_cons.2 ⟨lacks, missing⟩, has, rfl⟩
    · rintro ((has | ⟨lacks, first⟩) | ⟨missing, has, rfl⟩)
      · exact .here has
      · exact .later lacks (ih.2 (.inl first))
      · obtain ⟨lacks, others⟩ := forall_mem_cons.1 missing
        exact .later lacks (ih.2 (.inr ⟨others, has, rfl⟩))

/-- A search that fails looked at every item, and one that does not stops at the first item that has
something to give. -/
theorem findSome?_eq_some_iff_first (f : α → Option β) {b : β} :
    list.findSome? f = some b ↔ ∃ a, First (fun a => (f a).isSome) list a ∧ f a = some b := by
  induction list with
  | nil => exact ⟨nofun, fun ⟨_, first, _⟩ => nomatch first⟩
  | cons head rest ih =>
    rw [List.findSome?_cons]
    cases found : f head with
    | some value =>
      have here : First (fun a => (f a).isSome) (head :: rest) head := .here (by simp [found])
      constructor
      · rintro ⟨⟩
        exact ⟨head, here, found⟩
      · rintro ⟨a, first, given⟩
        rw [← found, here.unique first, given]
    | none =>
      have lacks : ¬(f head).isSome := by simp [found]
      rw [ih]
      constructor
      · rintro ⟨a, first, given⟩
        exact ⟨a, .later lacks first, given⟩
      · rintro ⟨a, first, given⟩
        cases first with
        | here holds => exact absurd holds lacks
        | later _ first => exact ⟨a, first, given⟩

end First

/-! ## Paths below a full name -/

/-- The full name of a path below a namespace. -/
def fullNameBelow (start : String) (segments : List String) : String :=
  segments.foldl memberName start

/-- A full name and every step of a path down from it exist. -/
def Lookup.HasPath (lookup : Lookup) (start : String) (segments : List String) : Prop :=
  ∀ steps, steps <+: segments → (lookup (fullNameBelow start steps)).isSome

namespace Lookup

variable {lookup : Lookup} {start : String}

theorem hasPath_nil : lookup.HasPath start [] ↔ (lookup start).isSome := by
  simp [HasPath, fullNameBelow]

theorem hasPath_cons {segment : String} {rest : List String} :
    lookup.HasPath start (segment :: rest) ↔
      (lookup start).isSome ∧ lookup.HasPath (memberName start segment) rest := by
  constructor
  · intro has
    refine ⟨has [] nil_prefix, fun steps early => ?_⟩
    exact has (segment :: steps) (cons_prefix_cons.2 ⟨rfl, early⟩)
  · rintro ⟨there, has⟩ steps early
    cases steps with
    | nil => exact there
    | cons first steps =>
      obtain ⟨rfl, earlier⟩ := cons_prefix_cons.1 early
      exact has steps earlier

theorem HasPath.isSome {segments : List String} (has : lookup.HasPath start segments) :
    (lookup (fullNameBelow start segments)).isSome :=
  has segments prefix_rfl

end Lookup

theorem descend_eq_some_iff {fullName : String} :
    descend lookup start segments = some fullName ↔
      lookup.HasPath start segments ∧ fullName = fullNameBelow start segments := by
  induction segments generalizing start with
  | nil =>
    rw [descend, ite_none_right_eq_some, Lookup.hasPath_nil, Option.some.injEq,
      eq_comm (a := start)]
    rfl
  | cons segment rest ih =>
    rw [descend, ite_none_right_eq_some, ih, Lookup.hasPath_cons, and_assoc]
    rfl

theorem isSome_descend_iff :
    (descend lookup start segments).isSome ↔ lookup.HasPath start segments := by
  simp [isSome_iff_exists, descend_eq_some_iff]

theorem descend_eq_none_iff :
    descend lookup start segments = none ↔ ¬lookup.HasPath start segments := by
  rw [← isSome_descend_iff, Bool.not_eq_true, isSome_eq_false_iff, isNone_iff_eq_none]

/-! ## Imports of one scope -/

/-- An import is of a name. -/
def Import.Names (head : String) (i : Import) : Prop := ∃ target, i = .named head target

/-- A wildcard import offers a constant: its namespace has the name. -/
def Import.Offers (lookup : Lookup) (head candidate : String) (i : Import) : Prop :=
  ∃ n, i = .wildcard n ∧ memberName n head = candidate ∧ (lookup candidate).isSome

namespace ImportFrame

/-- A scope binds a name. -/
def Binds (lookup : Lookup) (head : String) (frame : ImportFrame) : Prop :=
  ∃ i ∈ frame, i.Names head ∨ ∃ candidate, i.Offers lookup head candidate

/-- What a scope that binds a name makes of it. -/
inductive Gives (lookup : Lookup) (head : String) (frame : ImportFrame) : Except Failure String →
    Prop where
  /-- The latest import of the name decides. -/
  | named {target : String} (latest : First (Import.Names head) frame (.named head target)) :
      Gives lookup head frame (.ok target)
  /-- Without an import of the name, there is just one constant that wildcards offer. -/
  | wildcard {candidate : String} (unnamed : ∀ i ∈ frame, ¬i.Names head)
      (offered : ∃ i ∈ frame, i.Offers lookup head candidate)
      (single : ∀ i ∈ frame, ∀ other, i.Offers lookup head other → other = candidate) :
      Gives lookup head frame (.ok candidate)
  /-- Wildcards offer more than one constant. The latest is reported, and the latest of the
  others. -/
  | ambiguous {i j : Import} {first second : String} (unnamed : ∀ i ∈ frame, ¬i.Names head)
      (latest : First (fun i => ∃ candidate, i.Offers lookup head candidate) frame i)
      (isSecond : i.Offers lookup head second)
      (latestOther : First (fun i => ∃ candidate, candidate ≠ second ∧
        i.Offers lookup head candidate)
        frame j)
      (isFirst : j.Offers lookup head first) :
      Gives lookup head frame (.error (.ambiguousConstant head first second))

end ImportFrame

section Frame

variable {lookup : Lookup} {head : String} {frame : ImportFrame}
variable {target : String} {i : Import}

theorem Import.target?_eq_some_iff : i.target? head = some target ↔ i = .named head target := by
  cases i with
  | named name other =>
    rw [target?, ite_none_right_eq_some, Option.some.injEq, named.injEq]
  | wildcard n => simp [target?]

theorem Import.candidate?_eq_some_iff {candidate : String} :
    i.candidate? lookup head = some candidate ↔ i.Offers lookup head candidate := by
  cases i with
  | named name target => simp [candidate?, Offers]
  | wildcard n =>
    simp only [candidate?, Offers, ite_none_right_eq_some, Option.some.injEq, wildcard.injEq,
      exists_eq_left']
    constructor
    · rintro ⟨there, rfl⟩
      exact ⟨rfl, there⟩
    · rintro ⟨rfl, there⟩
      exact ⟨there, rfl⟩

theorem Import.isSome_target?_iff : (i.target? head).isSome ↔ i.Names head := by
  simp only [isSome_iff_exists, target?_eq_some_iff, Names]

theorem Import.isSome_candidate?_iff :
    (i.candidate? lookup head).isSome ↔ ∃ candidate, i.Offers lookup head candidate := by
  simp only [isSome_iff_exists, candidate?_eq_some_iff]

theorem Import.Offers.unique {one other : String} (offers : i.Offers lookup head one)
    (offersToo : i.Offers lookup head other) :
    one = other := by
  rw [← candidate?_eq_some_iff] at offers offersToo
  exact Option.some.inj (offers.symm.trans offersToo)

theorem findSome?_target?_eq_none_iff :
    frame.findSome? (Import.target? head) = none ↔ ∀ i ∈ frame, ¬i.Names head := by
  simp only [List.findSome?_eq_none_iff, ← Import.isSome_target?_iff, Bool.not_eq_true,
    isSome_eq_false_iff, isNone_iff_eq_none]

theorem findSome?_target?_eq_some_iff :
    frame.findSome? (Import.target? head) = some target ↔
      First (Import.Names head) frame (.named head target) := by
  rw [findSome?_eq_some_iff_first]
  constructor
  · rintro ⟨i, first, given⟩
    rw [Import.target?_eq_some_iff.1 given] at first
    exact first.congr fun _ _ => Import.isSome_target?_iff
  · intro first
    exact ⟨_, first.congr fun _ _ => Import.isSome_target?_iff.symm,
      Import.target?_eq_some_iff.2 rfl⟩

theorem filterMap_eq_cons {α β : Type} {f : α → Option β} {list : List α} {b : β} {rest : List β}
    (is : list.filterMap f = b :: rest) :
    ∃ a, First (fun a => (f a).isSome) list a ∧ f a = some b := by
  rw [← findSome?_eq_some_iff_first, ← List.head?_filterMap, is, List.head?_cons]

/-- A scope has something to say about the names that it binds, and only about those. -/
theorem ofFrame_cases (lookup : Lookup) (head : String) (frame : ImportFrame) :
    (Imports.ofFrame lookup head frame = .ok none ∧ ¬frame.Binds lookup head) ∨
      ∃ result, Imports.ofFrame lookup head frame = result.map some ∧
        frame.Gives lookup head result := by
  unfold Imports.ofFrame
  cases named : frame.findSome? (Import.target? head) with
  | some target => exact .inr ⟨.ok target, rfl, .named (findSome?_target?_eq_some_iff.1 named)⟩
  | none =>
    have unnamed := findSome?_target?_eq_none_iff.1 named
    have offered {candidate : String} :
        candidate ∈ frame.filterMap (Import.candidate? lookup head) ↔
          ∃ i ∈ frame, i.Offers lookup head candidate := by
      simp only [mem_filterMap, Import.candidate?_eq_some_iff]
    dsimp only
    cases candidates : frame.filterMap (Import.candidate? lookup head) with
    | nil =>
      rw [eraseDups_nil]
      refine .inl ⟨rfl, ?_⟩
      rintro ⟨i, listed, names | ⟨candidate, offers⟩⟩
      · exact unnamed i listed names
      · have member := offered.2 ⟨i, listed, offers⟩
        rw [candidates] at member
        cases member
    | cons second rest =>
      obtain ⟨i, latest, isSecond⟩ := filterMap_eq_cons candidates
      rw [eraseDups_cons]
      cases different : rest.filter fun c => !c == second with
      | nil =>
        rw [eraseDups_nil]
        refine .inr ⟨.ok second, rfl, .wildcard unnamed
          (offered.1 (candidates ▸ mem_cons_self)) fun j listed other offers => ?_⟩
        have member := offered.2 ⟨j, listed, offers⟩
        rw [candidates] at member
        rcases mem_cons.1 member with same | later
        · exact same
        · simpa using filter_eq_nil_iff.1 different other later
      | cons first last =>
        -- The latest of the others is the first item that gives something else than the latest.
        have others : frame.filterMap (fun i => (i.candidate? lookup head).filter fun c =>
            !c == second) = first :: last := by
          have kept := congrArg (List.filter fun c => !c == second) candidates
          rwa [filter_filterMap, filter_cons_of_neg (by simp), different] at kept
        obtain ⟨j, latestOther, isFirst⟩ := filterMap_eq_cons others
        obtain ⟨given, -⟩ := filter_eq_some_iff.1 isFirst
        rw [eraseDups_cons]
        refine .inr ⟨.error _, rfl, .ambiguous unnamed
          (latest.congr fun _ _ => Import.isSome_candidate?_iff)
          (Import.candidate?_eq_some_iff.1 isSecond) (latestOther.congr fun k _ => ?_)
          (Import.candidate?_eq_some_iff.1 given)⟩
        simp only [isSome_iff_exists, filter_eq_some_iff, Import.candidate?_eq_some_iff,
          Bool.not_eq_eq_eq_not, Bool.not_true, beq_eq_false_iff_ne, ne_eq, and_comm]

theorem ImportFrame.Gives.binds {result : Except Failure String}
    (gives : frame.Gives lookup head result) :
    frame.Binds lookup head := by
  cases gives with
  | named latest => exact ⟨_, latest.mem, .inl latest.holds⟩
  | wildcard _ offered =>
    obtain ⟨i, listed, offers⟩ := offered
    exact ⟨i, listed, .inr ⟨_, offers⟩⟩
  | ambiguous _ latest => exact ⟨_, latest.mem, .inr latest.holds⟩

theorem ImportFrame.Gives.unique {one other : Except Failure String}
    (gives : frame.Gives lookup head one)
    (givesToo : frame.Gives lookup head other) : one = other := by
  cases gives with
  | named latest =>
    cases givesToo with
    | named latestToo => cases latest.unique latestToo; rfl
    | wildcard unnamed => exact absurd latest.holds (unnamed _ latest.mem)
    | ambiguous unnamed => exact absurd latest.holds (unnamed _ latest.mem)
  | wildcard unnamed offered single =>
    cases givesToo with
    | named latest => exact absurd latest.holds (unnamed _ latest.mem)
    | wildcard _ offeredToo =>
      obtain ⟨i, listed, offers⟩ := offeredToo
      rw [single i listed _ offers]
    | ambiguous _ latest isSecond latestOther =>
      obtain ⟨candidate, differs, offers⟩ := latestOther.holds
      exact absurd ((single _ latestOther.mem _ offers).trans (single _ latest.mem _ isSecond).symm)
        differs
  | ambiguous unnamed latest isSecond latestOther isFirst =>
    cases givesToo with
    | named latest => exact absurd latest.holds (unnamed _ latest.mem)
    | wildcard _ _ single =>
      obtain ⟨candidate, differs, offers⟩ := latestOther.holds
      exact absurd ((single _ latestOther.mem _ offers).trans (single _ latest.mem _ isSecond).symm)
        differs
    | ambiguous _ latestToo isSecondToo latestOtherToo isFirstToo =>
      cases latest.unique latestToo
      cases isSecond.unique isSecondToo
      cases latestOther.unique latestOtherToo
      cases isFirst.unique isFirstToo
      rfl

end Frame

/-! ## The rule -/

/-- The scopes of the imports, innermost first. -/
def Imports.frames (imports : Imports) : List ImportFrame := imports.inner :: imports.outer

/-- What a path comes to if the rest of it is followed from a full name. -/
inductive Leads (lookup : Lookup) (path : Path) (start : String) (rest : List String) :
    Except Failure String → Prop where
  | there (has : lookup.HasPath start rest) :
      Leads lookup path start rest (.ok (fullNameBelow start rest))
  | nowhere (missing : ¬lookup.HasPath start rest) :
      Leads lookup path start rest (.error (.undefinedConstant path))

/-- The namespace in which a relative path is found, if `p` says which namespaces have it: the
innermost one around the path, or the root if the path stands in none, and after these the standard
one. -/
inductive FoundIn (p : String → Prop) (nesting : List String) : String → Prop where
  | around {n : String} (innermost : First p nesting n) : FoundIn p nesting n
  | root (outside : nesting = []) (has : p "Root") : FoundIn p nesting "Root"
  | standard (notAround : ∀ n ∈ nesting, ¬p n) (notRoot : nesting = [] → ¬p "Root")
      (has : p "Root::Std") : FoundIn p nesting "Root::Std"

/-- The rule of precedence: what a path comes to, or why it comes to nothing. -/
inductive Denotes (imports : Imports) (nesting : List String) (lookup : Lookup) :
    Path → Except Failure String → Prop where
  /-- The path without segments is the root. -/
  | root {absolute : Bool} : Denotes imports nesting lookup ⟨[], absolute⟩ (.ok rootName)
  /-- An absolute path is looked up from the root only. -/
  | absolute {head : String} {rest : List String} {result : Except Failure String}
      (leads : Leads lookup ⟨head :: rest, true⟩ (memberName rootName head) rest result) :
      Denotes imports nesting lookup ⟨head :: rest, true⟩ result
  /-- The innermost scope that binds the head of a relative path gives a constant to start from. If
  the path leads nowhere from there, nothing else is tried. -/
  | imported {head : String} {rest : List String} {frame : ImportFrame} {target : String}
      {result : Except Failure String}
      (innermost : First (ImportFrame.Binds lookup head) imports.frames frame)
      (gives : frame.Gives lookup head (.ok target))
      (leads : Leads lookup ⟨head :: rest, false⟩ target rest result) :
      Denotes imports nesting lookup ⟨head :: rest, false⟩ result
  | ambiguous {head : String} {rest : List String} {frame : ImportFrame} {failure : Failure}
      (innermost : First (ImportFrame.Binds lookup head) imports.frames frame)
      (gives : frame.Gives lookup head (.error failure)) :
      Denotes imports nesting lookup ⟨head :: rest, false⟩ (.error failure)
  /-- If no scope binds the head, the first namespace that has the whole path decides. -/
  | enclosing {head : String} {rest : List String} {n : String}
      (unbound : ∀ frame ∈ imports.frames, ¬frame.Binds lookup head)
      (found : FoundIn (fun n => lookup.HasPath (memberName n head) rest) nesting n) :
      Denotes imports nesting lookup ⟨head :: rest, false⟩
        (.ok (fullNameBelow (memberName n head) rest))
  | undefined {head : String} {rest : List String}
      (unbound : ∀ frame ∈ imports.frames, ¬frame.Binds lookup head)
      (missing : ∀ n, ¬FoundIn (fun n => lookup.HasPath (memberName n head) rest) nesting n) :
      Denotes imports nesting lookup ⟨head :: rest, false⟩
        (.error (.undefinedConstant ⟨head :: rest, false⟩))

section Rule

variable {imports : Imports} {nesting : List String} {lookup : Lookup} {head : String}
  {rest : List String}

/-- The search through the scopes ends at the innermost one that binds the name. -/
theorem ofFrames_cases (lookup : Lookup) (head : String) (frames : List ImportFrame) :
    (Imports.ofFrames lookup head frames = .ok none ∧ ∀ frame ∈ frames, ¬frame.Binds lookup head) ∨
      ∃ frame result, First (ImportFrame.Binds lookup head) frames frame ∧
        Imports.ofFrames lookup head frames = result.map some ∧ frame.Gives lookup head result := by
  induction frames with
  | nil => exact .inl ⟨rfl, by simp⟩
  | cons frame frames ih =>
    rw [Imports.ofFrames]
    rcases ofFrame_cases lookup head frame with ⟨is, unbound⟩ | ⟨result, is, gives⟩
    · rw [is]
      rcases ih with ⟨nothing, others⟩ | ⟨other, result, first, given⟩
      · exact .inl ⟨nothing, forall_mem_cons.2 ⟨unbound, others⟩⟩
      · exact .inr ⟨other, result, .later unbound first, given⟩
    · rw [is]
      exact .inr ⟨frame, result, .here gives.binds, by cases result <;> rfl, gives⟩

/-- The namespaces are searched in the order of the rule. -/
theorem first_searched_iff {p : String → Prop} {n : String} :
    First p (searched nesting) n ↔ FoundIn p nesting n := by
  cases nesting with
  | nil =>
    show First p ["Root", "Root::Std"] n ↔ _
    constructor
    · rintro (has | ⟨lacks, has | ⟨-, never⟩⟩)
      · exact .root rfl has
      · exact .standard nofun (fun _ => lacks) has
      · cases never
    · rintro (innermost | ⟨-, has⟩ | ⟨-, lacks, has⟩)
      · cases innermost
      · exact .here has
      · exact .later (lacks rfl) (.here has)
  | cons inner outer =>
    show First p ((inner :: outer) ++ ["Root::Std"]) n ↔ _
    rw [first_concat_iff]
    constructor
    · rintro (innermost | ⟨missing, has, rfl⟩)
      · exact .around innermost
      · exact .standard missing nofun has
    · rintro (innermost | ⟨⟨⟩, -⟩ | ⟨missing, -, has⟩)
      · exact .inl innermost
      · exact .inr ⟨missing, has, rfl⟩

/-- The search through the namespaces ends at the first one that has the whole path. -/
theorem findSome?_descend_cases (lookup : Lookup) (head : String) (rest names : List String) :
    (names.findSome? (fun n => descend lookup (memberName n head) rest) = none ∧
        ∀ n ∈ names, ¬lookup.HasPath (memberName n head) rest) ∨
      ∃ n, First (fun n => lookup.HasPath (memberName n head) rest) names n ∧
        names.findSome? (fun n => descend lookup (memberName n head) rest) =
          some (fullNameBelow (memberName n head) rest) := by
  cases found : names.findSome? fun n => descend lookup (memberName n head) rest with
  | none =>
    refine .inl ⟨rfl, fun n listed => ?_⟩
    exact descend_eq_none_iff.1 (List.findSome?_eq_none_iff.1 found n listed)
  | some fullName =>
    obtain ⟨n, first, given⟩ := (findSome?_eq_some_iff_first _).1 found
    obtain ⟨-, rfl⟩ := descend_eq_some_iff.1 given
    exact .inr ⟨n, first.congr fun _ _ => isSome_descend_iff, rfl⟩

/-- The outcome of a search for a path. -/
def Path.result (path : Path) (found : Option String) : Except Failure String :=
  found.elim (.error (.undefinedConstant path)) .ok

theorem leads_iff {path : Path} {start : String} {result : Except Failure String} :
    Leads lookup path start rest result ↔ path.result (descend lookup start rest) = result := by
  constructor
  · rintro (has | missing)
    · rw [descend_eq_some_iff.2 ⟨has, rfl⟩]
      rfl
    · rw [descend_eq_none_iff.2 missing]
      rfl
  · rintro rfl
    cases found : descend lookup start rest with
    | none => exact .nowhere (descend_eq_none_iff.1 found)
    | some fullName =>
      obtain ⟨has, rfl⟩ := descend_eq_some_iff.1 found
      exact .there has

theorem resolve_absolute (imports : Imports) (nesting : List String) (lookup : Lookup)
    (head : String)
    (rest : List String) : resolve imports nesting lookup ⟨head :: rest, true⟩ =
      Path.result ⟨head :: rest, true⟩ (descend lookup (memberName rootName head) rest) := by
  unfold resolve
  dsimp only [if_true, pure_bind]
  cases descend lookup (memberName rootName head) rest <;> rfl

theorem resolve_relative (imports : Imports) (nesting : List String) (lookup : Lookup)
    (head : String)
    (rest : List String) : resolve imports nesting lookup ⟨head :: rest, false⟩ =
      (Imports.ofFrames lookup head imports.frames).bind fun target =>
        Path.result ⟨head :: rest, false⟩ (target.elim
          ((searched nesting).findSome? fun n => descend lookup (memberName n head) rest)
          (descend lookup · rest)) := by
  show Except.bind (Except.bind (Imports.ofFrames lookup head imports.frames) _) _ = _
  cases Imports.ofFrames lookup head imports.frames with
  | error => rfl
  | ok target =>
    unfold Except.bind
    cases target with
    | none =>
      dsimp only [pure, Except.pure, elim_none]
      cases (searched nesting).findSome? fun n => descend lookup (memberName n head) rest <;> rfl
    | some target =>
      dsimp only [pure, Except.pure, elim_some]
      cases descend lookup target rest <;> rfl

theorem denotes_resolve (imports : Imports) (nesting : List String) (lookup : Lookup)
    (path : Path) :
    Denotes imports nesting lookup path (resolve imports nesting lookup path) := by
  obtain ⟨segments, absolute⟩ := path
  cases segments with
  | nil => exact .root
  | cons head rest =>
    cases absolute with
    | true =>
      rw [resolve_absolute]
      exact .absolute (leads_iff.2 rfl)
    | false =>
      rw [resolve_relative]
      rcases ofFrames_cases lookup head imports.frames with
        ⟨is, unbound⟩ | ⟨frame, result, innermost, is, gives⟩
      · rw [is]
        rcases findSome?_descend_cases lookup head rest (searched nesting) with
          ⟨nowhere, missing⟩ | ⟨n, first, found⟩
        · have undefined : Denotes imports nesting lookup _ _ := .undefined unbound fun n found =>
            missing n (first_searched_iff.2 found).mem (first_searched_iff.2 found).holds
          rwa [Except.bind, elim_none, nowhere]
        · have enclosing := Denotes.enclosing unbound (first_searched_iff.1 first)
          rwa [Except.bind, elim_none, found]
      · rw [is]
        cases result with
        | ok target => exact .imported innermost gives (leads_iff.2 rfl)
        | error failure => exact .ambiguous innermost gives

theorem ofFrames_of_gives {frames : List ImportFrame} {frame : ImportFrame}
    {result : Except Failure String}
    (innermost : First (ImportFrame.Binds lookup head) frames frame)
    (gives : frame.Gives lookup head result) :
    Imports.ofFrames lookup head frames = result.map some := by
  rcases ofFrames_cases lookup head frames with
    ⟨-, unbound⟩ | ⟨other, result, innermostToo, is, givesToo⟩
  · exact absurd innermost.holds (unbound frame innermost.mem)
  · cases innermost.unique innermostToo
    cases gives.unique givesToo
    exact is

theorem ofFrames_of_unbound {frames : List ImportFrame}
    (unbound : ∀ frame ∈ frames, ¬frame.Binds lookup head) :
    Imports.ofFrames lookup head frames = .ok none := by
  rcases ofFrames_cases lookup head frames with ⟨is, -⟩ | ⟨frame, result, innermost, -⟩
  · exact is
  · exact absurd innermost.holds (unbound frame innermost.mem)

theorem Denotes.resolve_eq {path : Path} {result : Except Failure String}
    (denotes : Denotes imports nesting lookup path result) :
    resolve imports nesting lookup path = result := by
  cases denotes with
  | root => rfl
  | absolute leads =>
    rw [resolve_absolute]
    exact leads_iff.1 leads
  | imported innermost gives leads =>
    rw [resolve_relative, ofFrames_of_gives innermost gives]
    exact leads_iff.1 leads
  | ambiguous innermost gives =>
    rw [resolve_relative, ofFrames_of_gives innermost gives]
    rfl
  | @enclosing head rest n unbound found =>
    have innermost := first_searched_iff.2 found
    rw [resolve_relative, ofFrames_of_unbound unbound, Except.bind, elim_none]
    rcases findSome?_descend_cases lookup head rest (searched nesting) with
      ⟨-, missing⟩ | ⟨other, innermostToo, is⟩
    · exact absurd innermost.holds (missing n innermost.mem)
    · cases innermost.unique innermostToo
      rw [is]
      rfl
  | @undefined head rest unbound missing =>
    rw [resolve_relative, ofFrames_of_unbound unbound, Except.bind, elim_none]
    rcases findSome?_descend_cases lookup head rest (searched nesting) with
      ⟨nowhere, -⟩ | ⟨n, innermost, -⟩
    · rw [nowhere]
      rfl
    · exact absurd (first_searched_iff.1 innermost) (missing n)

theorem Leads.isSome {path : Path} {start fullName : String}
    (leads : Leads lookup path start rest (.ok fullName)) : (lookup fullName).isSome := by
  cases leads with
  | there has => exact has.isSome

theorem Denotes.isSome {path : Path} {fullName : String}
    (denotes : Denotes imports nesting lookup path (.ok fullName)) (named : path.segments ≠ []) :
    (lookup fullName).isSome := by
  cases denotes with
  | root => exact absurd rfl named
  | absolute leads => exact leads.isSome
  | imported _ _ leads => exact leads.isSome
  | enclosing _ found => exact (first_searched_iff.2 found).holds.isSome

end Rule

/-- **Resolution comes to a result exactly if the rule of precedence says so**, and what it finds
exists. -/
theorem resolve_precedence (imports : Imports) (nesting : List String) (lookup : Lookup)
    (path : Path) :
    (∀ result, resolve imports nesting lookup path = result ↔
      Denotes imports nesting lookup path result) ∧
    ∀ fullName, resolve imports nesting lookup path = .ok fullName → path.segments ≠ [] →
      (lookup fullName).isSome := by
  have follows := denotes_resolve imports nesting lookup path
  refine ⟨fun result => ⟨fun is => is ▸ follows, Denotes.resolve_eq⟩, fun fullName is named => ?_⟩
  rw [is] at follows
  exact follows.isSome named

/-- Two scopes. In the inner one two wildcards offer `B`, and an import between them names it; the
outer one names it too. -/
def nestedImports : Imports where
  inner := [.wildcard "Root::C", .named "B" "Root::D", .wildcard "Root::A"]
  outer := [[.named "B" "Root::E"]]

/-- The constants that the imports are about, and others of the same name. -/
def nestedLookup : Lookup := fun n =>
  if ["Root::A::B", "Root::B", "Root::B::Y", "Root::C::B", "Root::D", "Root::D::X", "Root::E",
    "Root::E::X", "Root::Std::B", "Root::Std::B::Z"].contains n then some .value else none

/-- The import that names `B` wins, also where the path leads nowhere from it. Without it the
wildcards do not agree. Without imports the innermost namespace with the whole path is taken:
`Root::A` for `B`, `Root` for `B::Y` and `Root::Std` for `B::Z`. -/
theorem resolve_precedence_nested :
    let denotes (imports : Imports) (nesting path : List String) (result : Except Failure String) :
      Prop :=
      Denotes imports nesting nestedLookup ⟨path, false⟩ result
    denotes nestedImports ["Root"] ["B", "X"] (.ok "Root::D::X") ∧
      denotes nestedImports ["Root"] ["B", "Y"] (.error (.undefinedConstant ⟨["B", "Y"], false⟩)) ∧
      denotes ⟨[.wildcard "Root::C", .wildcard "Root::A", .wildcard "Root::C"], []⟩ ["Root"] ["B"]
        (.error (.ambiguousConstant "B" "Root::A::B" "Root::C::B")) ∧
      denotes .empty ["Root::A", "Root"] ["B"] (.ok "Root::A::B") ∧
      denotes .empty ["Root::A", "Root"] ["B", "Y"] (.ok "Root::B::Y") ∧
      denotes .empty [] ["B", "Y"] (.ok "Root::B::Y") ∧
      denotes .empty ["Root::A", "Root"] ["B", "Z"] (.ok "Root::Std::B::Z") ∧
      denotes .empty ["Root::A"] ["B", "Y"] (.error (.undefinedConstant ⟨["B", "Y"], false⟩)) := by
  intro denotes
  have follows (imports : Imports) (nesting path : List String) :
      denotes imports nesting path (resolve imports nesting nestedLookup ⟨path, false⟩) :=
    ((resolve_precedence imports nesting nestedLookup ⟨path, false⟩).1 _).1 rfl
  exact ⟨follows _ _ _, follows _ _ _, follows _ _ _, follows _ _ _, follows _ _ _, follows _ _ _,
    follows _ _ _, follows _ _ _⟩

end StackCode
