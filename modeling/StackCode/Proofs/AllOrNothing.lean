import StackCode.Proofs.Facts
import StackCode.Proofs.PublishedViews

/-!
# Publication is all or nothing

A unit that is compiled against a base either fails and leaves no trace, or it is published as a
whole. Then the live registry has exactly what it had, and what the unit has recorded
(`Publishable.has_publishInto_iff`).

Inclusions of mixins and instance variables are recorded only if the declarations around them
denote, in the unit as a whole, the places that they were collected at (`Program.records_facts`). If
one does not, no failure says so (`Session.not_always_published`).
-/

namespace StackCode

/-- A registry has a fact. -/
def Registry.Has (r : Registry) : Fact → Prop
  | .namespace n kind => ∃ info, r.get? n = some info ∧ info.kind = kind
  | .constant n x => r.HasMember n x
  | .mixin n M => M ∈ r.mixinsOf n
  | .ivar singleton n x => (r.tableOf n singleton).contains x = true

/-- What a unit declares, with its layouts, has a fact. -/
def Declared.Records (base : Registry) (d : Declared) (layouts : Layouts) : Fact → Prop
  | .namespace n kind => ∃ ns, d.get? n = some ns ∧ ns.kind = kind
  | .constant n x => d.Adds n x
  | .mixin n M => M ∈ d.mixinsOf n
  | .ivar singleton n x => (seenTable base layouts n singleton).contains x = true

/-- A unit that is compiled against a base records a fact. -/
def Program.Records (p : Program) (base : Registry) (fact : Fact) : Prop :=
  (p.linked base).declared.Records base (p.laidOut base).layouts fact

/-! ## What is published -/

section Publish

variable {base live : Registry} {d : Declared} {layouts : Layouts}

/-- **The live registry has what it had, and what the unit has recorded.** -/
theorem Publishable.has_publishInto_iff (pub : Publishable base live d layouts)
    (grown : base.Grown live) (root : (live.get? rootName).isSome)
    (known : ∀ n x, d.Adds n x → d.Knows base n) (fact : Fact) :
    (publishInto base live d layouts).Has fact ↔
      live.Has fact ∨ d.Records base layouts fact := by
  have stands := pub.fits.stands
  cases fact with
  | «namespace» n kind =>
    show (∃ info, Registry.get? _ n = some info ∧ info.kind = kind) ↔
      (∃ info, live.get? n = some info ∧ info.kind = kind) ∨
        ∃ ns, d.get? n = some ns ∧ ns.kind = kind
    constructor
    · rintro ⟨info, found, rfl⟩
      cases isDeclared : d.get? n with
      | none =>
        have same : (publishInto base live d layouts).outline? n = live.outline? n :=
          publishInto_undeclared stands isDeclared
        obtain ⟨old, foundOld, outline⟩ := Registry.outline?_eq_some.1
          (same.symm.trans (Registry.outline?_eq_some.2 ⟨info, found, rfl⟩))
        exact .inl ⟨old, foundOld, congrArg Outline.kind outline⟩
      | some ns =>
        obtain ⟨after, foundAfter, kind⟩ := pub.get?_declared isDeclared
        cases found.symm.trans foundAfter
        exact .inr ⟨ns, rfl, kind.symm⟩
    · rintro (⟨old, found, rfl⟩ | ⟨ns, found, rfl⟩)
      · obtain ⟨new, foundNew, grown⟩ := pub.grown_publishInto n old found
        exact ⟨new, foundNew, grown.kind⟩
      · exact pub.get?_declared found
  | constant n x =>
    refine (hasMember_publishInto stands n x).trans
      (or_congr_right ⟨And.right, fun adds => ⟨?_, adds⟩⟩)
    rcases known n x adds with rfl | here | before
    · exact .inl root
    · exact .inr here
    · exact .inl (grown.isSome before)
  | mixin n M =>
    show M ∈ Registry.mixinsOf _ n ↔ M ∈ live.mixinsOf n ∨ M ∈ d.mixinsOf n
    rw [mixinsOf_publishInto stands, mem_addMixins]
  | ivar singleton n x =>
    show (Registry.tableOf _ n singleton).contains x = true ↔
      (live.tableOf n singleton).contains x = true ∨
        (seenTable base layouts n singleton).contains x = true
    constructor
    · intro listed
      rcases pub.tableOf_cases n singleton with ⟨-, same⟩ | ⟨table, -, -, seen, now⟩
      · exact .inl (same ▸ listed)
      · exact .inr (seen.trans now.symm ▸ listed)
    · rintro (before | recorded)
      · exact pub.contains_tableOf_publishInto before
      · rcases pub.tableOf_cases n singleton with ⟨seen, same⟩ | ⟨table, -, -, seen, now⟩
        · rw [same]
          exact grown.contains_tableOf (seen ▸ recorded)
        · exact now.trans seen.symm ▸ recorded

theorem Fits.contains_declared (fits : Fits base d layouts) {n x : String}
    {ns : DeclaredNamespace} {span : Span} {singleton : Bool}
    (found : d.get? n = some ns) (has : ns.hasTable singleton = true)
    (member : .declare x span ∈ ns.contributionsTo singleton) :
    (seenTable base layouts n singleton).contains x = true := by
  obtain ⟨table, laidOut, -⟩ := fits.laidOut found has
  rw [seenTable, laidOut]
  rw [Layouts.table?_eq] at laidOut
  obtain ⟨_, _, foundToo, -, makes⟩ := (fits.complete singleton).made laidOut
  cases found.symm.trans foundToo
  exact makes.contains_declared member

end Publish

/-! ## What is recorded -/

section Record

variable {o : Options} {base : Registry} {p : Program} {fact : Fact}

theorem Program.collects_facts (unfailed : ¬Failed (collect base p.statements).issues)
    (member : fact ∈ p.facts base) :
      (collect base p.statements).declared.Collects fact := by
  refine Stmt.collects_allFacts [rootName] none .empty p.statements ⟨.empty, #[]⟩ unfailed
    (fun n around => ?_) fact member
  exact .inl (List.mem_singleton.1 around)

theorem Program.notes_facts (keeps : p.keepsPlaces (p.unitInfo o base) = true)
    (member : fact ∈ p.facts base) : (p.linked base).declared.Notes fact := by
  refine Declared.Notes.link ?_
  refine Stmt.notes_allFacts [rootName] none p.statements ⟨.empty, #[]⟩
    ⟨(collect base p.statements).declared, (collect base p.statements).issues, .empty⟩
    (lookup_linked base p).symm keeps (fun n ns found => ?_) nofun fact member
  exact congrArg (Option.map DeclaredNamespace.kind) found

/-- **What the text declares is recorded**: namespaces and constants in any case, and everything if
declarations keep their places. -/
theorem Program.records_facts
    (fits : Fits base (p.linked base).declared (p.laidOut base).layouts)
    (unfailed : ¬Failed (collect base p.statements).issues)
    (member : fact ∈ p.facts base)
    (covered : fact.isName = true ∨ p.keepsPlaces (p.unitInfo o base) = true) :
    p.Records base fact := by
  have collects := p.collects_facts unfailed member
  cases fact with
  | «namespace» n kind =>
    obtain ⟨ns, found, rfl⟩ := collects
    have kinds := link_kinds base p.statements (collect base p.statements) n
    rw [found] at kinds
    exact Option.map_eq_some_iff.1 kinds
  | constant n x =>
    obtain ⟨-, members⟩ :=
      link_sameMembers base p.statements (collect base p.statements)
    show (p.linked base).declared.Adds n x
    rw [Declared.Adds, Program.linked, members]
    exact collects
  | mixin n M =>
    obtain ⟨ns, found, isMixin⟩ := notes_facts (covered.resolve_left Bool.false_ne_true) member
    show M ∈ (p.linked base).declared.mixinsOf n
    rw [Declared.mixinsOf, found]
    exact isMixin
  | ivar singleton n x =>
    obtain ⟨ns, span, found, has, there⟩ :=
      notes_facts (covered.resolve_left Bool.false_ne_true) member
    exact fits.contains_declared found has there

end Record

/-! ## Outcomes -/

section Outcomes

variable {o : Options} {base current : Registry} {p : Program}

theorem problem_publishConflicts {d : Declared} {layouts : Layouts} {issue : Issue}
    (member : issue ∈ publishConflicts base current d layouts) :
    issue.problem.isFailure = true ∧ issue.problem.isIllegal = false := by
  obtain ⟨ns, -, conflict⟩ := List.mem_filterMap.1 member
  unfold namespaceConflict? at conflict
  dsimp only at conflict
  repeat' split at conflict
  all_goals cases conflict
  all_goals exact ⟨rfl, rfl⟩

theorem failureCount_eq_zero {function : Option CompiledFunction} {file : String}
    {issues : List Issue} :
    Outcome.failureCount ⟨function, issues.map (Issue.inFile file)⟩ = 0 ↔
      ∀ issue ∈ issues, issue.problem.isFailure = false := by
  rw [Outcome.failureCount, List.countP_eq_zero, List.forall_mem_map]
  exact forall₂_congr fun issue _ => Bool.eq_false_iff.symm

/-- **There is a failure exactly if there is no function.** -/
theorem compileAgainst_failureCount (o : Options) (base current : Registry)
    (p : Program) :
    (compileAgainst o base current p).1.failureCount = 0 ↔
      (compileAgainst o base current p).1.function.isSome := by
  unfold compileAgainst
  generalize compileUnit o base p = unit
  dsimp only
  split
  · rename_i failed
    obtain ⟨issue, member, isFailure⟩ := Array.any_eq_true'.1 failed
    rw [failureCount_eq_zero]
    refine ⟨fun clean => ?_, nofun⟩
    rw [clean issue (Array.mem_toList_iff.2 member)] at isFailure
    cases isFailure
  · rename_i unfailed
    cases conflicts : publishConflicts base current unit.declared unit.layouts with
    | nil =>
      refine ⟨fun _ => rfl, fun _ => failureCount_eq_zero.2 fun issue member => ?_⟩
      rw [Bool.eq_false_iff]
      exact fun isFailure =>
        unfailed (Array.any_eq_true'.2 ⟨issue, Array.mem_toList_iff.1 member, isFailure⟩)
    | cons issue rest =>
      dsimp only
      rw [← List.map_append, failureCount_eq_zero]
      refine ⟨fun clean => ?_, nofun⟩
      have isFailure := (problem_publishConflicts (conflicts ▸ List.mem_cons_self)).1
      rw [clean issue (List.mem_append_right _ List.mem_cons_self)] at isFailure
      cases isFailure

end Outcomes

/-! ## Sessions -/

namespace Session

/-- **A unit that finishes either fails and leaves no trace, or is published as a whole.** Whatever
has happened since its base was taken, nothing that was registered is lost. The live registry then
has what it had and what the unit has recorded, and that is all that the text of the unit declares
if declarations denote, in the unit as a whole, the places that they were collected at. Namespaces
and constants are there in any case. -/
theorem finish_all_or_nothing {events : List Event} {i : Nat} {base : Registry} (o : Options)
    (p : Program) (taken : (start.run events).taken[i]? = some base) :
    let before := start.run events
    let after := before.step (.finish i o p)
    let outcome := (compileAgainst o base before.live p).1
    0 < outcome.failureCount ∧ outcome.function = none ∧ after = before ∨
      outcome.failureCount = 0 ∧ outcome.function.isSome ∧ before.live.Grown after.live ∧
        (∀ fact, after.live.Has fact ↔ before.live.Has fact ∨ p.Records base fact) ∧
        ∀ fact ∈ p.facts base,
          fact.isName = true ∨ p.keepsPlaces (p.unitInfo o base) = true →
            after.live.Has fact := by
  intro before after outcome
  have good : before.Lossless := lossless_start.run events
  have failures : outcome.failureCount = 0 ↔ outcome.function.isSome :=
    compileAgainst_failureCount o base before.live p
  have next : after = { before with live :=
    (compileAgainst o base before.live p).2 } := by
    show before.step _ = _
    rw [step, taken]
  rcases compileAgainst_cases o base before.live p with
    ⟨none, live⟩ | ⟨clean, -, some, -⟩
  · refine .inl ⟨Nat.pos_of_ne_zero fun zero => ?_, none, by rw [next, live]⟩
    have isSome := failures.1 zero
    rw [none] at isSome
    cases isSome
  · have publishes : before.Publishes (.finish i o p) base p := .intro taken some
    have pub := publishes.publishable good.toGood
    have compiled : outcome.function.isSome := by
      rw [some]
      rfl
    have live : after.live = before.published base p :=
      congrArg Session.live publishes.step_eq
    have has (fact : Fact) : after.live.Has fact ↔ before.live.Has fact ∨
        p.Records base fact := by
      rw [live]
      exact pub.has_publishInto_iff (good.grown base publishes.mem_taken).2
        (isSome_root good.prelude) (p.filed_linked base).known fact
    refine .inr ⟨failures.2 compiled, compiled, grown_step good.toGood _, has, ?_⟩
    intro fact member covered
    exact (has fact).2 (.inr (Program.records_facts pub.fits (collect_unfailed clean) member
      covered))

/-- A class with a mixin, instance variables on both levels, and a constant. -/
def gatheringUnit : Program :=
  let at_ := Span.zero
  .ofStatements [
    .namespace at_ .mixin ⟨["M"], false⟩ none [.ivar at_ "x" none],
    .namespace at_ .class ⟨["C"], false⟩ none [
      .include at_ [⟨["M"], false⟩],
      .ivar at_ "a" none,
      .singleton at_ [.ivar at_ "s" none],
      .constant at_ "K" none (.literal at_ (.int 1))]]

theorem finish_all_or_nothing_gathering :
    ∃ events, events = [Event.take, .take, .finish 0 (.forFile "class") (classUnit "C" none [])] ∧
      ∀ fact ∈ [Fact.namespace "Root::M" .mixin, .ivar false "Root::M" "x",
          .namespace "Root::C" .class, .mixin "Root::C" "Root::M", .ivar false "Root::C" "a",
          .ivar true "Root::C" "s", .constant "Root::C" "K"],
        ((start.run events).step (.finish 1 (.forFile "gathering") gatheringUnit)).live.Has
          fact := by
  have facts : gatheringUnit.facts .prelude = [Fact.namespace "Root::M" .mixin,
      .ivar false "Root::M" "x", .namespace "Root::C" .class, .mixin "Root::C" "Root::M",
      .ivar false "Root::C" "a", .ivar true "Root::C" "s", .constant "Root::C" "K"] := by
    decide +kernel
  have taken : (start.run [.take, .take,
      .finish 0 (.forFile "class") (classUnit "C" none [])]).taken[1]? = some .prelude := rfl
  refine ⟨_, rfl, ?_⟩
  rw [← facts]
  rcases finish_all_or_nothing (.forFile "gathering") gatheringUnit taken with
    ⟨failures, -⟩ | ⟨-, -, -, -, published⟩
  · exact absurd failures (by decide +kernel)
  · exact fun fact member => published fact member (.inr (by decide +kernel))

/-- A class that includes a mixin and has an instance variable, and whose path denotes one
module where it is collected, and another one in the unit as a whole. -/
def shadowedClassUnit : Program :=
  let at_ := Span.zero
  .ofStatements [
    .namespace at_ .mixin ⟨["M"], false⟩ none [],
    .namespace at_ .module ⟨["B"], false⟩ none [],
    .namespace at_ .module ⟨["A"], false⟩ none [
      .namespace at_ .class ⟨["B", "C"], false⟩ none [
        .include at_ [⟨["M"], false⟩], .ivar at_ "x" none],
      .namespace at_ .module ⟨["B"], false⟩ none []]]

/-- What the text of a unit declares is not always published: a class loses its mixin and
its instance variable, without any failure. -/
theorem not_always_published : ¬∀ (events : List Event) (i : Nat) (base : Registry)
    (o : Options) (p : Program), (start.run events).taken[i]? = some base →
      (compileAgainst o base (start.run events).live p).1.failureCount = 0 →
      ∀ fact ∈ p.facts base,
        ((start.run events).step (.finish i o p)).live.Has fact := by
  intro published
  have has := published [.take] 0 .prelude (.forFile "shadowed") shadowedClassUnit rfl
    (by decide +kernel)
  have mixin := has (.mixin "Root::B::C" "Root::M") (by decide +kernel)
  revert mixin
  show ¬"Root::M" ∈ Registry.mixinsOf _ "Root::B::C"
  decide +kernel

end Session

end StackCode
