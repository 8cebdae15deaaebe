import StackCode.Proofs.PublishedViews

/-!
# Constants that units share

Whether a unit may declare something is looked up in its base. When it is published, only namespaces
are compared with the live registry. So two things can happen if units overlap.

* A unit declares a namespace under a full name that another unit has meanwhile made a constant of.
  From then on the name stands for something else (`ShadowsAt`).
* A unit declares a constant that another unit has declared since the base was taken. Neither of
  them fails.
-/

namespace StackCode

open List Option Registry

/-- There is no colon in the names of the constants that a unit declares. -/
def Event.Plain : Event → Prop
  | .take => True
  | .finish _ _ p => ∀ name ∈ p.declaredConstants, ':' ∉ name.toList

namespace Session

variable {s : Session} {e : Event} {f : String}

/-- The constants that an event publishes. -/
def constantsAt (s : Session) : Event → List String
  | .take => []
  | .finish base o p =>
    match s.taken[base]? with
    | none => []
    | some base =>
      if (compileAgainst o base s.live p).1.function.isSome then
        (collect base p.statements).declared.constants.names.toList
      else []

/-- The full names of the constants of all units that some events publish, one unit after the
other. -/
def constantsAlong (s : Session) : List Event → List String
  | [] => []
  | e :: rest => s.constantsAt e ++ (s.step e).constantsAlong rest

/-- An event declares a namespace under a full name that has become a constant since the base was
taken. -/
def ShadowsAt (s : Session) (e : Event) : Prop :=
  ∃ base p, s.Publishes e base p ∧
    ∃ f, ((collect base p.statements).declared.get? f).isSome ∧ base.constant? f = none ∧
      s.live.constant? f = some .value

/-! ## What one event does -/

theorem mem_constantsAt : f ∈ s.constantsAt e ↔ ∃ base p, s.Publishes e base p ∧
    (collect base p.statements).declared.constants.contains f = true := by
  constructor
  · intro member
    cases e with
    | take => cases member
    | finish i o p =>
      rw [constantsAt] at member
      split at member
      · cases member
      · rename_i base taken
        split at member
        · rename_i compiles
          obtain ⟨function, compiled⟩ := isSome_iff_exists.1 compiles
          exact ⟨base, p, .intro taken compiled, (NameTable.contains_iff _ _).2 member⟩
        · cases member
  · rintro ⟨base, p, publishes, listed⟩
    cases publishes with
    | intro taken compiled =>
      rw [constantsAt, taken]
      dsimp only
      rw [compiled, isSome_some, if_pos rfl]
      exact (NameTable.contains_iff _ _).1 listed

theorem nodup_constantsAt (s : Session) (e : Event) : (s.constantsAt e).Nodup := by
  cases e with
  | take => exact nodup_nil
  | finish i o p =>
    rw [constantsAt]
    split
    · exact nodup_nil
    · split
      · exact NameTable.nodup_names _
      · exact nodup_nil

/-- **A constant keeps its meaning if it is not shadowed.** -/
theorem constant?_step (good : s.Lossless) (unshadowed : ¬s.ShadowsAt e) {kind : ConstantKind}
    (stands : s.live.constant? f = some kind) : (s.step e).live.constant? f = some kind := by
  cases kind with
  | «namespace» kind =>
    obtain ⟨old, found, rfl⟩ := constant?_eq_namespace.1 stands
    obtain ⟨new, foundNew, grown⟩ := grown_step good.toGood e f old found
    exact constant?_eq_namespace.2 ⟨new, foundNew, grown.kind⟩
  | value =>
    obtain ⟨missing, n, x, cut, member⟩ := constant?_eq_value.1 stands
    refine constant?_eq_value.2 ⟨?_, n, x, cut, (grown_step good.toGood e).hasMember member⟩
    rcases s.step_cases e with ⟨base, p, publishes⟩ | ⟨live, -⟩
    · rw [publishes.step_eq]
      refine (publishes.publishable good.toGood).get?_undeclared ?_ missing
      rw [← not_isSome_iff_eq_none, isSome_linked]
      intro there
      have unregistered : base.get? f = none := by
        rw [← not_isSome_iff_eq_none]
        intro before
        have after := (good.grown base publishes.mem_taken).2.isSome before
        rw [missing] at after
        cases after
      have unseen := ((filed_collect base p).opened f there unregistered).1
      exact unshadowed ⟨base, p, publishes, f, there, unseen, stands⟩
    · rw [live]
      exact missing

theorem constant?_shadowed (good : s.Good) (shadows : s.ShadowsAt e) :
    ∃ f, s.live.constant? f = some .value ∧ (s.step e).live.constant? f ≠ some .value := by
  obtain ⟨base, p, publishes, f, there, -, stands⟩ := shadows
  rw [← isSome_linked] at there
  obtain ⟨ns, found⟩ := isSome_iff_exists.1 there
  refine ⟨f, stands, ?_⟩
  have shadowed := (publishes.publishable good).constant?_declared found
  rw [publishes.step_eq]
  intro same
  cases shadowed.symm.trans same

theorem placed_constantsAt (good : s.Lossless) (plain : e.Plain) (member : f ∈ s.constantsAt e) :
    ∃ n x, splitMember? f = some (n, x) ∧ (s.step e).live.HasMember n x := by
  obtain ⟨base, p, publishes, listed⟩ := mem_constantsAt.1 member
  have isPlain : ∀ name ∈ p.declaredConstants, ':' ∉ name.toList := by
    cases publishes with
    | intro => exact plain
  have filed := p.filed_linked base
  rw [← (link_sameMembers base p.statements (collect base p.statements)).1] at listed
  obtain ⟨-, -, n, x, rfl, named, known, adds⟩ := filed.constant f listed
  refine ⟨n, x, splitMember?_memberName n (isPlain x named), ?_⟩
  have publishable := publishes.publishable good.toGood
  rw [publishes.step_eq]
  refine (hasMember_publishInto publishable.fits.stands n x).2 (.inr ⟨?_, adds⟩)
  rcases known with rfl | here | before
  · exact .inl (isSome_root good.prelude)
  · exact .inr here
  · exact .inl ((good.grown base publishes.mem_taken).2.isSome before)

/-! ## Sessions as a whole -/

theorem constantsAlong_append (s : Session) (early late : List Event) :
    s.constantsAlong (early ++ late) = s.constantsAlong early ++
      (s.run early).constantsAlong late := by
  induction early generalizing s with
  | nil => rfl
  | cons e rest ih =>
    rw [cons_append, constantsAlong, ih, ← List.append_assoc]
    rfl

theorem constant?_run (good : s.Lossless) (events : List Event)
    (unshadowed : ∀ before event, before ++ [event] <+: events → ¬(s.run before).ShadowsAt event)
    {kind : ConstantKind} (stands : s.live.constant? f = some kind) :
    (s.run events).live.constant? f = some kind := by
  induction events generalizing s with
  | nil => exact stands
  | cons e rest ih =>
    refine ih (good.step e) (fun before event earlier => ?_)
      (constant?_step good (unshadowed [] e ⟨rest, rfl⟩) stands)
    exact unshadowed (e :: before) event (cons_prefix_cons.2 ⟨rfl, earlier⟩)

theorem visible_constantsAlong (good : s.Lossless) (events : List Event)
    (plain : ∀ e ∈ events, e.Plain) (member : f ∈ s.constantsAlong events) :
    (s.run events).live.constant? f ≠ none := by
  induction events generalizing s with
  | nil => cases member
  | cons e rest ih =>
    rcases mem_append.1 member with here | later
    · obtain ⟨n, x, cut, placed⟩ := placed_constantsAt good (plain e mem_cons_self) here
      intro unseen
      refine (constant?_eq_none.1 unseen).2 n x cut ?_
      exact (grown_run (good.step e).toGood rest).hasMember placed
    · exact ih (good.step e) (fun other later => plain other (mem_cons_of_mem e later)) later

theorem exists_take {events : List Event} {i : Nat} {base : Registry}
    (taken : (start.run events).taken[i]? = some base) :
    ∃ before between, events = before ++ .take :: between ∧
      (start.run before).taken.length = i ∧ (start.run before).live = base := by
  induction events using List.reverseRecOn with
  | nil => cases taken
  | append_singleton events e ih =>
    have step : start.run (events ++ [e]) = (start.run events).step e := run_append _ _ _
    rw [step] at taken
    have early (isEarly : (start.run events).taken[i]? = some base) :
        ∃ before between, events ++ [e] = before ++ .take :: between ∧
          (start.run before).taken.length = i ∧ (start.run before).live = base := by
      obtain ⟨before, between, rfl, length, live⟩ := ih isEarly
      exact ⟨before, between ++ [e], by simp, length, live⟩
    cases e with
    | take =>
      rw [Session.step, List.getElem?_append] at taken
      split at taken
      · exact early taken
      · rename_i late
        have isLast : i - (start.run events).taken.length = 0 := by
          by_contra other
          rw [List.getElem?_eq_none (by simp; omega)] at taken
          cases taken
        rw [isLast] at taken
        exact ⟨events, [], rfl, by omega, Option.some.inj taken⟩
    | finish j o p =>
      refine early ?_
      rw [Session.step] at taken
      split at taken <;> exact taken

/-- Units that overlap share no constant: what is published after a base was taken, and before the
unit is published that uses this base, declares nothing that the unit declares. -/
def Apart (events : List Event) : Prop :=
  ∀ before between o p,
    before ++ .take :: between ++
      [.finish (start.run before).taken.length o p] <+: events →
      ((start.run (before ++ [.take])).constantsAlong between).Disjoint
        ((start.run (before ++ .take :: between)).constantsAt
          (.finish (start.run before).taken.length o p))

theorem constantsAlong_take (before between : List Event) :
    start.constantsAlong (before ++ .take :: between) =
      start.constantsAlong before ++ (start.run (before ++ [.take])).constantsAlong between := by
  rw [constantsAlong_append, run_append]
  rfl

theorem nodup_constantsAlong {events : List Event} (plain : ∀ e ∈ events, e.Plain)
    (apart : Apart events) : (start.constantsAlong events).Nodup := by
  induction events using List.reverseRecOn with
  | nil => exact nodup_nil
  | append_singleton events e ih =>
    have nodup := ih (fun other member => plain other (mem_append_left _ member))
      (fun before between o p earlier =>
        apart before between o p (earlier.trans (prefix_append _ _)))
    rw [constantsAlong_append]
    refine List.Nodup.append nodup ?_ ?_
    · rw [constantsAlong, constantsAlong, append_nil]
      exact nodup_constantsAt _ _
    · rw [constantsAlong, constantsAlong, append_nil]
      intro f earlier here
      obtain ⟨base, p, publishes, listed⟩ := mem_constantsAt.1 here
      cases publishes with
      | intro taken compiled =>
        -- Before the base was taken nothing can have been declared that the unit declares.
        obtain ⟨before, between, rfl, rfl, rfl⟩ := exists_take taken
        rw [constantsAlong_take] at earlier
        rcases mem_append.1 earlier with old | new
        · refine visible_constantsAlong lossless_start before (fun other member => ?_) old
            ((filed_collect _ _).constant f listed).1
          exact plain other (mem_append_left _ (mem_append_left _ member))
        · exact apart before between _ p prefix_rfl new here

theorem apart_of_nodup {events : List Event} (nodup : (start.constantsAlong events).Nodup) :
    Apart events := by
  rintro before between o p ⟨rest, rfl⟩
  rw [constantsAlong_append, constantsAlong_append, constantsAlong_take] at nodup
  have apart := (nodup_append'.1 (nodup_append'.1 nodup).1).2.2
  intro f between here
  refine apart (mem_append_right _ between) ?_
  rw [constantsAlong, constantsAlong, append_nil]
  exact here

/-- **Constants keep their meaning exactly as long as none is shadowed, and no two units declare the
same one exactly if no two units do that overlap**. Each unit lists a constant once, so what is
listed twice is declared by two units. -/
theorem constants_kept_iff (events : List Event) :
    ((∀ early late, early ++ late <+: events → ∀ f kind,
        (start.run early).live.constant? f = some kind →
        (start.run (early ++ late)).live.constant? f = some kind) ↔
      ∀ before event, before ++ [event] <+: events → ¬(start.run before).ShadowsAt event) ∧
    ((∀ e ∈ events, e.Plain) → ((start.constantsAlong events).Nodup ↔ Apart events)) := by
  refine ⟨⟨fun kept before event earlier shadows => ?_, ?_⟩,
    fun plain => ⟨apart_of_nodup, nodup_constantsAlong plain⟩⟩
  · obtain ⟨f, stands, changes⟩ := constant?_shadowed (lossless_start.run before).toGood shadows
    refine changes ?_
    have kept := kept before [event] earlier f _ stands
    rw [run_append] at kept
    exact kept
  · intro unshadowed early late earlier f kind stands
    rw [run_append]
    refine constant?_run (lossless_start.run early) late (fun before event within => ?_) stands
    rw [← run_append]
    refine unshadowed (early ++ before) event ?_
    rw [List.append_assoc]
    exact ((List.prefix_append_right_inj early).2 within).trans earlier

/-- A unit that declares one constant. -/
def constantUnit (name : String) : Program :=
  .ofStatements [.constant .zero name none (.literal .zero (.int 1))]

/-- Two units that overlap are apart if they declare different constants, and are not if they
declare the same one. -/
theorem apart_constantUnit :
    let events (name : String) :=
      [Event.take, .take, .finish 0 (.forFile "unit") (constantUnit "X"),
      .finish 1 (.forFile "unit") (constantUnit name)]
    (∀ e ∈ events "X" ++ events "Y", e.Plain) ∧
      start.constantsAlong (events "X") = ["Root::X", "Root::X"] ∧ ¬Apart (events "X") ∧
      start.constantsAlong (events "Y") = ["Root::X", "Root::Y"] ∧ Apart (events "Y") := by
  intro events
  have names : ∀ name ∈ (constantUnit "X").declaredConstants ++
    (constantUnit "Y").declaredConstants,
      ':' ∉ name.toList := by
    decide +kernel
  have plain : ∀ e ∈ events "X" ++ events "Y", e.Plain := by
    simpa [events, Event.Plain, or_imp, forall_and] using names
  refine ⟨plain, by decide +kernel, fun apart => ?_, by decide +kernel, ?_⟩
  · have nodup := ((constants_kept_iff (events "X")).2 fun e member =>
      plain e (mem_append_left _ member)).2 apart
    exact absurd nodup (by decide +kernel)
  · exact ((constants_kept_iff (events "Y")).2 fun e member =>
      plain e (mem_append_right _ member)).1 (by decide +kernel)

/-- **Both happen**: with two units that use the same base, one of which declares a constant. The
other declares a class or a constant of the same name. -/
theorem not_always_constants_kept :
    (¬∀ early late f kind, (start.run early).live.constant? f = some kind →
      (start.run (early ++ late)).live.constant? f = some kind) ∧
    ¬∀ events, (start.constantsAlong events).Nodup := by
  let o := Options.forFile "unit"
  constructor
  · intro kept
    have stays := kept [.take, .take, .finish 0 o (constantUnit "X")]
      [.finish 1 o (classUnit "X" none [])] "Root::X" .value (by decide +kernel)
    exact absurd stays (by decide +kernel)
  · intro nodup
    refine absurd (nodup [.take, .take, .finish 0 o (constantUnit "X"),
      .finish 1 o (constantUnit "X")]) ?_
    decide +kernel

end Session

end StackCode
