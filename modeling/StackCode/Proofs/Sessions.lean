import StackCode.Proofs.PublishedTables

/-!
# Sessions

Units share a registry. Each takes the live registry as its base at some time, and is compiled
against it and published at another. A session is any order of these events.

* Slots stay where they are unless a unit registers names that another unit has registered in
  another order (`slots_kept_iff`).
* Tables extend those of superclasses unless a unit breaks a link that it does not know all about
  (`extendsSuperclasses_run_iff`).
-/

namespace StackCode

/-- What happens in a session. -/
inductive Event where
  | take
  /-- A unit is compiled against a base, and published. -/
  | finish (base : Nat) (o : Options) (p : Program)

/-- The live registry, and the bases that were taken, the earliest first. -/
structure Session where
  live : Registry
  taken : List Registry

namespace Session

/-- A session at its start. -/
def start : Session := ⟨.prelude, []⟩

/-- What an event does. -/
def step (s : Session) : Event → Session
  | .take => { s with taken := s.taken ++ [s.live] }
  | .finish base o p =>
    match s.taken[base]? with
    | none => s
    | some base => { s with live := (compileAgainst o base s.live p).2 }

/-- What some events do. -/
def run (s : Session) (events : List Event) : Session := events.foldl step s

/-- An event publishes a unit that was compiled against a base. -/
inductive Publishes (s : Session) : Event → Registry → Program → Prop where
  | intro {i : Nat} {o : Options} {p : Program} {base : Registry} {f : CompiledFunction}
      (taken : s.taken[i]? = some base)
      (compiled : (compileAgainst o base s.live p).1.function = some f) :
      Publishes s (.finish i o p) base p

/-! ## What one event does -/

/-- The registry with a unit that was compiled against a base. -/
def published (s : Session) (base : Registry) (p : Program) : Registry :=
  publishInto base s.live (p.linked base).declared (p.laidOut base).layouts

/-- What holds of a session all the time. -/
structure Good (s : Session) : Prop where
  live : s.live.Sound
  taken : ∀ base ∈ s.taken, base.Sound ∧ base.Keeps s.live

variable {s : Session} {e : Event} {base : Registry} {p : Program}

theorem Publishes.mem_taken (publishes : s.Publishes e base p) : base ∈ s.taken := by
  cases publishes with
  | intro taken => exact List.mem_of_getElem? taken

theorem Publishes.step_eq (publishes : s.Publishes e base p) :
    s.step e = { s with live := s.published base p } := by
  cases publishes with
  | @intro i o _ _ f taken compiled =>
    rw [step, taken]
    exact congrArg (fun live => { s with live := live }) (compileAgainst_published compiled).1.live

theorem Publishes.publishable (publishes : s.Publishes e base p) (good : s.Good) :
    Publishable base s.live (p.linked base).declared (p.laidOut base).layouts := by
  obtain ⟨sound, keeps⟩ := good.taken base publishes.mem_taken
  cases publishes with
  | @intro i o _ _ f taken compiled =>
    obtain ⟨⟨clean, agreed, -, -⟩, -⟩ := compileAgainst_published compiled
    exact .of_compileUnit clean agreed sound good.live keeps

/-- **An event publishes a unit, or leaves the live registry as it is.** -/
theorem step_cases (s : Session) (e : Event) :
    (∃ base p, s.Publishes e base p) ∨
      (s.step e).live = s.live ∧ ∀ base ∈ (s.step e).taken, base ∈ s.taken ∨ base = s.live := by
  cases e with
  | take =>
    refine .inr ⟨rfl, fun base member => ?_⟩
    simpa [step] using member
  | finish i o p =>
    cases taken : s.taken[i]? with
    | none =>
      have same : s.step (.finish i o p) = s := by rw [step, taken]
      rw [same]
      exact .inr ⟨rfl, fun _ => .inl⟩
    | some base =>
      have next : s.step (.finish i o p) =
        { s with live := (compileAgainst o base s.live p).2 } := by rw [step, taken]
      cases compiled : (compileAgainst o base s.live p).1.function with
      | some f => exact .inl ⟨base, p, .intro taken compiled⟩
      | none =>
        rcases compileAgainst_cases o base s.live p with ⟨-, live⟩ | ⟨-, -, some, -⟩
        · rw [next, live]
          exact .inr ⟨rfl, fun _ => .inl⟩
        · rw [compiled] at some
          cases some

theorem Good.step (good : s.Good) (e : Event) : (s.step e).Good := by
  rcases s.step_cases e with ⟨base, p, publishes⟩ | ⟨live, taken⟩
  · have publishable := publishes.publishable good
    rw [publishes.step_eq]
    refine ⟨publishable.sound_publishInto, fun other member => ?_⟩
    obtain ⟨sound, keeps⟩ := good.taken other member
    exact ⟨sound, keeps.trans publishable.keeps_publishInto⟩
  · refine ⟨live ▸ good.live, fun base member => ?_⟩
    rw [live]
    rcases taken base member with early | rfl
    · exact good.taken base early
    · exact ⟨good.live, .refl _⟩

theorem Good.run (good : s.Good) (events : List Event) : (s.run events).Good := by
  induction events generalizing s with
  | nil => exact good
  | cons e rest ih => exact ih (good.step e)

theorem good_start : start.Good := ⟨Registry.sound_prelude, nofun⟩

theorem run_append (s : Session) (early late : List Event) :
    s.run (early ++ late) = (s.run early).run late :=
  List.foldl_append

/-- A unit that declares a class with some instance variables. -/
def classUnit (name : String) (superclass : Option String) (ivars : List String) : Program :=
  .ofStatements [.namespace .zero .class ⟨[name], false⟩
    (superclass.map fun above => ⟨[above], false⟩) (ivars.map fun x => .ivar .zero x none)]

/-! ## Slots -/

/-- An event registers names that are registered already, but in another order. -/
def ReordersAt (s : Session) (e : Event) : Prop :=
  ∃ base p, s.Publishes e base p ∧ Reorders base s.live (p.laidOut base).layouts

/-- No slot has moved since a base was taken. -/
def Ordered (s : Session) : Prop :=
  ∀ base ∈ s.taken, ∀ n singleton, base.tableOf n singleton ≤ s.live.tableOf n singleton

theorem le_step (good : s.Good) (ordered : s.Ordered) (keepsOrder : ¬s.ReordersAt e) (n : String)
    (singleton : Bool) :
    s.live.tableOf n singleton ≤ (s.step e).live.tableOf n singleton := by
  rcases s.step_cases e with ⟨base, p, publishes⟩ | ⟨live, -⟩
  · rw [publishes.step_eq]
    exact (publishes.publishable good).le_publishInto (ordered base publishes.mem_taken)
      (fun reorders => keepsOrder ⟨base, p, publishes, reorders⟩) n singleton
  · rw [live]

theorem Ordered.step (ordered : s.Ordered) (good : s.Good) (keepsOrder : ¬s.ReordersAt e) :
    (s.step e).Ordered := by
  intro base member n singleton
  have grows := le_step good ordered keepsOrder n singleton
  rcases s.step_cases e with ⟨other, p, publishes⟩ | ⟨-, taken⟩
  · have early : base ∈ s.taken := by
      rw [publishes.step_eq] at member
      exact member
    exact (ordered base early n singleton).trans grows
  · rcases taken base member with early | rfl
    · exact (ordered base early n singleton).trans grows
    · exact grows

theorem le_run (good : s.Good) (ordered : s.Ordered) (events : List Event)
    (keepsOrder : ∀ before event, before ++ [event] <+: events → ¬(s.run before).ReordersAt event) :
    (s.run events).Ordered ∧
      ∀ n singleton, s.live.tableOf n singleton ≤ (s.run events).live.tableOf n singleton := by
  induction events generalizing s with
  | nil => exact ⟨ordered, fun _ _ => le_refl _⟩
  | cons e rest ih =>
    have first : ¬s.ReordersAt e := keepsOrder [] e ⟨rest, rfl⟩
    obtain ⟨orderedAfter, later⟩ :=
      ih (good.step e) (ordered.step good first) fun before event earlier =>
        keepsOrder (e :: before) event (List.cons_prefix_cons.2 ⟨rfl, earlier⟩)
    refine ⟨orderedAfter, fun n singleton => ?_⟩
    exact (le_step good ordered first n singleton).trans (later n singleton)

theorem not_le_step (good : s.Good) (reorders : s.ReordersAt e) :
    ∃ n singleton, ¬s.live.tableOf n singleton ≤ (s.step e).live.tableOf n singleton := by
  obtain ⟨base, p, publishes, reorders⟩ := reorders
  rw [publishes.step_eq]
  exact (publishes.publishable good).not_le_publishInto reorders

/-- **Published slots stay where they are exactly as long as no unit registers names in another
order.** -/
theorem slots_kept_iff (events : List Event) :
    (∀ early late, early ++ late <+: events → ∀ n singleton x slot,
        ((start.run early).live.tableOf n singleton).index? x = some slot →
        ((start.run (early ++ late)).live.tableOf n singleton).index? x = some slot) ↔
      ∀ before event, before ++ [event] <+: events → ¬(start.run before).ReordersAt event := by
  constructor
  · intro kept before event earlier reorders
    obtain ⟨n, singleton, moved⟩ := not_le_step (good_start.run before) reorders
    refine moved (NameTable.le_iff_index?.2 fun x slot found => ?_)
    have later := kept before [event] earlier n singleton x slot found
    rwa [run_append] at later
  · intro keepsOrder early late earlier n singleton x slot found
    have orderedStart : start.Ordered := nofun
    obtain ⟨orderedEarly, -⟩ := le_run good_start orderedStart early fun before event inside =>
      keepsOrder before event (inside.trans ((List.prefix_append early late).trans earlier))
    -- The second half runs on from where the first one ends, with its bases ordered.
    obtain ⟨-, grows⟩ :=
      le_run (good_start.run early) orderedEarly late fun before event inside => by
      rw [← run_append]
      refine keepsOrder (early ++ before) event (List.IsPrefix.trans ?_ earlier)
      rw [List.append_assoc]
      exact (List.prefix_append_right_inj early).2 inside
    rw [run_append]
    exact NameTable.index?_of_le (grows n singleton) found

/-- Slots do move: two units declare the same instance variables of a new class, in different
orders. -/
theorem not_always_slots_kept :
    ¬∀ early late n singleton x slot,
      ((start.run early).live.tableOf n singleton).index? x = some slot →
      ((start.run (early ++ late)).live.tableOf n singleton).index? x = some slot := by
  intro kept
  let o := Options.forFile "foo"
  have moved := kept [.take, .take, .finish 0 o (classUnit "Foo" none ["a", "b"])]
    [.finish 1 o (classUnit "Foo" none ["b", "a"])] "Root::Foo" false "a" 0
  exact absurd moved (by decide +kernel)

/-! ## Links -/

/-- An event breaks a link. -/
def SplitsAt (s : Session) (e : Event) : Prop :=
  ∃ base p, s.Publishes e base p ∧
    Splits base s.live (p.linked base).declared (p.laidOut base).layouts

theorem extends_step (good : s.Good) (before : s.live.ExtendsSuperclasses) (whole : ¬s.SplitsAt e) :
    (s.step e).live.ExtendsSuperclasses := by
  rcases s.step_cases e with ⟨base, p, publishes⟩ | ⟨live, -⟩
  · rw [publishes.step_eq]
    exact (publishes.publishable good).extends_publishInto before fun splits =>
      whole ⟨base, p, publishes, splits⟩
  · rw [live]
    exact before

theorem not_extends_step (good : s.Good) (splits : s.SplitsAt e) :
    ¬(s.step e).live.ExtendsSuperclasses := by
  obtain ⟨base, p, publishes, splits⟩ := splits
  rw [publishes.step_eq]
  exact (publishes.publishable good).not_extends_publishInto splits

theorem extends_run (good : s.Good) (before : s.live.ExtendsSuperclasses) (events : List Event)
    (whole : ∀ before event, before ++ [event] <+: events → ¬(s.run before).SplitsAt event) :
    (s.run events).live.ExtendsSuperclasses := by
  induction events generalizing s with
  | nil => exact before
  | cons e rest ih =>
    refine ih (good.step e) (extends_step good before (whole [] e ⟨rest, rfl⟩))
      fun earlier event inside => ?_
    exact whole (e :: earlier) event (List.cons_prefix_cons.2 ⟨rfl, inside⟩)

/-- **Tables extend those of superclasses exactly as long as no unit breaks a link.** -/
theorem extendsSuperclasses_run_iff (events : List Event) :
    (∀ early, early <+: events → (start.run early).live.ExtendsSuperclasses) ↔
      ∀ before event, before ++ [event] <+: events → ¬(start.run before).SplitsAt event := by
  constructor
  · intro right before event earlier splits
    have after := right (before ++ [event]) earlier
    rw [run_append] at after
    exact not_extends_step (good_start.run before) splits after
  · intro whole early inside
    exact extends_run good_start Registry.extendsSuperclasses_prelude early
      fun before event earlier => whole before event (earlier.trans inside)

/-- Tables do not always extend those of superclasses: one unit declares a class below another,
while a second unit, which does not know, adds an instance variable above it. -/
theorem not_always_extendsSuperclasses :
    ¬∀ events, (start.run events).live.ExtendsSuperclasses := by
  intro right
  let o := Options.forFile "base"
  let events : List Event := [
    .take, .finish 0 o (classUnit "Base" none ["a"]), .take, .take,
    .finish 1 o (classUnit "Derived" (some "Base") ["d"]),
    .finish 2 o (classUnit "Base" none ["b"])]
  have linked : ((start.run events).live.get? "Root::Derived").bind NamespaceInfo.superclass =
      some "Root::Base" := by
    decide +kernel
  have links : (start.run events).live.Links "Root::Derived" "Root::Base" :=
    ⟨by decide +kernel, by decide +kernel, Option.bind_eq_some_iff.1 linked⟩
  exact absurd (right events _ _ links false "b" 1) (by decide +kernel)

end Session

end StackCode
