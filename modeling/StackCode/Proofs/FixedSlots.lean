import StackCode.Proofs.Decoding
import StackCode.Proofs.PublishedTables

/-!
# Fixed slots stay right

A method reaches instance variables by slots that are fixed when it is compiled. The receiver may be
an instance of a class that a later unit declares, and the class of the method may be reopened
later. If units are compiled one after the other, the slots are right for all of them
(`slots_fixed`): the table that a unit compiles against is the one that it registers, tables are
only ever extended, and the table of a class extends that of its superclass.
-/

namespace StackCode

/-! ## Slots in code -/

/-- The slots that a function addresses are right for the variables that it uses, as a
relation between them has it. A function that does not reach instance variables by slots
addresses none. -/
def SlotsRight (right : String → Bool → IvarUse → Bool × Nat → Prop) (uses : List IvarUse)
    (slots : List (Bool × Nat)) : IvarAccess → Prop
  | .fixed fullName singleton => List.Forall₂ (right fullName singleton) uses slots
  | .byName _ => slots = []
  | .forbidden => slots = []

theorem SlotsRight.imp {right right' : String → Bool → IvarUse → Bool × Nat → Prop}
    {uses : List IvarUse} {slots : List (Bool × Nat)} {ivars : IvarAccess}
    (weaker : ∀ fullName singleton use slot, right fullName singleton use slot →
      right' fullName singleton use slot)
    (slotsRight : SlotsRight right uses slots ivars) : SlotsRight right' uses slots ivars := by
  cases ivars with
  | fixed fullName singleton => exact List.Forall₂.imp (weaker fullName singleton) slotsRight
  | byName => exact slotsRight
  | forbidden => exact slotsRight

/-- The slot in the unit's table is that of the variable. -/
def Addresses (unit : UnitInfo) (fullName : String) (singleton : Bool) (use : IvarUse)
    (slot : Bool × Nat) : Prop :=
  slot.1 = use.writes ∧ (unit.table? fullName singleton).bind (·.index? use.name) = some slot.2

/-- Whether an instance variable is written that is used by its slot, and the slot. -/
def slotUse? : Bool × IvarAddress → Option (Bool × Nat)
  | (writes, .slot index) => some (writes, index)
  | (_, .name _) => none

/-- The slots that instructions use. -/
def slotsOf (instrs : List Instr) : List (Bool × Nat) := (ivarsOf instrs).filterMap slotUse?

theorem slotsRight_of_reaches {unit : UnitInfo} {constants : List Value} {ivars : IvarAccess}
    {uses : List IvarUse} {instrs : List Instr}
    (reaches : List.Forall₂ (unit.Reaches constants ivars) uses (ivarsOf instrs)) :
    SlotsRight (Addresses unit) uses (slotsOf instrs) ivars := by
  unfold slotsOf
  generalize ivarsOf instrs = addresses at reaches
  induction reaches with
  | nil => cases ivars <;> first | exact .nil | rfl
  | @cons use address _ _ first _ ih =>
    obtain ⟨writes, slot | name⟩ := address <;> cases ivars
    case slot.fixed fullName singleton => exact .cons first ih
    case name.byName fullName => exact ih
    all_goals exact first.elim

/-- Whether an instruction that was found writes an instance variable, and its slot, if it has a
fixed one. -/
def Found.ivarSlot? (i : Found) : Option (Bool × Nat) :=
  match i.opcode with
  | .getIvar8 => some (false, i.firstByte)
  | .getIvar16 => some (false, i.firstWord)
  | .setIvar8 => some (true, i.firstByte)
  | .setIvar16 => some (true, i.firstWord)
  | _ => none

/-- The slots that a function uses. -/
def CompiledFunction.ivarSlots (f : CompiledFunction) : List (Bool × Nat) :=
  f.instructions.filterMap Found.ivarSlot?

theorem Found.ivarSlot?_eq (i : Found) : i.ivarSlot? = i.instr?.bind (·.ivar?.bind slotUse?) := by
  obtain ⟨offset, op, code⟩ := i
  cases op
  case getIvar8 | setIvar8 =>
    simp [ivarSlot?, instr?, Opcode.instr?, Instr.ivar?, slotUse?, firstByte, byteAt]
  case defNamespace =>
    show none = ((NamespaceKind.ofTag? _).map Instr.defNamespace).bind _
    cases NamespaceKind.ofTag? _ <;> rfl
  all_goals rfl

theorem filterMap_ivarSlot?_foundIn (offset : Nat) (instrs : List Instr) :
    (foundIn offset instrs).filterMap Found.ivarSlot? = slotsOf instrs := by
  induction instrs generalizing offset with
  | nil => rfl
  | cons i rest ih =>
    -- The captured variables of a closure are not read, whatever their indices are.
    have first : Found.ivarSlot? ⟨offset, i.opcode, bytesOf (i :: rest)⟩ =
        i.ivar?.bind slotUse? := by
      by_cases fits : i.Fits
      · rw [Found.ivarSlot?_eq, instr?_foundIn fits]
        rfl
      · cases i with
        | closure => rfl
        | _ => exact absurd trivial fits
    rw [foundIn, List.filterMap_cons, first, ih, slotsOf, slotsOf, ivarsOf, ivarsOf,
      List.filterMap_filterMap, List.filterMap_filterMap, List.filterMap_cons]

theorem Matches.ivarSlots {unit : UnitInfo} {source : Source} {f : CompiledFunction}
    (matched : Matches unit source f) :
    SlotsRight (Addresses unit) source.uses f.ivarSlots source.ivars := by
  obtain ⟨code, body, -, -, code_eq, -, -, reaches, -⟩ := matched
  have found : f.ivarSlots = slotsOf code.instrs := by
    rw [CompiledFunction.ivarSlots, CompiledFunction.instructions, code_eq, code.walkCode_bytes]
    exact filterMap_ivarSlot?_foundIn 0 code.instrs
  rw [found]
  exact slotsRight_of_reaches reaches

/-! ## A unit on its own base -/

namespace Publishable

variable {r : Registry} {declared : Declared} {layouts : Layouts}

theorem tableOf_self (pub : Publishable r r declared layouts) (n : String)
    (singleton : Bool) :
    (publishInto r r declared layouts).tableOf n singleton = seenTable r layouts n singleton := by
  rcases pub.tableOf_cases n singleton with ⟨seen, same⟩ | ⟨table, -, -, seen, now⟩
  · rw [same, seen]
  · rw [now, seen]

theorem not_reorders_self (pub : Publishable r r declared layouts) :
    ¬Reorders r r layouts := by
  rintro ⟨n, singleton, table, laidOut, changed, same, -⟩
  exact changed ((pub.sameNames_base_iff laidOut).1 same)

theorem not_splits_self (pub : Publishable r r declared layouts)
    (right : r.ExtendsSuperclasses) : ¬Splits r r declared layouts := by
  rintro ⟨D, S, singleton, new, newAbove, breaks⟩
  cases breaks with
  | staleSuperclass missing declares linked unchanged laidOut _ apart =>
    obtain ⟨table, laidOut', seen⟩ :=
      pub.fits.superclass_le declares missing linked singleton
    cases laidOut.symm.trans laidOut'
    rw [unchanged] at seen
    exact apart seen
  | unseenSubclass unseen _ registered => cases unseen.symm.trans registered
  | movedSubclass registered linked laidOut _ apart =>
    have extends_ :=
      Registry.extendsSuperclasses_iff.1 right D S ⟨new, newAbove, _, registered, linked⟩ singleton
    exact apart (extends_.trans (pub.fits.le_table laidOut))

end Publishable

/-! ## Units one after the other -/

namespace Registry

variable {r : Registry}

/-- The registry after some units, each compiled against what the ones before it have left. -/
def after (r : Registry) (units : List (Options × Program)) : Registry :=
  units.foldl (fun r unit => (compile unit.1 r unit.2).2) r

theorem after_cons (r : Registry) (unit : Options × Program) (rest : List (Options × Program)) :
    r.after (unit :: rest) = (compile unit.1 r unit.2).2.after rest :=
  List.foldl_cons

theorem after_append (r : Registry) (early late : List (Options × Program)) :
    r.after (early ++ late) = (r.after early).after late :=
  List.foldl_append

/-- What holds of a registry all the time, if units are compiled one after the other. -/
structure Steady (r : Registry) : Prop where
  sound : r.Sound
  right : r.ExtendsSuperclasses

theorem steady_prelude : prelude.Steady := ⟨sound_prelude, extendsSuperclasses_prelude⟩

theorem Steady.compile_cases (steady : r.Steady) (o : Options) (p : Program) :
    (compile o r p).1.function = none ∧ (compile o r p).2 = r ∨
      ¬Failed (compileUnit o r p).issues ∧
        Publishable r r (p.linked r).declared (p.laidOut r).layouts ∧
        (compile o r p).1.function = some (compileUnit o r p).function ∧
        (compile o r p).2 =
          publishInto r r (p.linked r).declared (p.laidOut r).layouts := by
  rw [StackCode.compile]
  rcases compileAgainst_cases o r r p with failed | ⟨clean, agreed, function, live⟩
  · exact .inl failed
  · have pub := Publishable.of_compileUnit clean agreed steady.sound steady.sound (.refl r)
    exact .inr ⟨clean, pub, function, live⟩

/-- **A unit keeps tables above those of superclasses, and extends all of them.** -/
theorem Steady.compile (steady : r.Steady) (o : Options) (p : Program) :
    (compile o r p).2.Steady ∧
      ∀ n singleton,
        r.tableOf n singleton ≤ (StackCode.compile o r p).2.tableOf n singleton := by
  rcases steady.compile_cases o p with ⟨-, same⟩ | ⟨-, pub, -, live⟩
  · rw [same]
    exact ⟨steady, fun _ _ => le_refl _⟩
  · rw [live]
    exact ⟨⟨pub.sound_publishInto,
        pub.extends_publishInto steady.right (pub.not_splits_self steady.right)⟩,
      pub.le_publishInto (fun _ _ => le_refl _) pub.not_reorders_self⟩

theorem Steady.after (steady : r.Steady) (units : List (Options × Program)) :
    (r.after units).Steady ∧
      ∀ n singleton, r.tableOf n singleton ≤ (r.after units).tableOf n singleton := by
  induction units generalizing r with
  | nil => exact ⟨steady, fun _ _ => le_refl _⟩
  | cons unit rest ih =>
    obtain ⟨next, grows⟩ := steady.compile unit.1 unit.2
    obtain ⟨last, growsOn⟩ := ih next
    rw [after_cons]
    exact ⟨last, fun n singleton => (grows n singleton).trans (growsOn n singleton)⟩

/-- A class is another or is below it, and none on the way was there from the start. -/
inductive Descends (r : Registry) : String → String → Prop where
  | refl {C : String} {info : NamespaceInfo} (new : prelude.get? C = none)
      (registered : r.get? C = some info) : Descends r C C
  | step {D S C : String} (links : r.Links D S) (above : Descends r S C) : Descends r D C

theorem Descends.le {D C : String} (descends : r.Descends D C) (right : r.ExtendsSuperclasses)
    (singleton : Bool) : r.tableOf C singleton ≤ r.tableOf D singleton := by
  induction descends with
  | refl => exact le_refl _
  | step links _ ih => exact ih.trans (extendsSuperclasses_iff.1 right _ _ links singleton)

/-- A slot is that of the variable in a class and in all below it. -/
def Fixes (r : Registry) (C : String) (singleton : Bool) (use : IvarUse) (slot : Bool × Nat) :
    Prop :=
  slot.1 = use.writes ∧ ∀ D, r.Descends D C → (r.tableOf D singleton).index? use.name = some slot.2

end Registry

theorem Addresses.index?_seenTable {p : Program} {o : Options}
    {r : Registry} {C : String} {singleton : Bool} {use : IvarUse} {slot : Bool × Nat}
    (addressed : Addresses (p.unitInfo o r) C singleton use slot) :
    (seenTable r (p.laidOut r).layouts C singleton).index? use.name = some slot.2 := by
  obtain ⟨table, known, found⟩ := Option.bind_eq_some_iff.1 addressed.2
  have isSeen : seenTable r (p.laidOut r).layouts C singleton = table := by
    rcases (Option.orElse_eq_some _ _ _).1 known with laidOut | ⟨undeclared, registered⟩
    · have laidOut : (p.laidOut r).layouts.table? C singleton = some table := laidOut
      rw [seenTable, laidOut]
      rfl
    · have undeclared : (p.laidOut r).layouts.table? C singleton = none := undeclared
      have registered : (r.get? C).map (·.table singleton) = some table := registered
      rw [seenTable, undeclared, Registry.tableOf, registered]
      rfl
  rw [isSeen]
  exact found

theorem Registry.Steady.fixes {r : Registry} (steady : r.Steady) {o : Options}
    {p : Program}
    (pub : Publishable r r (p.linked r).declared (p.laidOut r).layouts)
    (live : (StackCode.compile o r p).2 =
      publishInto r r (p.linked r).declared (p.laidOut r).layouts)
    (units : List (Options × Program)) {C : String} {singleton : Bool} {use : IvarUse}
    {slot : Bool × Nat} (addressed : Addresses (p.unitInfo o r) C singleton use slot) :
    ((StackCode.compile o r p).2.after units).Fixes C singleton use slot := by
  obtain ⟨last, grows⟩ := (steady.compile o p).1.after units
  refine ⟨addressed.1, fun D descends => ?_⟩
  have registered :
      ((StackCode.compile o r p).2.tableOf C singleton).index? use.name =
        some slot.2 := by
    rw [live, pub.tableOf_self]
    exact addressed.index?_seenTable
  -- Later units extend the table of the class, and those below extend it too.
  have kept := (grows C singleton).trans (descends.le last.right singleton)
  exact NameTable.index?_of_le kept registered

/-- **Fixed slots stay right.** Units are compiled one after the other. Each slot in the code of
one of them belongs to a use of an instance variable in its text; and in the end it is the slot
of that variable in the class of the method, and in all classes below it. -/
theorem slots_fixed (before after : List (Options × Program)) (o : Options)
    (p : Program) {f : CompiledFunction}
    (compiled : (compile o (Registry.prelude.after before) p).1.function = some f) :
    let unit := p.unitInfo o (Registry.prelude.after before)
    let final := Registry.prelude.after (before ++ (o, p) :: after)
    ∃ hoisted, hoisted.Sublist (p.hoistedSources unit) ∧
      List.Forall₂
        (fun source g => g.name = source.name ∧ g.location = ⟨o.file, source.span⟩ ∧
          SlotsRight final.Fixes source.uses g.ivarSlots source.ivars)
        (p.source unit hoisted).walk f.walk := by
  intro unit final
  have steady := (Registry.steady_prelude.after before).1
  have final_eq : final =
      (compile o (Registry.prelude.after before) p).2.after after := by
    rw [← Registry.after_cons _ (o, p), ← Registry.after_append]
  rcases steady.compile_cases o p with ⟨none, -⟩ | ⟨clean, pub, function, live⟩
  · rw [none] at compiled
    cases compiled
  rw [function] at compiled
  cases compiled
  obtain ⟨hoisted, inOrder, matched⟩ := compileUnit_matches clean
  refine ⟨hoisted, inOrder, matched.walk.imp fun source g nested => ?_⟩
  refine ⟨nested.name_eq, nested.location_eq, ?_⟩
  rw [final_eq]
  exact nested.ivarSlots.imp fun C singleton use slot => steady.fixes pub live after

/-- A class with a method whose closure copies one instance variable to another. -/
def copyUnit (name : String) (superclass : Option String) (source target : String) : Program :=
  let copy := Expr.assign .zero (.ivar target) none (.ivar .zero source)
  .ofStatements [.namespace .zero .class ⟨[name], false⟩
    (superclass.map fun above => ⟨[above], false⟩) [
    .ivar .zero target none,
    .method .zero "copy" [] [.expression .zero (.closure .zero [] [.expression .zero copy])]]]

/-- A class is declared between one that was there before and one that comes later. -/
theorem slots_fixed_between :
    let o := Options.forFile "copy"
    let above := (o, copyUnit "Base" none "a" "a")
    let p := copyUnit "Derived" (some "Base") "a" "b"
    let below := (o, copyUnit "Last" (some "Derived") "b" "c")
    let unit := p.unitInfo o (Registry.prelude.after [above])
    let final := Registry.prelude.after [above, (o, p), below]
    ∃ f, (compile o (Registry.prelude.after [above]) p).1.function = some f ∧
      f.walk.map CompiledFunction.ivarSlots = [[], [], [], [], [], [(false, 0), (true, 1)]] ∧
      final.Descends "Root::Last" "Root::Derived" ∧
      ∃ hoisted, hoisted.Sublist (p.hoistedSources unit) ∧
        List.Forall₂
          (fun source g => g.name = source.name ∧ g.location = ⟨o.file, source.span⟩ ∧
            SlotsRight final.Fixes source.uses g.ivarSlots source.ivars)
          (p.source unit hoisted).walk f.walk := by
  intro o above p below unit final
  have slots : (compile o (Registry.prelude.after [above]) p).1.function.map
      (·.walk.map CompiledFunction.ivarSlots) =
        some [[], [], [], [], [], [(false, 0), (true, 1)]] := by
    decide +kernel
  obtain ⟨f, compiled, slots⟩ := Option.map_eq_some_iff.1 slots
  have linked : (final.get? "Root::Last").bind NamespaceInfo.superclass =
      some "Root::Derived" := by
    decide +kernel
  have links : final.Links "Root::Last" "Root::Derived" :=
    ⟨by decide +kernel, by decide +kernel, Option.bind_eq_some_iff.1 linked⟩
  have known : (final.get? "Root::Derived").isSome = true := by decide +kernel
  obtain ⟨info, registered⟩ := Option.isSome_iff_exists.1 known
  exact ⟨f, compiled, slots, .step links (.refl (by decide +kernel) registered),
    slots_fixed [above] [below] o p compiled⟩

end StackCode
