import StackCode.Namespace.Layout

/-!
# Publication

What a unit declared is added to the registry when the unit has been compiled. Other units may have
been added since the unit took its own registry, the base.

## Design Notes

A namespace that is as it was in the base needs no check. Layouts that the unit left as they were in
the base are not written, so that what another unit added to them stays.
-/

namespace StackCode

/-- Whether a unit changed a table while another unit changed it differently. -/
def tableClashes (ours : Option NameTable) (before now : NameTable) : Bool :=
  match ours with
  | none => false
  | some ours => !ours.sameNames before && !ours.sameNames now && !before.sameNames now

/-- What another unit changed in a namespace so that the unit does not fit any more. -/
def namespaceConflict? (base current : Registry) (layouts : Layouts) (ns : DeclaredNamespace) :
    Option Issue :=
  match current.get? ns.fullName with
  | none => none
  | some now =>
    let before := base.get? ns.fullName
    if before.any (·.same now) then none
    else if now.kind ≠ ns.kind then
      some (.failure (.kindMismatch ns.fullName ns.kind now.kind) ns.span)
    else
      let layoutConflict (_ : Unit) : Option Issue :=
        let clashes (singleton : Bool) : Bool :=
          tableClashes (layouts.table? ns.fullName singleton) (base.tableOf ns.fullName singleton)
            (now.table singleton)
        if clashes false || clashes true then
          some (.failure (.concurrentLayoutChange ns.fullName) ns.span)
        else none
      match ns.superclass, now.superclass with
      | some ours, some theirs =>
        if ours = theirs then layoutConflict ()
        else
          some (.failure (.superclassMismatch ns.fullName theirs ours)
            (ns.superclassSpan.getD ns.span))
      | _, _ => layoutConflict ()

/-- What other units changed so that the unit does not fit any more. -/
def publishConflicts (base current : Registry) (declared : Declared) (layouts : Layouts) :
    List Issue :=
  declared.namespaces.toValues.filterMap (namespaceConflict? base current layouts)

/-- The table to register: the unit's own if the unit changed it. -/
def publishedTable (ours : Option NameTable) (before now : NameTable) : NameTable :=
  match ours with
  | none => now
  | some ours => if ours.sameNames before then now else ours

def addMixins (mixins added : List String) : List String :=
  added.foldl (fun mixins mixin => if mixins.contains mixin then mixins else mixins ++
    [mixin]) mixins

def publishNamespace (base : Registry) (layouts : Layouts) (current : Registry)
    (ns : DeclaredNamespace) : Registry :=
  let info := (current.get? ns.fullName).getD (.bare ns.kind none)
  current.insert ns.fullName { info with
    kind := ns.kind
    superclass := ns.superclass
    mixins := addMixins info.mixins ns.mixins
    ivars := publishedTable (layouts.table? ns.fullName false) (base.tableOf ns.fullName false)
      info.ivars
    singletonIvars := publishedTable (layouts.table? ns.fullName true)
      (base.tableOf ns.fullName true) info.singletonIvars }

/-- The registry with the declarations of a unit. -/
def publishInto (base current : Registry) (declared : Declared) (layouts : Layouts) : Registry :=
  let withNamespaces := declared.namespaces.toValues.foldl (publishNamespace base layouts) current
  declared.members.toList.foldl (fun r (fullName, names) => r.addMembers fullName names)
    withNamespaces

end StackCode
