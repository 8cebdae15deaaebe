import StackCode.Proofs.Pools

/-!
# Running the definitions of namespaces

The function that creates the namespaces of a unit and links them does not jump. `Defining` is a
machine for such code. It knows the kind and the mixins of every namespace, and stops where
a namespace is missing, or is of another kind than the one it is reopened as. On the operations of a
unit it is enough to know in which order namespaces are created (`performAll_records`).
-/

namespace StackCode

open List Option

/-- The kind of a namespace, and what is mixed into it. -/
structure Shape where
  kind : NamespaceKind
  mixins : List String
deriving DecidableEq, Repr

/-- The shape of a registered namespace. -/
def Registry.shape? (r : Registry) (n : String) : Option Shape :=
  (r.get? n).map fun info => ⟨info.kind, info.mixins⟩

/-- What the stack of the machine holds. -/
inductive Operand where
  | «namespace» (fullName : String)
  | value (value : Value)

/-- Namespaces while their definitions run. -/
structure Defining where
  namespaces : String → Option Shape
  stack : List Operand
  /-- What was created or reopened, the latest first. -/
  defined : List String

namespace Defining

variable {d d' : Defining}

/-- The start from a registry. -/
def ofRegistry (r : Registry) : Defining := ⟨r.shape?, [], []⟩

/-- Push an operand. -/
def push (d : Defining) (operand : Operand) : Defining := { d with stack := operand :: d.stack }

/-- Change the shape of a namespace. -/
def put (d : Defining) (fullName : String) (shape : Shape) : Defining :=
  { d with namespaces := Function.update d.namespaces fullName (some shape) }

/-- Push a namespace, which has to be there. -/
def refer (d : Defining) (fullName : String) : Option Defining :=
  if (d.namespaces fullName).isSome then some (d.push (.namespace fullName)) else none

/-- Create or reopen a namespace. One of another kind cannot be reopened. -/
def create (d : Defining) (fullName : String) (kind : NamespaceKind) : Option Defining :=
  let defined : Defining := { d with defined := fullName :: d.defined }
  match d.namespaces fullName with
  | none => some (defined.put fullName ⟨kind, []⟩)
  | some shape => if shape.kind = kind then some defined else none

/-- Include a mixin. -/
def mixIn (d : Defining) (fullName mixin : String) : Option Defining :=
  (d.namespaces fullName).map fun shape =>
    d.put fullName { shape with
      mixins := if shape.mixins.contains mixin then shape.mixins else shape.mixins ++ [mixin] }

/-- Run an operation without operands. -/
def plain (d : Defining) : PlainOp → Option Defining
  | .pushNil => some (d.push (.value .nil))
  | .setSuperclass =>
    match d.stack with
    | .namespace _ :: .namespace _ :: rest => some { d with stack := rest }
    | _ => none
  | .includeMixin =>
    match d.stack with
    | .namespace mixin :: .namespace owner :: rest => { d with stack := rest }.mixIn owner mixin
    | _ => none
  | _ => none

/-- Define a namespace below the one on the stack. -/
def defNamespace (d : Defining) (kind : NamespaceKind) : Option Defining :=
  match d.stack with
  | .value (.symbol name) :: .namespace parent :: rest =>
    { d with stack := rest }.create (memberName parent name) kind
  | _ => none

/-- Run an instruction. -/
def step (constants : List Value) (d : Defining) : Instr → Option Defining
  | .indexed .prepLocals _ => some d
  | .indexed .getConst i =>
    match constants[i.toNat]? with
    | some (.symbol fullName) => d.refer fullName
    | _ => none
  | .indexed .loadValue i => (constants[i.toNat]?).map fun value => d.push (.value value)
  | .defNamespace kind => d.defNamespace kind
  | .plain op => d.plain op
  | _ => none

/-- Instructions up to the first that returns, which drops the stack. -/
def run (constants : List Value) (d : Defining) : List Instr → Option Defining
  | [] => none
  | .plain .ret :: _ => some { d with stack := [] }
  | i :: rest => (d.step constants i).bind fun d => d.run constants rest

/-! ## Operations -/

/-- Run an operation. -/
def perform (d : Defining) : Op → Option Defining
  | .constant (some fullName) => d.refer fullName
  | .value value => some (d.push (.value value))
  | .defNamespace kind => d.defNamespace kind
  | .plain op => d.plain op
  | _ => none

/-- Run some operations. -/
def performAll (d : Defining) (operations : List Op) : Option Defining :=
  operations.foldlM perform d

end Defining

/-- An operation that the machine can do. -/
def Op.Defines : Op → Prop
  | .constant fullName => fullName.isSome
  | .value _ => True
  | .defNamespace _ => True
  | .plain op => op ≠ .ret
  | _ => False

namespace Defining

variable {W : World}

theorem step_of_encoded {op : Op} {i : Instr} (encoded : Encoded W op i) (defines : op.Defines)
    (d : Defining) : d.step W.pool i = d.perform op := by
  cases encoded with
  | plain => rfl
  | defNamespace => rfl
  | value _ found => simp only [step, perform, found, map_some]
  | @constant _ fullName name i known found =>
    obtain ⟨n, rfl⟩ := isSome_iff_exists.1 defines
    cases known n rfl
    simp only [step, perform, found]
  | _ => exact defines.elim

theorem run_cons {i : Instr} (returns : i ≠ .plain .ret) (constants : List Value) (d : Defining)
    (rest : List Instr) :
    d.run constants (i :: rest) = (d.step constants i).bind fun d => d.run constants rest :=
  run.eq_3 constants d i rest returns

theorem run_of_encoded {operations : List Op} {instrs : List Instr}
    (defines : ∀ op ∈ operations, op.Defines)
    (each : Forall₂ (Encoded W) (operations ++ [.plain .pushNil, .plain .ret]) instrs)
    (d : Defining) :
    d.run W.pool instrs = (d.performAll operations).map fun d => { d with stack := [] } := by
  induction operations generalizing d instrs with
  | nil =>
    cases each with
    | cons first rest =>
      cases first
      cases rest with
      | cons second =>
        cases second
        rfl
  | cons op rest ih =>
    cases each with
    | @cons _ i _ instrs first others =>
      have known : op.Defines := defines op mem_cons_self
      have goesOn : i ≠ .plain .ret := by
        rintro rfl
        cases first
        exact known rfl
      rw [run_cons goesOn, step_of_encoded first known, performAll, foldlM_cons]
      cases d.perform op with
      | none => rfl
      | some d => exact ih (fun op member => defines op (mem_cons_of_mem _ member)) others d

theorem performAll_append (d : Defining) (a b : List Op) :
    d.performAll (a ++ b) = (d.performAll a).bind fun d => d.performAll b :=
  foldlM_append

/-! ## Changes of some namespaces -/

end Defining

section Updates

variable {γ : Type}

/-- Change what is known of some namespaces, one after the other. -/
def updateEach (name : γ → String) (change : γ → Option Shape → Option Shape)
    (shapes : String → Option Shape) (items : List γ) : String → Option Shape :=
  items.foldl (fun shapes item =>
    Function.update shapes (name item) (change item (shapes (name item)))) shapes

variable {name : γ → String} {change : γ → Option Shape → Option Shape} {items : List γ}

/-- If no namespace is changed twice, each one is changed from what was known of it before. -/
theorem updateEach_apply (distinct : (items.map name).Nodup) (shapes : String → Option Shape)
    (n : String) :
    updateEach name change shapes items n =
      match items.find? fun item => name item = n with
      | some item => change item (shapes n)
      | none => shapes n := by
  induction items generalizing shapes with
  | nil => rfl
  | cons item rest ih =>
    rw [map_cons, nodup_cons] at distinct
    rw [updateEach, foldl_cons, ← updateEach, ih distinct.2]
    by_cases same : name item = n
    · subst same
      have last : rest.find? (fun other => name other = name item) = none := by
        refine List.find?_eq_none.2 fun other member same => distinct.1 ?_
        exact List.mem_map.2 ⟨other, member, of_decide_eq_true same⟩
      rw [last, List.find?_cons_of_pos (by simp)]
      exact Function.update_self _ _ _
    · rw [List.find?_cons_of_neg (by simp [same]), Function.update_of_ne (Ne.symm same)]

end Updates

theorem OrderedMap.contains_eq {α : Type} (m : OrderedMap α) (k : String) :
    m.contains k = (m.get? k).isSome :=
  Std.ExtTreeMap.contains_eq_isSome_getElem?

section Filed

variable {α : Type} {m : OrderedMap α} {name : α → String}
  (filed : ∀ k v, m.get? k = some v → name v = k)

include filed

theorem OrderedMap.map_toValues : m.toValues.map name = m.keys.toList := by
  rw [toValues, map_filterMap]
  have each : ∀ k ∈ m.keys.toList, (m.get? k).map name = some k := by
    intro k member
    obtain ⟨v, found⟩ := isSome_iff_exists.1 ((m.mem_keys_iff k).1 member)
    rw [found, map_some, filed k v found]
  rw [filterMap_congr each, filterMap_some]

theorem OrderedMap.mem_toValues_iff {v : α} : v ∈ m.toValues ↔ m.get? (name v) = some v := by
  rw [toValues, mem_filterMap]
  constructor
  · rintro ⟨k, -, found⟩
    rwa [filed k v found]
  · intro found
    exact ⟨name v, (m.mem_keys_iff _).2 (by rw [found]; rfl), found⟩

theorem OrderedMap.find?_toValues (k : String) :
    m.toValues.find? (fun v => name v = k) = m.get? k := by
  cases found : m.get? k with
  | none =>
    refine List.find?_eq_none.2 fun v member same => ?_
    have there := (mem_toValues_iff filed).1 member
    rw [of_decide_eq_true same, found] at there
    cases there
  | some v =>
    have listed : v ∈ m.toValues := (mem_toValues_iff filed).2 (by rw [filed k v found, found])
    have isFound : (m.toValues.find? fun v => name v = k).isSome :=
      List.find?_isSome.2 ⟨v, listed, decide_eq_true (filed k v found)⟩
    obtain ⟨w, first⟩ := isSome_iff_exists.1 isFound
    have there := (mem_toValues_iff filed).1 (mem_of_find?_eq_some first)
    have same : name w = k := by simpa using List.find?_some first
    rw [first, ← there, same, found]

end Filed

/-! ## Creating namespaces -/

/-- Every namespace has a parent that is known, or that stands before it. -/
def ParentsFirst (known : String → Prop) : List NamespaceRecord → Prop
  | [] => True
  | record :: rest =>
    known record.parent ∧ ParentsFirst (fun n => n = record.fullName ∨ known n) rest

namespace Defining

variable {shape : Shape} {ns : DeclaredNamespace} {d' d : Defining}

/-- There is a namespace. -/
def Has (d : Defining) (n : String) : Prop := (d.namespaces n).isSome

/-- All namespaces of some records are there. -/
def createAll (d : Defining) (records : List NamespaceRecord) : Defining :=
  { d with
    namespaces := updateEach NamespaceRecord.fullName
      (fun record old => some (old.getD ⟨record.kind, []⟩)) d.namespaces records
    defined := (records.map NamespaceRecord.fullName).reverse ++ d.defined }

theorem create_eq {n : String} {kind : NamespaceKind}
    (same : ∀ shape, d.namespaces n = some shape → shape.kind = kind) :
    d.create n kind = some { d with
      namespaces := Function.update d.namespaces n (some ((d.namespaces n).getD ⟨kind, []⟩))
      defined := n :: d.defined } := by
  unfold create
  cases found : d.namespaces n with
  | none => rfl
  | some shape =>
    have kept : Function.update d.namespaces n (some shape) = d.namespaces := by
      rw [← found, Function.update_eq_self]
    rw [getD_some, kept]
    exact if_pos (same shape found)

theorem performAll_record {record : NamespaceRecord}
    (named : memberName record.parent record.name = record.fullName)
    (same : ∀ shape, d.namespaces record.fullName = some shape → shape.kind = record.kind) :
    d.performAll record.ops = some d' ↔ d.Has record.parent ∧ d' = d.createAll [record] := by
  have run : d.performAll record.ops = if (d.namespaces record.parent).isSome then
      d.create (memberName record.parent record.name) record.kind else none := by
    unfold performAll NamespaceRecord.ops
    simp only [foldlM_cons, foldlM_nil, perform, refer]
    split
    · exact bind_fun_some _
    · rfl
  rw [run, named, create_eq same]
  unfold Has
  split
  · rename_i there
    simp only [there, true_and, Option.some.injEq, createAll]
    exact eq_comm
  · rename_i missing
    simp [missing]

theorem createAll_cons (d : Defining) (record : NamespaceRecord) (rest : List NamespaceRecord) :
    d.createAll (record :: rest) = (d.createAll [record]).createAll rest := by
  simp [createAll, updateEach]

/-- **Namespaces are created in an order in which every parent is there before.** -/
theorem performAll_records {records : List NamespaceRecord}
    (named : ∀ record ∈ records, memberName record.parent record.name = record.fullName)
    (same : ∀ record ∈ records, ∀ shape, d.namespaces record.fullName = some shape →
      shape.kind = record.kind) (distinct : (records.map NamespaceRecord.fullName).Nodup) :
    d.performAll (records.flatMap NamespaceRecord.ops) = some d' ↔
      ParentsFirst d.Has records ∧ d' = d.createAll records := by
  induction records generalizing d with
  | nil => simp [performAll, ParentsFirst, createAll, updateEach, eq_comm]
  | cons record rest ih =>
    rw [map_cons, nodup_cons] at distinct
    have first (between : Defining) := @performAll_record between d record
      (named record mem_cons_self) (same record mem_cons_self)
    -- Nothing else than the new namespace has changed.
    have has : (d.createAll [record]).Has = fun n => n = record.fullName ∨ d.Has n := by
      funext n
      by_cases isNew : n = record.fullName
      · subst isNew
        simp [Has, createAll, updateEach]
      · simp [Has, createAll, updateEach, isNew]
    have others := ih (d := d.createAll [record])
      (fun other member => named other (mem_cons_of_mem _ member))
      (fun other member shape found => by
        refine same other (mem_cons_of_mem _ member) shape ?_
        have new : other.fullName ≠ record.fullName := fun same =>
          distinct.1 (List.mem_map.2 ⟨other, member, same⟩)
        simpa [createAll, updateEach, new] using found) distinct.2
    rw [flatMap_cons, performAll_append, bind_eq_some_iff, ParentsFirst, createAll_cons]
    constructor
    · rintro ⟨between, isBetween, isRest⟩
      obtain ⟨there, rfl⟩ := (first _).1 isBetween
      obtain ⟨ordered, rfl⟩ := others.1 isRest
      exact ⟨⟨there, has ▸ ordered⟩, rfl⟩
    · rintro ⟨⟨there, ordered⟩, rfl⟩
      exact ⟨_, (first _).2 ⟨there, rfl⟩, others.2 ⟨has.symm ▸ ordered, rfl⟩⟩

/-! ## Linking namespaces -/

/-- The mixins of some namespaces are mixed in. -/
def linkAll (d : Defining) (list : List DeclaredNamespace) : Defining :=
  { d with
    namespaces := updateEach DeclaredNamespace.fullName (fun ns old => old.map fun shape =>
      { shape with mixins := addMixins shape.mixins ns.mixins }) d.namespaces list }

/-- What a namespace is linked to is there, and so is the namespace. -/
structure CanLink (d : Defining) (ns : DeclaredNamespace) : Prop where
  self : d.Has ns.fullName
  superclass : ns.setsSuperclass = true → ∀ S, ns.superclass = some S → d.Has S
  mixins : ∀ M ∈ ns.mixins, d.Has M

theorem performAll_superclass (canLink : d.CanLink ns) :
    d.performAll ns.superclassOps = some d := by
  unfold DeclaredNamespace.superclassOps
  cases linked : ns.superclass with
  | none => rfl
  | some S =>
    dsimp only
    split
    · rename_i sets
      have self := canLink.self
      have above := canLink.superclass sets S linked
      unfold Has at self above
      simp [performAll, perform, refer, self, above, push, plain]
    · rfl

theorem performAll_mixin {M : String} (there : d.namespaces ns.fullName = some shape)
    (mixin : d.Has M) :
    d.performAll (ns.mixinOps M) = some { d with
      namespaces := Function.update d.namespaces ns.fullName
        (some { shape with mixins := addMixins shape.mixins [M] }) } := by
  unfold Has at mixin
  simp [performAll, DeclaredNamespace.mixinOps, perform, refer, there, mixin, push, plain, mixIn,
    put, addMixins]

theorem performAll_mixins (there : d.namespaces ns.fullName = some shape) {added : List String}
    (mixins : ∀ M ∈ added, d.Has M) :
    d.performAll (added.flatMap ns.mixinOps) = some { d with
      namespaces := Function.update d.namespaces ns.fullName
        (some { shape with mixins := addMixins shape.mixins added }) } := by
  induction added generalizing d shape with
  | nil =>
    show some d = some _
    rw [show addMixins shape.mixins [] = shape.mixins from rfl, ← there, Function.update_eq_self]
  | cons M rest ih =>
    rw [flatMap_cons, performAll_append, performAll_mixin there (mixins M mem_cons_self), bind_some]
    rw [ih (Function.update_self _ _ _)]
    · rw [Function.update_idem]
      rfl
    · intro other member
      have known := mixins other (mem_cons_of_mem _ member)
      unfold Has at known ⊢
      by_cases same : other = ns.fullName
      · subst same
        simp
      · simpa [same] using known

theorem linkAll_cons (d : Defining) (ns : DeclaredNamespace) (rest : List DeclaredNamespace) :
    d.linkAll (ns :: rest) = (d.linkAll [ns]).linkAll rest := rfl

theorem has_linkAll (d : Defining) (list : List DeclaredNamespace) :
    (d.linkAll list).Has = d.Has := by
  induction list generalizing d with
  | nil => rfl
  | cons ns rest ih =>
    rw [linkAll_cons, ih]
    funext n
    by_cases same : n = ns.fullName
    · subst same
      simp [Has, linkAll, updateEach]
    · simp [Has, linkAll, updateEach, same]

/-- **Namespaces are linked if all that they are linked to is there.** -/
theorem performAll_links {list : List DeclaredNamespace} (canLink : ∀ ns ∈ list, d.CanLink ns) :
    d.performAll (list.flatMap DeclaredNamespace.linkOps) = some (d.linkAll list) := by
  induction list generalizing d with
  | nil => rfl
  | cons ns rest ih =>
    have canFirst := canLink ns mem_cons_self
    obtain ⟨shape, there⟩ := isSome_iff_exists.1 canFirst.self
    have first : d.performAll ns.linkOps = some (d.linkAll [ns]) := by
      rw [DeclaredNamespace.linkOps, performAll_append, performAll_superclass canFirst,
        bind_some, performAll_mixins there canFirst.mixins]
      simp [linkAll, updateEach, there]
    rw [flatMap_cons, performAll_append, first, bind_some, linkAll_cons]
    refine ih fun other member => ?_
    have can := canLink other (mem_cons_of_mem _ member)
    have has := has_linkAll d [ns]
    exact ⟨has ▸ can.self, fun sets S linked => has ▸ can.superclass sets S linked,
      fun M mixin => has ▸ can.mixins M mixin⟩

end Defining

end StackCode
