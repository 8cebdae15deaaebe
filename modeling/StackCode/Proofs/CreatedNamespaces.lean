import StackCode.Proofs.LinkedNamespaces
import StackCode.Proofs.NamespaceDefinitions
import StackCode.Proofs.TidyPrograms

/-!
# The namespaces that a unit creates

A unit creates the namespaces that its text opens, and links and publishes the ones that it has
declared. If all of these are opened, and each one after its parent, then nothing is missing when
the definitions run, and they end with exactly what is published (`performAll_namespaceOps_iff`).
The names in paths must not have a colon in them, since a name is cut from a full name.
-/

namespace StackCode

open Defining List Option OrderedMap Program

/-! ## Names -/

theorem cutReversed_append {member owner : List Char} (plain : ':' ∉ member) (seen : List Char) :
    cutReversed (member ++ ':' :: ':' :: owner) seen = some (member.reverse ++ seen, owner) := by
  induction member generalizing seen with
  | nil => rfl
  | cons c rest ih =>
    have isPlain : c ≠ ':' := fun same => plain (same ▸ mem_cons_self)
    have plainRest : ':' ∉ rest := fun member => plain (mem_cons_of_mem c member)
    rw [cons_append, cutReversed.eq_3, ih plainRest]
    · simp
    · simp [isPlain]

theorem splitMember?_memberName (parent : String) {name : String} (plain : ':' ∉ name.toList) :
    splitMember? (memberName parent name) = some (parent, name) := by
  have text : (memberName parent name).toList.reverse =
      name.toList.reverse ++ ':' :: ':' :: parent.toList.reverse := by
    simp [memberName, separator]
  rw [splitMember?, text, cutReversed_append (by simpa using plain)]
  simp

theorem Except.eq_ok_of_toOption {ε α : Type} {result : Except ε α} {a : α}
    (found : result.toOption = some a) : result = .ok a := by
  cases result with
  | error => cases found
  | ok b => exact congrArg _ (Option.some.inj found)

/-- A declaration puts its namespace right under the parent, which is the root, the namespace
around it, or one that is seen. -/
theorem declarationTarget_ok {nesting : List String} {lookup : Lookup} {path : Path}
    {parent fullName : String}
    (target : declarationTarget nesting lookup path = .ok (parent, fullName)) :
    (∃ last, path.segments.getLast? = some last ∧ fullName = memberName parent last) ∧
      (parent = rootName ∨ parent ∈ nesting ∨ ∃ kind, lookup parent = some (.namespace kind)) := by
  unfold declarationTarget at target
  cases isLast : path.segments.getLast? with
  | none =>
    rw [isLast] at target
    cases target
  | some last =>
    rw [isLast] at target
    dsimp only at target
    cases parents : path.segments.dropLast with
    | nil =>
      rw [parents] at target
      cases target
      refine ⟨⟨last, rfl, rfl⟩, ?_⟩
      split
      · exact .inl rfl
      · cases nesting with
        | nil => exact .inl rfl
        | cons n rest => exact .inr (.inl mem_cons_self)
    | cons head rest =>
      rw [parents] at target
      dsimp only at target
      cases resolved : resolveNamespace .empty nesting lookup ⟨head :: rest, path.absolute⟩ with
      | error failure =>
        rw [resolved] at target
        cases target
      | ok found =>
        rw [resolved] at target
        cases target
        exact ⟨⟨last, rfl, rfl⟩, .inr (.inr ⟨found.2, resolveNamespace_seen resolved⟩)⟩

/-! ## What a text opens -/

mutual

/-- The paths that declarations of namespaces are written with. -/
def Stmt.declaredPaths : Stmt → List Path
  | .namespace _ _ path _ body => path :: Stmt.allDeclaredPaths body
  | .expression _ _ => []
  | .ret _ _ => []
  | .loop _ _ _ => []
  | .variable _ _ _ _ _ => []
  | .patternVariable _ _ _ _ => []
  | .constant _ _ _ _ => []
  | .singleton _ _ => []
  | .method _ _ _ _ => []
  | .signature _ _ _ => []
  | .attribute _ _ _ => []
  | .aliases _ _ => []
  | .ivar _ _ _ => []
  | .include _ _ => []
  | .using _ _ => []

/-- Those of some statements. -/
def Stmt.allDeclaredPaths : List Stmt → List Path
  | [] => []
  | stmt :: rest => stmt.declaredPaths ++ Stmt.allDeclaredPaths rest

end

/-- The paths of the namespaces that a unit declares. -/
def Program.declaredPaths (p : Program) : List Path :=
  Stmt.allDeclaredPaths p.statements

/-- A declaration with one of some paths opens a namespace of the unit. -/
structure NamespaceRecord.OpenedBy (unit : UnitInfo) (paths : List Path)
    (record : NamespaceRecord) : Prop where
  declared : ∃ ns, unit.declared.get? record.fullName = some ns ∧ ns.kind = record.kind ∧
    ns.name = record.name
  placed : ∃ path ∈ paths, ∃ last, path.segments.getLast? = some last ∧
    record.fullName = memberName record.parent last

theorem NamespaceRecord.OpenedBy.mono {unit : UnitInfo} {paths paths' : List Path}
    {record : NamespaceRecord} (opened : record.OpenedBy unit paths) (more : paths ⊆ paths') :
    record.OpenedBy unit paths' := by
  obtain ⟨path, member, placed⟩ := opened.placed
  exact ⟨opened.declared, path, more member, placed⟩

mutual

theorem Stmt.openedBy_of_mem (stmt : Stmt) (site : Site) (record : NamespaceRecord)
    (member : record ∈ stmt.openings site) : record.OpenedBy site.unit stmt.declaredPaths := by
  cases stmt with
  | «namespace» span kind path _ body =>
    rw [Stmt.openings] at member
    rcases mem_append.1 member with here | inside
    · obtain ⟨⟨parent, fullName, name⟩, opened, rfl⟩ := map_eq_some_iff.1 (Option.mem_toList.1 here)
      split at opened
      · obtain ⟨⟨parent', fullName'⟩, isTarget, opened⟩ := bind_eq_some_iff.1 opened
        obtain ⟨ns, declared, opened⟩ := bind_eq_some_iff.1 opened
        split at opened
        · rename_i sameKind
          cases opened
          have target := Except.eq_ok_of_toOption isTarget
          exact ⟨⟨ns, declared, sameKind, rfl⟩, path, mem_cons_self,
            (declarationTarget_ok target).1⟩
        · cases opened
      · cases opened
    · exact (Stmt.openedBy_of_mem_all body _ record inside).mono (subset_cons_self _ _)
  | _ => cases member

theorem Stmt.openedBy_of_mem_all : ∀ (body : List Stmt) (site : Site),
    ∀ record ∈ Stmt.allOpenings site body, record.OpenedBy site.unit (Stmt.allDeclaredPaths body)
  | [], _, _, member => nomatch member
  | stmt :: rest, site, record, member => by
    rw [Stmt.allOpenings] at member
    rcases mem_append.1 member with first | later
    · exact (Stmt.openedBy_of_mem stmt site record first).mono (subset_append_left _ _)
    · exact (Stmt.openedBy_of_mem_all rest site record later).mono (subset_append_right _ _)

end

/-! ## What is noted -/

theorem get?_noteOpening (records : OrderedMap NamespaceRecord) (opening : NamespaceRecord)
    (n : String) :
    (noteOpening records opening).get? n =
      (records.get? n).or (if opening.fullName = n then some opening else none) := by
  unfold noteOpening
  rw [contains_eq]
  split
  · rename_i noted
    split
    · rename_i same
      subst same
      obtain ⟨first, found⟩ := isSome_iff_exists.1 noted
      rw [found]
      rfl
    · rw [or_none]
  · rename_i new
    rw [OrderedMap.get?_insert]
    split
    · rename_i same
      subst same
      rw [not_isSome_iff_eq_none.1 new]
      rfl
    · rw [or_none]

theorem get?_foldl_noteOpening (openings : List NamespaceRecord)
    (records : OrderedMap NamespaceRecord) (n : String) :
    (openings.foldl noteOpening records).get? n =
      (records.get? n).or (openings.find? fun opening => opening.fullName = n) := by
  induction openings generalizing records with
  | nil => exact (or_none).symm
  | cons opening rest ih =>
    rw [foldl_cons, ih, get?_noteOpening, Option.or_assoc]
    by_cases same : opening.fullName = n
    · rw [if_pos same, List.find?_cons_of_pos (by simpa using same)]
      rfl
    · rw [if_neg same, List.find?_cons_of_neg (by simpa using same), none_or]

/-! ## What publication writes -/

section Publish

variable {base current : Registry} {declared : Declared} {layouts : Layouts}

/-- What becomes of a namespace that a unit declares. -/
def DeclaredNamespace.publishedShape (ns : DeclaredNamespace) (old : Option Shape) : Option Shape :=
  some ⟨ns.kind, addMixins ((old.map Shape.mixins).getD []) ns.mixins⟩

theorem shape?_addMembers (r : Registry) (fullName : String) (names : NameTable) :
    (r.addMembers fullName names).shape? = r.shape? := by
  funext n
  unfold Registry.shape?
  rw [Registry.get?_addMembers]
  split
  · rw [Option.map_map]
    rfl
  · rfl

theorem shape?_publishNamespace (r : Registry) (ns : DeclaredNamespace) :
    (publishNamespace base layouts r ns).shape? =
      Function.update r.shape? ns.fullName (ns.publishedShape (r.shape? ns.fullName)) := by
  funext n
  unfold Registry.shape? publishNamespace
  rw [Registry.get?_insert]
  by_cases same : ns.fullName = n
  · subst same
    rw [if_pos rfl, Function.update_self]
    cases r.get? ns.fullName <;> rfl
  · rw [if_neg same, Function.update_of_ne (Ne.symm same)]

theorem shape?_foldl_addMembers (added : List (String × NameTable)) (r : Registry) :
    (added.foldl (fun r (fullName, names) => r.addMembers fullName names) r).shape? = r.shape? := by
  induction added generalizing r with
  | nil => rfl
  | cons first rest ih => exact (ih _).trans (shape?_addMembers r _ _)

theorem shape?_publishInto : (publishInto base current declared layouts).shape? =
    updateEach DeclaredNamespace.fullName DeclaredNamespace.publishedShape current.shape?
      declared.namespaces.toValues := by
  have namespaces : ∀ (list : List DeclaredNamespace) (r : Registry),
      (list.foldl (publishNamespace base layouts) r).shape? =
        updateEach DeclaredNamespace.fullName DeclaredNamespace.publishedShape r.shape? list := by
    intro list
    induction list with
    | nil => exact fun _ => rfl
    | cons ns rest ih =>
      intro r
      rw [foldl_cons, ih, shape?_publishNamespace]
      rfl
  unfold publishInto
  rw [shape?_foldl_addMembers, namespaces]

end Publish

/-! ## Operations that create nothing -/

namespace Defining

theorem defined_mixIn {d d' : Defining} {n M : String} (mixed : d.mixIn n M = some d') :
    d'.defined = d.defined := by
  obtain ⟨shape, -, rfl⟩ := map_eq_some_iff.1 mixed
  rfl

theorem defined_perform {d d' : Defining} {op : Op} (performed : d.perform op = some d')
    (creates : ∀ kind, op ≠ .defNamespace kind) : d'.defined = d.defined := by
  unfold perform at performed
  split at performed
  · unfold refer at performed
    split at performed
    · cases performed
      rfl
    · cases performed
  · cases performed
    rfl
  · exact (creates _ rfl).elim
  · unfold plain at performed
    split at performed
    · cases performed
      rfl
    · split at performed
      · cases performed
        rfl
      · cases performed
    · split at performed
      · have same := defined_mixIn performed
        exact same
      · cases performed
    · cases performed
  · cases performed

theorem defined_performAll {d d' : Defining} {operations : List Op}
    (performed : d.performAll operations = some d')
    (creates : ∀ op ∈ operations, ∀ kind, op ≠ .defNamespace kind) : d'.defined = d.defined := by
  induction operations generalizing d with
  | nil =>
    cases performed
    rfl
  | cons op rest ih =>
    rw [performAll, foldlM_cons] at performed
    obtain ⟨between, isBetween, isRest⟩ := bind_eq_some_iff.1 performed
    rw [ih isRest fun other member => creates other (mem_cons_of_mem _ member),
      defined_perform isBetween (creates op mem_cons_self)]

end Defining

theorem DeclaredNamespace.linkOps_creates (ns : DeclaredNamespace) :
    ∀ op ∈ ns.linkOps, ∀ kind, op ≠ .defNamespace kind := by
  intro op member kind
  rintro rfl
  rcases mem_append.1 member with superclass | mixins
  · unfold superclassOps at superclass
    split at superclass
    · split at superclass <;> simp at superclass
    · cases superclass
  · obtain ⟨M, -, inside⟩ := mem_flatMap.1 mixins
    simp [mixinOps] at inside

/-! ## What is there at the end -/

/-- Running the definitions of a function from one registry creates some namespaces, and ends with
those of another registry. -/
def CompiledFunction.Creates (f : CompiledFunction) (base after : Registry) (names : List String) :
    Prop :=
  ∃ last, f.defineNamespaces (.ofRegistry base) = some last ∧ last.defined.Perm names ∧
    last.namespaces = after.shape?

/-- All namespaces that a unit declares are opened in its text, and none before its parent. -/
structure Program.OpensInOrder (p : Program) (unit : UnitInfo) : Prop where
  all : ∀ n, (unit.declared.get? n).isSome →
    ∃ opening ∈ p.openings unit, opening.fullName = n
  ordered : ParentsFirst (fun n => (unit.registry.get? n).isSome)
    ((p.openings unit).foldl noteOpening .empty).toValues

section Unit

variable {unit : UnitInfo} {p : Program} (stated : unit.declared.Stated unit.registry)
  (plain : ∀ path ∈ p.declaredPaths, ∀ segment ∈ path.segments, ':' ∉ segment.toList)

theorem recorded_iff {n : String} : ((p.flow unit).2.records.get? n).isSome ↔
    ∃ opening ∈ p.openings unit, opening.fullName = n := by
  simp only [records_eq, get?_foldl_noteOpening, OrderedMap.get?_empty, none_or,
    List.find?_isSome, decide_eq_true_eq]

include stated in
theorem filed_declared : ∀ n ns, unit.declared.namespaces.get? n = some ns → ns.fullName = n :=
  fun n ns found => (stated n ns found).fullName_eq

section Records

include stated plain

theorem records_spec {n : String} {record : NamespaceRecord}
    (noted : (p.flow unit).2.records.get? n = some record) :
    record.fullName = n ∧ memberName record.parent record.name = n ∧
      ∃ ns, unit.declared.get? n = some ns ∧ ns.kind = record.kind := by
  rw [records_eq, get?_foldl_noteOpening, OrderedMap.get?_empty, none_or] at noted
  obtain rfl : record.fullName = n := by simpa using List.find?_some noted
  have opened := Stmt.openedBy_of_mem_all p.statements _ record
    (mem_of_find?_eq_some noted)
  obtain ⟨ns, declared, sameKind, sameName⟩ := opened.declared
  obtain ⟨path, isPath, last, isLast, placed⟩ := opened.placed
  have isPlain : ':' ∉ last.toList := plain path isPath last (mem_of_getLast? isLast)
  refine ⟨rfl, ?_, ns, declared, sameKind⟩
  rw [← sameName, (stated _ ns declared).name_eq, placed, splitMember?_memberName _ isPlain]
  rfl

theorem filed_records :
    ∀ n record, (p.flow unit).2.records.get? n = some record → record.fullName = n :=
  fun _ _ noted => (records_spec stated plain noted).1

theorem performAll_creations {d : Defining} :
    (ofRegistry unit.registry).performAll
      ((p.flow unit).2.records.toValues.flatMap NamespaceRecord.ops) = some d ↔
      ParentsFirst (ofRegistry unit.registry).Has (p.flow unit).2.records.toValues ∧
        d = (ofRegistry unit.registry).createAll (p.flow unit).2.records.toValues := by
  have filed := filed_records stated plain
  refine Defining.performAll_records (fun record member => ?_) (fun record member shape found => ?_)
    (map_toValues filed ▸ OrderedMap.nodup_keys _)
  · exact (records_spec stated plain ((mem_toValues_iff filed).1 member)).2.1
  · obtain ⟨-, -, ns, declared, sameKind⟩ :=
      records_spec stated plain ((mem_toValues_iff filed).1 member)
    obtain ⟨info, registered, rfl⟩ := map_eq_some_iff.1 found
    rw [← sameKind, (stated _ ns declared).kind_eq info registered]

theorem createAll_apply (n : String) :
    ((ofRegistry unit.registry).createAll
      (p.flow unit).2.records.toValues).namespaces n =
      match (p.flow unit).2.records.get? n with
      | some record => some ((unit.registry.shape? n).getD ⟨record.kind, []⟩)
      | none => unit.registry.shape? n := by
  have filed := filed_records stated plain
  have distinct : ((p.flow unit).2.records.toValues.map NamespaceRecord.fullName).Nodup :=
    map_toValues filed ▸ OrderedMap.nodup_keys _
  unfold Defining.createAll
  dsimp only
  rw [updateEach_apply distinct, find?_toValues filed]
  cases (p.flow unit).2.records.get? n <;> rfl

theorem has_of_sees
    (all : ∀ n, (unit.declared.get? n).isSome → ((p.flow unit).2.records.get? n).isSome)
    {n : String} {kind : NamespaceKind} (seen : unit.declared.Sees unit.registry n kind) :
    ((ofRegistry unit.registry).createAll
      (p.flow unit).2.records.toValues).Has n := by
  unfold Defining.Has
  rw [createAll_apply stated plain]
  rcases seen with ⟨ns, declared, -⟩ | ⟨-, info, registered, -⟩
  · obtain ⟨record, noted⟩ := isSome_iff_exists.1 (all n (by rw [declared]; rfl))
    rw [noted]
    rfl
  · have there : (unit.registry.shape? n).isSome := by
      rw [Registry.shape?, registered]
      rfl
    split
    · rfl
    · exact there

theorem canLink_of_all
    (all : ∀ n, (unit.declared.get? n).isSome → ((p.flow unit).2.records.get? n).isSome) :
    ∀ ns ∈ unit.declared.namespaces.toValues, ((ofRegistry unit.registry).createAll
      (p.flow unit).2.records.toValues).CanLink ns := by
  intro ns member
  have found := (mem_toValues_iff (filed_declared stated)).1 member
  have said := stated _ ns found
  refine ⟨has_of_sees stated plain all (.inl ⟨ns, found, rfl⟩), fun sets S linked => ?_,
    fun M mixin => has_of_sees stated plain all (said.mixins M mixin)⟩
  obtain ⟨S', linked', seen⟩ := said.superclass sets
  cases linked.symm.trans linked'
  exact has_of_sees stated plain all seen

theorem linkAll_createAll {layouts : Layouts}
    (all : ∀ n, (unit.declared.get? n).isSome → ((p.flow unit).2.records.get? n).isSome) :
    (((ofRegistry unit.registry).createAll
      (p.flow unit).2.records.toValues).linkAll
        unit.declared.namespaces.toValues).namespaces =
      (publishInto unit.registry unit.registry unit.declared layouts).shape? := by
  have distinct : (unit.declared.namespaces.toValues.map DeclaredNamespace.fullName).Nodup :=
    map_toValues (filed_declared stated) ▸ OrderedMap.nodup_keys _
  funext n
  refine (updateEach_apply distinct _ n).trans ?_
  rw [shape?_publishInto, updateEach_apply distinct,
    find?_toValues (filed_declared stated), createAll_apply stated plain]
  cases found : unit.declared.namespaces.get? n with
  | none =>
    cases noted : (p.flow unit).2.records.get? n with
    | none => rfl
    | some record =>
      obtain ⟨-, -, ns, declared, -⟩ := records_spec stated plain noted
      cases found.symm.trans declared
  | some ns =>
    have declared : unit.declared.get? n = some ns := found
    obtain ⟨record, noted⟩ := isSome_iff_exists.1 (all n (by rw [declared]; rfl))
    obtain ⟨-, -, ns', declared', sameKind⟩ := records_spec stated plain noted
    cases declared.symm.trans declared'
    rw [noted]
    show some _ = some _
    rw [← sameKind, Registry.shape?]
    cases registered : unit.registry.get? n with
    | none => rfl
    | some info =>
      rw [(stated n ns declared).kind_eq info registered]
      rfl

/-- **All namespaces of a unit are created, and nothing else, exactly if the text opens all of them,
and none before its parent.** -/
theorem performAll_namespaceOps_iff {layouts : Layouts} :
    (∃ last, (ofRegistry unit.registry).performAll
        (unit.namespaceOps (p.flow unit).2.records) = some last ∧
      last.defined.Perm unit.declared.namespaces.keys.toList ∧
      last.namespaces = (publishInto unit.registry unit.registry unit.declared layouts).shape?) ↔
      p.OpensInOrder unit := by
  have filed := filed_records stated plain
  have has : (ofRegistry unit.registry).Has =
      fun n => ((unit.registry.get? n).isSome : Prop) := by
    funext n
    simp [Defining.Has, ofRegistry, Registry.shape?]
  have defined : ((ofRegistry unit.registry).createAll
      (p.flow unit).2.records.toValues).defined =
        (p.flow unit).2.records.keys.toList.reverse := by
    rw [Defining.createAll, map_toValues filed]
    exact append_nil _
  rw [UnitInfo.namespaceOps, Defining.performAll_append]
  constructor
  · rintro ⟨last, run, created, -⟩
    obtain ⟨between, creation, linking⟩ := bind_eq_some_iff.1 run
    obtain ⟨ordered, rfl⟩ := (performAll_creations stated plain).1 creation
    rw [Defining.defined_performAll linking, defined] at created
    · refine ⟨fun n declared => recorded_iff.1 ?_, ?_⟩
      · rw [← mem_keys_iff, ← mem_reverse, created.mem_iff]
        exact (mem_keys_iff _ _).2 declared
      · rwa [has, records_eq] at ordered
    · intro op member
      obtain ⟨ns, -, inside⟩ := mem_flatMap.1 member
      exact ns.linkOps_creates op inside
  · rintro ⟨opened, ordered⟩
    have all : ∀ n, (unit.declared.get? n).isSome →
        ((p.flow unit).2.records.get? n).isSome := fun n declared =>
      recorded_iff.2 (opened n declared)
    have recorded : unit.declared.namespaces.toValues.filter
        (fun ns => (p.flow unit).2.records.contains ns.fullName) =
          unit.declared.namespaces.toValues := by
      refine filter_eq_self.2 fun ns member => ?_
      rw [contains_eq]
      refine all _ ?_
      have found := (mem_toValues_iff (filed_declared stated)).1 member
      rw [← Declared.get?] at found
      rw [found]
      rfl
    refine ⟨_, bind_eq_some_iff.2 ⟨_, (performAll_creations stated plain).2 ⟨?_, rfl⟩, ?_⟩,
      ?_, linkAll_createAll stated plain all⟩
    · rwa [has, records_eq]
    · rw [recorded]
      exact Defining.performAll_links (canLink_of_all stated plain all)
    · show ((ofRegistry unit.registry).createAll _).defined.Perm _
      rw [defined]
      refine (reverse_perm _).trans ?_
      refine (perm_ext_iff_of_nodup (OrderedMap.nodup_keys _) (OrderedMap.nodup_keys _)).2 fun n =>
        ?_
      rw [mem_keys_iff, mem_keys_iff]
      refine ⟨fun noted => ?_, all n⟩
      obtain ⟨record, found⟩ := isSome_iff_exists.1 noted
      obtain ⟨-, -, ns, declared, -⟩ := records_spec stated plain found
      rw [← Declared.get?, declared]
      rfl

end Records

end Unit

end StackCode
