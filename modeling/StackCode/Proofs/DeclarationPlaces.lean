import StackCode.Proofs.CreatedNamespaces
import StackCode.Proofs.Layouts

/-!
# Where declarations put their namespaces

The place that a declaration denotes is found twice: with what stands before it when it is
collected, and with the whole unit when code is made. The two may differ without any failure
(`shadowedUnit`). If they never do, the text opens what was collected in the same order, so that a
parent is there before what is declared in it (`Program.opensInOrder_of_keepsPlaces`).
-/

namespace StackCode

open List Option OrderedMap

open Collection

/-! ## Places -/

mutual

/-- Whether a declaration denotes, with all that is `seen`, the place that it is collected at, and
so do those in it. -/
def Stmt.keepsPlaces (r : Registry) (seen : Lookup) (nesting : List String) :
    Stmt → Collection → Bool
  | .namespace span kind path _ body, c =>
    (declarationTarget nesting seen path).toOption ==
        (declarationTarget nesting (c.declared.lookup r) path).toOption &&
      match c.openNamespace r nesting kind path span with
      | (inner, some fullName) => Stmt.allKeepPlaces r seen (fullName :: nesting) body inner
      | (_, none) => true
  | .expression _ _, _ => true
  | .ret _ _, _ => true
  | .loop _ _ _, _ => true
  | .variable _ _ _ _ _, _ => true
  | .patternVariable _ _ _ _, _ => true
  | .constant _ _ _ _, _ => true
  | .singleton _ _, _ => true
  | .method _ _ _ _, _ => true
  | .signature _ _ _, _ => true
  | .attribute _ _ _, _ => true
  | .aliases _ _, _ => true
  | .ivar _ _ _, _ => true
  | .include _ _, _ => true
  | .using _ _, _ => true

/-- So do some statements. -/
def Stmt.allKeepPlaces (r : Registry) (seen : Lookup) (nesting : List String) :
    List Stmt → Collection → Bool
  | [], _ => true
  | stmt :: rest, c =>
    stmt.keepsPlaces r seen nesting c &&
      Stmt.allKeepPlaces r seen nesting rest (collectStmt r nesting stmt c)

end

/-- Whether every declaration denotes, in the unit as a whole, the place that it denotes where it is
collected, with only what stands before it. -/
def Program.keepsPlaces (p : Program) (unit : UnitInfo) : Bool :=
  Stmt.allKeepPlaces unit.registry unit.lookup [rootName] p.statements ⟨.empty, #[]⟩

/-! ## Orders -/

theorem OrderedMap.toValues_insert {α : Type} {m : OrderedMap α} {k : String}
    (new : m.get? k = none) (v : α) : (m.insert k v).toValues = m.toValues ++ [v] := by
  have notThere : k ∉ m.values := by
    rw [← m.mem_keys, m.mem_keys_iff, new]
    exact Bool.false_ne_true
  have old : ∀ other ∈ m.keys.toList, (m.insert k v).get? other = m.get? other := by
    intro other member
    rw [get?_insert, if_neg]
    rintro rfl
    exact notThere ((m.mem_keys _).1 member)
  rw [toValues, keys_insert, if_neg notThere, Array.toList_push, filterMap_append,
    filterMap_congr old, toValues]
  simp [get?_insert]

namespace ParentsFirst

variable {known known' : String → Prop} {a b : List NamespaceRecord}

theorem mono (ordered : ParentsFirst known a) (more : ∀ n, known n → known' n) :
    ParentsFirst known' a := by
  induction a generalizing known known' with
  | nil => trivial
  | cons record rest ih =>
    exact ⟨more _ ordered.1, ih ordered.2 fun n => Or.imp id (more n)⟩

theorem append (first : ParentsFirst known a)
    (second : ParentsFirst (fun n => (∃ record ∈ a, record.fullName = n) ∨ known n) b) :
    ParentsFirst known (a ++ b) := by
  induction a generalizing known with
  | nil => exact second.mono fun n there => by simpa using there
  | cons record rest ih =>
    refine ⟨first.1, ih first.2 (second.mono fun n there => ?_)⟩
    rcases there with ⟨other, member, rfl⟩ | old
    · rcases mem_cons.1 member with rfl | later
      · exact .inr (.inl rfl)
      · exact .inl ⟨other, later, rfl⟩
    · exact .inr (.inr old)

theorem foldl_noteOpening (ordered : ParentsFirst known a) {records : OrderedMap NamespaceRecord}
    (noted : ∀ n, (records.get? n).isSome → known n) :
    ∃ new, (a.foldl noteOpening records).toValues = records.toValues ++ new ∧
      ParentsFirst known new := by
  induction a generalizing known records with
  | nil => exact ⟨[], (append_nil _).symm, trivial⟩
  | cons opening rest ih =>
    rw [foldl_cons]
    have notedNow (n : String) (isNoted : ((noteOpening records opening).get? n).isSome) :
        n = opening.fullName ∨ known n := by
      rw [get?_noteOpening] at isNoted
      by_cases same : opening.fullName = n
      · exact .inl same.symm
      · rw [if_neg same, or_none] at isNoted
        exact .inr (noted n isNoted)
    obtain ⟨new, values, isOrdered⟩ := ih ordered.2 notedNow
    by_cases again : (records.get? opening.fullName).isSome
    · have same : noteOpening records opening = records := by
        rw [noteOpening, contains_eq, if_pos again]
      rw [same] at values ⊢
      refine ⟨new, values, isOrdered.mono fun n there => ?_⟩
      rcases there with rfl | old
      · exact noted _ again
      · exact old
    · have inserted : (noteOpening records opening).toValues = records.toValues ++ [opening] := by
        rw [noteOpening, contains_eq, if_neg again]
        exact toValues_insert (not_isSome_iff_eq_none.1 again) opening
      exact ⟨opening :: new, by rw [values, inserted, List.append_assoc]; rfl, ordered.1, isOrdered⟩

end ParentsFirst

/-! ## The openings of a unit -/

section Unit

variable {unit : UnitInfo}

/-- What is asked of a place: the root, the namespaces around it, those of the registry and those
that were collected before are known. -/
structure KnownAt (unit : UnitInfo) (known : String → Prop) (nesting : List String)
    (c : Collection) : Prop where
  root : known rootName
  nesting : ∀ n ∈ nesting, known n
  registered : ∀ n, (unit.registry.get? n).isSome → known n
  declared : ∀ n, (c.declared.get? n).isSome → known n

/-- What is collected at a place is opened there, and no namespace before its parent. -/
structure OpensWhat (known : String → Prop) (openings : List NamespaceRecord)
    (c c' : Collection) : Prop where
  ordered : ParentsFirst known openings
  all : ∀ n, (c'.declared.get? n).isSome → (c.declared.get? n).isSome ∨
    ∃ opening ∈ openings, opening.fullName = n

/-- What is collected is in the unit. -/
def Collection.Within (c : Collection) (unit : UnitInfo) : Prop :=
  ∀ n ns, c.declared.get? n = some ns →
    ∃ ns', unit.declared.get? n = some ns' ∧ ns'.kind = ns.kind

theorem Collection.Within.of_grows {c c' : Collection} (within : c'.Within unit)
    (grows : c.Grows unit.registry c') : c.Within unit :=
  fun n ns found => within n ns (grows.get?_eq n ns found)

theorem Stmt.openings_namespace {site : Site} {kind : NamespaceKind} {path : Path}
    {parent fullName : String} {ns : DeclaredNamespace} (span : Span)
    (legal : site.context.permits (.namespace kind) = true)
    (target : declarationTarget site.nesting site.unit.lookup path = .ok (parent, fullName))
    (declared : site.unit.declared.get? fullName = some ns) (sameKind : ns.kind = kind)
    (superclass : Option Path) (body : List Stmt) :
    (Stmt.namespace span kind path superclass body).openings site =
      ⟨fullName, parent, ns.name, kind, span⟩ ::
        Stmt.allOpenings (site.inNamespace fullName kind true) body := by
  have opened : site.opened? kind (some (parent, fullName)) = some (parent, fullName, ns.name) := by
    show ((site.unit.declared.get? fullName).bind fun ns =>
      if ns.kind = kind then some (parent, fullName, ns.name) else none) = _
    rw [declared]
    exact if_pos sameKind
  rw [Stmt.openings, target, legal]
  dsimp only [Except.toOption]
  rw [opened]
  rfl

mutual

theorem Stmt.opensWhat (stmt : Stmt) (site : Site) (known : String → Prop) (c : Collection)
    (legal : ∀ kind, site.context.permits (.namespace kind) = true)
    (isKnown : KnownAt site.unit known site.nesting c)
    (keeps : stmt.keepsPlaces site.unit.registry site.unit.lookup site.nesting c)
    (within : (collectStmt site.unit.registry site.nesting stmt c).Within site.unit)
    (unfailed : ¬Failed (collectStmt site.unit.registry site.nesting stmt c).issues) :
    OpensWhat known (stmt.openings site) c
      (collectStmt site.unit.registry site.nesting stmt c) := by
  cases stmt with
  | «namespace» span kind path _ body =>
    rw [collectStmt] at within unfailed ⊢
    rw [Stmt.keepsPlaces, Bool.and_eq_true, beq_iff_eq] at keeps
    rcases openNamespace_cases site.unit.registry site.nesting kind path span c with
      ⟨failure, -, isFailure⟩ | ⟨parent, fullName, inner, ns, isInner, target, grows, found, isKind,
        others⟩
    · rw [isFailure] at unfailed
      exact (unfailed (failed_push_failure _ _ _)).elim
    · rw [isInner] at within unfailed keeps ⊢
      dsimp only at within unfailed keeps ⊢
      obtain ⟨samePlace, keepsInside⟩ := keeps
      rw [target] at samePlace
      replace samePlace := Except.eq_ok_of_toOption samePlace
      obtain ⟨ns', declared, sameKind⟩ :=
        within.of_grows (collectBody_grows _ _ body inner) fullName ns found
      rw [Stmt.openings_namespace span (legal kind) samePlace declared
        (sameKind.trans isKind) _ body]
      -- The parent was known before, and the namespace is known inside.
      have parentKnown : known parent := by
        rcases (declarationTarget_ok target).2 with rfl | around | ⟨kind, seen⟩
        · exact isKnown.root
        · exact isKnown.nesting parent around
        · rcases Declared.sees_of_lookup seen with ⟨ns, before, -⟩ | ⟨-, info, before, -⟩
          · exact isKnown.declared parent (by rw [before]; rfl)
          · exact isKnown.registered parent (by rw [before]; rfl)
      have inside := Stmt.opensWhat_all body (site.inNamespace fullName kind true)
        (fun n => n = fullName ∨ known n) inner (fun _ => rfl) ⟨.inr isKnown.root, fun n member =>
          (mem_cons.1 member).imp id (isKnown.nesting n), fun n there =>
          .inr (isKnown.registered n there), fun n there => ?_⟩ keepsInside within unfailed
      · refine ⟨⟨parentKnown, inside.ordered⟩, fun n there => ?_⟩
        rcases inside.all n there with before | ⟨opening, member, same⟩
        · by_cases isNew : n = fullName
          · exact .inr ⟨_, mem_cons_self, isNew.symm⟩
          · exact .inl (others n isNew ▸ before)
        · exact .inr ⟨opening, mem_cons_of_mem _ member, same⟩
      · by_cases isNew : n = fullName
        · exact .inl isNew
        · exact .inr (isKnown.declared n (others n isNew ▸ there))
  | constant =>
    rw [collectStmt, Collection.constant]
    dsimp only
    split <;> exact ⟨trivial, fun _ => .inl⟩
  | _ => exact ⟨trivial, fun _ => .inl⟩

theorem Stmt.opensWhat_all : ∀ (body : List Stmt) (site : Site) (known : String → Prop)
    (c : Collection), (∀ kind, site.context.permits (.namespace kind) = true) →
    KnownAt site.unit known site.nesting c →
    Stmt.allKeepPlaces site.unit.registry site.unit.lookup site.nesting body c →
    (collectBody site.unit.registry site.nesting body c).Within site.unit →
    ¬Failed (collectBody site.unit.registry site.nesting body c).issues →
    OpensWhat known (Stmt.allOpenings site body) c
      (collectBody site.unit.registry site.nesting body c)
  | [], _, _, _, _, _, _, _, _ => ⟨trivial, fun _ => .inl⟩
  | stmt :: rest, site, known, c, legal, isKnown, keeps, within, unfailed => by
    rw [collectBody] at within unfailed ⊢
    rw [Stmt.allKeepPlaces, Bool.and_eq_true] at keeps
    have grows := collectBody_grows site.unit.registry site.nesting rest
      (collectStmt site.unit.registry site.nesting stmt c)
    have first := Stmt.opensWhat stmt site known c legal isKnown keeps.1
      (within.of_grows grows) fun failed => unfailed (grows.failed failed)
    have later := Stmt.opensWhat_all rest site (fun n => (∃ opening ∈ stmt.openings site,
      opening.fullName = n) ∨ known n) _ legal ⟨.inr isKnown.root, fun n member =>
        .inr (isKnown.nesting n member), fun n there => .inr (isKnown.registered n there),
        fun n there => ?_⟩ keeps.2 within unfailed
    · refine ⟨first.ordered.append later.ordered, fun n there => ?_⟩
      rw [Stmt.allOpenings]
      rcases later.all n there with before | ⟨opening, member, same⟩
      · rcases first.all n before with old | ⟨opening, member, same⟩
        · exact .inl old
        · exact .inr ⟨opening, mem_append_left _ member, same⟩
      · exact .inr ⟨opening, mem_append_right _ member, same⟩
    · rcases first.all n there with old | new
      · exact .inr (isKnown.declared n old)
      · exact .inl new

end

end Unit

/-! ## Units -/

section Compile

variable {o : Options} {base : Registry} {p : Program}

theorem collect_unfailed (clean : ¬Failed (compileUnit o base p).issues) :
    ¬Failed (collect base p.statements).issues := fun failed =>
  clean (compileUnit_failed ((continues_link.trans continues_layOut).failed failed))

/-- **Declarations that keep their places open what is collected, each namespace after its
parent.** -/
theorem Program.opensInOrder_of_keepsPlaces
    (keeps : p.keepsPlaces (p.unitInfo o base))
    (root : (base.get? rootName).isSome)
    (clean : ¬Failed (compileUnit o base p).issues) :
    p.OpensInOrder (p.unitInfo o base) := by
  have kinds := link_kinds base p.statements (collect base p.statements)
  have within : (collect base p.statements).Within (p.unitInfo o base) := by
    intro n ns found
    have same := kinds n
    rw [found] at same
    exact map_eq_some_iff.1 same
  have opens := Stmt.opensWhat_all p.statements
    ⟨p.unitInfo o base, [rootName], .topLevel⟩ (fun n => (base.get? n).isSome)
    ⟨.empty, #[]⟩ (fun _ => rfl) ⟨root, fun n member => mem_singleton.1 member ▸ root,
      fun _ => id, fun n there => by simp [Declared.get?, Declared.empty] at there⟩ keeps within
    (collect_unfailed clean)
  refine ⟨fun n there => ?_, ?_⟩
  · have collected : ((collect base p.statements).declared.get? n).isSome := by
      have same := congrArg Option.isSome (kinds n)
      rw [isSome_map, isSome_map] at same
      exact same ▸ there
    exact (opens.all n collected).resolve_left fun there => by
      simp [Declared.get?, Declared.empty] at there
  · have noneNoted (n : String) (there : ((.empty : OrderedMap NamespaceRecord).get? n).isSome) :
        (base.get? n).isSome := by
      simp at there
    obtain ⟨new, values, ordered⟩ := opens.ordered.foldl_noteOpening noneNoted
    exact values ▸ ordered

theorem perm_collected (base : Registry) (p : Program) :
    (collect base p.statements).declared.namespaces.keys.toList.Perm
      (p.linked base).declared.namespaces.keys.toList := by
  refine (perm_ext_iff_of_nodup (OrderedMap.nodup_keys _) (OrderedMap.nodup_keys _)).2 fun n => ?_
  have same := congrArg Option.isSome
    (link_kinds base p.statements (collect base p.statements) n)
  rw [isSome_map, isSome_map] at same
  rw [mem_keys_iff, mem_keys_iff]
  exact Bool.eq_iff_iff.1 same.symm

/-- What a unit without failures creates, from the registry that it was compiled against. -/
theorem compileUnit_creates_iff (clean : ¬Failed (compileUnit o base p).issues)
    (plain : ∀ path ∈ p.declaredPaths, ∀ segment ∈ path.segments, ':' ∉ segment.toList)
    (layouts : Layouts) :
    (compileUnit o base p).function.Creates base
        (publishInto base base (p.linked base).declared layouts)
        (collect base p.statements).declared.namespaces.keys.toList ↔
      p.OpensInOrder (p.unitInfo o base) := by
  have stated : (p.unitInfo o base).declared.Stated base :=
    link_stated (clean_collect base p.statements)
  rw [← performAll_namespaceOps_iff stated plain]
  unfold CompiledFunction.Creates
  rw [compileUnit_defineNamespaces clean rfl]
  have collected := perm_collected base p
  constructor
  · rintro ⟨_, run, created, there⟩
    obtain ⟨last, isLast, rfl⟩ := map_eq_some_iff.1 run
    exact ⟨last, isLast, created.trans collected, there⟩
  · rintro ⟨last, isLast, created, there⟩
    exact ⟨_, map_eq_some_iff.2 ⟨last, isLast, rfl⟩, created.trans collected.symm, there⟩

/-- **The definitions of a unit create what it declares, and end with what it publishes, exactly if
its text opens all of it in order**, as seen in the unit as a whole. That is so if every declaration
denotes the place that it was collected at. -/
theorem compile_creates_iff {f : CompiledFunction}
    (compiled : (compile o base p).1.function = some f)
    (plain : ∀ path ∈ p.declaredPaths, ∀ segment ∈ path.segments, ':' ∉ segment.toList) :
    let names := (collect base p.statements).declared.namespaces.keys.toList
    (f.Creates base (compile o base p).2 names ↔
        p.OpensInOrder (p.unitInfo o base)) ∧
      ((base.get? rootName).isSome → p.keepsPlaces (p.unitInfo o base) →
        f.Creates base (compile o base p).2 names) := by
  intro names
  rw [compile] at compiled ⊢
  obtain ⟨⟨clean, -, -, published⟩, rfl⟩ := compileAgainst_published compiled
  have creates := compileUnit_creates_iff clean plain (p.laidOut base).layouts
  rw [← published] at creates
  exact ⟨creates, fun root keeps =>
    creates.2 (Program.opensInOrder_of_keepsPlaces keeps root clean)⟩

end Compile

/-- A class in a module that stands before it, with a mixin that stands behind it. -/
def mixedUnit : Program :=
  let at_ := Span.zero
  .ofStatements [
    .namespace at_ .module ⟨["B"], false⟩ none [],
    .namespace at_ .class ⟨["B", "C"], false⟩ none [.include at_ [⟨["M"], false⟩]],
    .namespace at_ .mixin ⟨["M"], false⟩ none []]

theorem compile_creates_mixed :
    ∃ f, (compile (.forFile "mixed") .prelude mixedUnit).1.function = some f ∧
      f.Creates .prelude (compile (.forFile "mixed") .prelude mixedUnit).2
        ["Root::B", "Root::B::C", "Root::M"] := by
  have compiles : (compile (.forFile "mixed") .prelude mixedUnit).1.function.isSome := by
    decide +kernel
  obtain ⟨f, compiled⟩ := Option.isSome_iff_exists.1 compiles
  have names : (collect .prelude mixedUnit.statements).declared.namespaces.keys.toList =
      ["Root::B", "Root::B::C", "Root::M"] := by
    decide +kernel
  have creates := (compile_creates_iff compiled (by decide +kernel)).2 (by decide +kernel)
    (by decide +kernel)
  exact ⟨f, compiled, names ▸ creates⟩

/-- A class whose path denotes one module where it is collected, and another one in the unit as a
whole. -/
def shadowedUnit : Program :=
  let at_ := Span.zero
  .ofStatements [
    .namespace at_ .module ⟨["B"], false⟩ none [],
    .namespace at_ .module ⟨["A"], false⟩ none [
      .namespace at_ .class ⟨["B", "C"], false⟩ none [],
      .namespace at_ .module ⟨["B"], false⟩ none []]]

/-- Definitions do not create all that is declared: a class is published that is never created. -/
theorem not_always_creates : ¬∀ (o : Options) (p : Program) (f : CompiledFunction),
    (compile o .prelude p).1.function = some f →
    (∀ path ∈ p.declaredPaths, ∀ segment ∈ path.segments, ':' ∉ segment.toList) →
    f.Creates .prelude (compile o .prelude p).2
      (collect .prelude p.statements).declared.namespaces.keys.toList := by
  intro creates
  have compiles : (compile (.forFile "shadowed") .prelude shadowedUnit).1.function.isSome := by
    decide +kernel
  obtain ⟨f, compiled⟩ := Option.isSome_iff_exists.1 compiles
  obtain ⟨last, run, created, -⟩ := creates _ _ f compiled (by decide +kernel)
  have defined : (compile (.forFile "shadowed") .prelude shadowedUnit).1.function.bind (fun f =>
      (f.defineNamespaces (.ofRegistry .prelude)).map Defining.defined) =
        some ["Root::A::B", "Root::A", "Root::B"] := by
    decide +kernel
  rw [compiled, Option.bind_some, run] at defined
  have isDefined : last.defined = ["Root::A::B", "Root::A", "Root::B"] := Option.some.inj defined
  rw [isDefined] at created
  revert created
  decide +kernel

end StackCode
