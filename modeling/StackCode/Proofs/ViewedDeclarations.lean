import StackCode.Proofs.Views

/-!
# Declarations under a view

What a unit declares, how its namespaces are linked and laid out, and what is published of it are
the same under a view, save that what is reported is reported where the view has it: every step of
these passes commutes with the view.
-/

namespace StackCode

open List Option OrderedMap

/-! ## Maps -/

namespace OrderedMap

variable {α : Type} (f : α → α) (m : OrderedMap α)

@[simp] theorem map_empty : (empty : OrderedMap α).map f = empty := by
  apply ext
  · rfl
  · intro k
    rw [get?_map]
    simp

@[simp] theorem contains_map (k : String) : (m.map f).contains k = m.contains k := by
  simp [contains, map]

theorem map_insert (k : String) (v : α) : (m.insert k v).map f = (m.map f).insert k (f v) := by
  apply ext
  · rw [keys_map, keys_insert, keys_insert, keys_map]
    simp [map]
  · intro a
    rw [get?_map, get?_insert, get?_insert, get?_map]
    split <;> rfl

theorem map_modify {g g' : α → α} (same : ∀ a, g' (f a) = f (g a)) (k : String) :
    (m.modify k g).map f = (m.map f).modify k g' := by
  apply ext
  · rfl
  · intro a
    rw [get?_map, get?_modify, get?_modify, get?_map]
    split
    · simp [Function.comp_def, same]
    · rfl

theorem toValues_map : (m.map f).toValues = m.toValues.map f := by
  have each : (m.map f).get? = fun k => (m.get? k).map f := funext fun k => get?_map m k f
  rw [toValues, toValues, each, map_filterMap]
  rfl

end OrderedMap

namespace View

variable (V : View)
variable (c : Collection) (l : Linking) (failure : Failure) (d : Declared) (r : Registry)
  (ns : DeclaredNamespace) (singleton : Bool) (nesting : List String)
  (parent name fullName : String) (names : List String) (span : Span) (kind : NamespaceKind)
  (path : Path)

/-! ## Look-ups -/

theorem get?_declared : (V.declared d).get? fullName = (d.get? fullName).map V.declaration := by
  simp [Declared.get?, declared]

@[simp] theorem lookup_declared : (V.declared d).lookup r = d.lookup r := by
  funext fullName
  rw [Declared.lookup, Declared.lookup, get?_declared]
  cases d.get? fullName <;> rfl

theorem modify_declared {f f' : DeclaredNamespace → DeclaredNamespace}
    (same : ∀ ns, f' (V.declaration ns) = V.declaration (f ns)) (d : Declared) (fullName : String) :
    (V.declared d).modify fullName f' = V.declared (d.modify fullName f) := by
  simp [Declared.modify, declared, map_modify _ _ same]

theorem superclassOf?_declared :
    superclassOf? (V.declared d) r = superclassOf? d r := by
  funext fullName
  rw [superclassOf?, superclassOf?, get?_declared]
  cases d.get? fullName <;> rfl

/-! ## Collecting -/

/-- What is collected, as the view shows it. -/
def collection (c : Collection) : Collection := ⟨V.declared c.declared, V.issues c.issues⟩

@[simp] theorem fail_collection :
    (V.collection c).fail failure (V.span span) = V.collection (c.fail failure span) := by
  simp [Collection.fail, collection]

theorem record_collection (parent fullName : String) (registered : Bool)
    (superclass : Option String) (span : Span) :
    (V.collection c).record kind parent fullName registered superclass (V.span span) =
      V.collection (c.record kind parent fullName registered superclass span) := by
  simp [Collection.record, collection, declared, map_insert, declaration]

theorem constant_collection (c : Collection) :
    (V.collection c).constant r nesting name (V.span span) =
      V.collection (c.constant r nesting name span) := by
  have sees : (V.collection c).declared.lookup r = c.declared.lookup r :=
    V.lookup_declared _ _
  unfold Collection.constant
  rw [sees]
  dsimp only
  split
  · exact V.fail_collection c _ span
  · rfl

theorem openNamespace_collection (span : Span) (c : Collection) :
    (V.collection c).openNamespace r nesting kind path (V.span span) =
      (V.collection (c.openNamespace r nesting kind path span).1,
        (c.openNamespace r nesting kind path span).2) := by
  have sees : (V.collection c).declared.lookup r = c.declared.lookup r :=
    V.lookup_declared _ _
  unfold Collection.openNamespace
  rw [sees]
  cases declarationTarget nesting (c.declared.lookup r) path with
  | error failure => simp
  | ok target =>
    obtain ⟨parent, fullName⟩ := target
    have known : ((V.collection c).declared.get? fullName).isSome =
        (c.declared.get? fullName).isSome := by
      simp [collection, get?_declared]
    dsimp only
    cases c.declared.lookup r fullName with
    | none =>
      dsimp only
      rw [record_collection]
      cases path.last? <;> rfl
    | some found =>
      cases found with
      | value => simp
      | «namespace» existing =>
        dsimp only
        rw [known, record_collection]
        by_cases other : existing ≠ kind
        · simp [other]
        · rw [if_neg other, if_neg other]
          split <;> rfl

mutual

theorem stmt_collection (r : Registry) (nesting : List String) (s : Stmt) (c : Collection) :
    collectStmt r nesting (s.mapSpans V.span) (V.collection c) =
      V.collection (collectStmt r nesting s c) := by
  cases s with
  | «namespace» span kind path _ body =>
    rw [Stmt.mapSpans, collectStmt, collectStmt, openNamespace_collection]
    generalize c.openNamespace r nesting kind path span = opened
    obtain ⟨c, fullName⟩ := opened
    cases fullName with
    | some fullName => exact body_collection r (fullName :: nesting) body c
    | none => rfl
  | constant span name => exact V.constant_collection r nesting name span c
  | _ => rfl

theorem body_collection (r : Registry) (nesting : List String) :
    ∀ (ss : List Stmt) (c : Collection),
      collectBody r nesting (mapStmts V.span ss) (V.collection c) =
        V.collection (collectBody r nesting ss c)
  | [], _ => rfl
  | s :: rest, c => by
    rw [mapStmts, collectBody, collectBody, stmt_collection r nesting s c,
      body_collection r nesting rest]

end

theorem collect (r : Registry) (ss : List Stmt) :
    StackCode.collect r (mapStmts V.span ss) = V.collection (StackCode.collect r ss) := by
  have start : V.collection ⟨.empty, #[]⟩ = ⟨.empty, #[]⟩ := by
    simp [collection, declared, Declared.empty]
  unfold StackCode.collect
  rw [← body_collection, start]

/-! ## Linking -/

/-- What is linked, as the view shows it. -/
def linking (l : Linking) : Linking := ⟨V.declared l.declared, V.issues l.issues, l.imports⟩

@[simp] theorem fail_linking :
    (V.linking l).fail failure (V.span span) = V.linking (l.fail failure span) := by
  simp [Linking.fail, linking]

@[simp] theorem lookup_linking :
    (V.linking l).declared.lookup r = l.declared.lookup r :=
  V.lookup_declared _ _

theorem get?_linking :
    (V.linking l).declared.get? fullName = (l.declared.get? fullName).map V.declaration :=
  V.get?_declared _ _

theorem modify_linking {f f' : DeclaredNamespace → DeclaredNamespace}
    (same : ∀ ns, f' (V.declaration ns) = V.declaration (f ns)) (l : Linking) (fullName : String) :
    { V.linking l with declared := (V.linking l).declared.modify fullName f' } =
      V.linking { l with declared := l.declared.modify fullName f } := by
  dsimp only [linking]
  rw [V.modify_declared same]

theorem use_linking (entries : List Using) :
    (V.linking l).use r nesting entries = V.linking (l.use r nesting entries) := by
  unfold Linking.use
  rw [lookup_linking]
  rfl

theorem setSuperclass_linking (superclass : String) (span : Span) :
    (V.linking l).setSuperclass fullName superclass (V.span span) =
      V.linking (l.setSuperclass fullName superclass span) := by
  unfold Linking.setSuperclass
  rw [get?_linking]
  cases l.declared.get? fullName with
  | none => rfl
  | some ns =>
    dsimp only [map_some, declaration]
    cases ns.superclass with
    | none =>
      refine V.modify_linking (fun ns => ?_) l fullName
      rfl
    | some existing =>
      dsimp only
      split
      · rfl
      · exact V.fail_linking l _ span

theorem superclass_linking (span : Span) :
    (V.linking l).superclass r nesting fullName kind path (V.span span) =
      V.linking (l.superclass r nesting fullName kind path span) := by
  unfold Linking.superclass
  rw [lookup_linking]
  split
  · exact V.fail_linking l _ span
  · have imports : (V.linking l).imports = l.imports := rfl
    rw [imports]
    rcases resolveNamespace l.imports nesting (l.declared.lookup r) path with
      failure | ⟨superclass, found⟩
    · exact V.fail_linking l _ span
    · cases found with
      | «class» => exact V.setSuperclass_linking l fullName superclass span
      | «module» | mixin | interface => exact V.fail_linking l _ span

theorem includeMixin_linking (l : Linking) (path : Path) :
    Linking.includeMixin r nesting fullName (V.span span) (V.linking l) path =
      V.linking (Linking.includeMixin r nesting fullName span l path) := by
  unfold Linking.includeMixin
  have imports : (V.linking l).imports = l.imports := rfl
  rw [lookup_linking, imports]
  rcases resolveNamespace l.imports nesting (l.declared.lookup r) path with
    failure | ⟨included, found⟩
  · exact V.fail_linking l _ span
  · cases found with
    | mixin =>
      refine V.modify_linking (fun ns => ?_) l fullName
      simp [declaration, contribution]
    | «module» | «class» | interface => exact V.fail_linking l _ span

theorem declareIvars_linking :
    (V.linking l).declareIvars fullName names (V.span span) =
      V.linking (l.declareIvars fullName names span) := by
  refine V.modify_linking (fun ns => ?_) l fullName
  simp [declaration, contribution]

theorem declareSingletonIvars_linking :
    (V.linking l).declareSingletonIvars fullName names (V.span span) =
      V.linking (l.declareSingletonIvars fullName names span) := by
  refine V.modify_linking (fun ns => ?_) l fullName
  simp [declaration]

theorem singletonStmt_linking (l : Linking) (s : Stmt) :
    Linking.singletonStmt r nesting fullName (V.linking l) (s.mapSpans V.span) =
      V.linking (Linking.singletonStmt r nesting fullName l s) := by
  cases s with
  | «using» span entries => exact V.use_linking l r nesting entries
  | ivar span name declaredType => exact V.declareSingletonIvars_linking l fullName [name] span
  | «attribute» span kind entries => exact V.declareSingletonIvars_linking l fullName _ span
  | _ => rfl

theorem singletonStmts_linking (ss : List Stmt) (l : Linking) :
    (mapStmts V.span ss).foldl (Linking.singletonStmt r nesting fullName) (V.linking l) =
      V.linking (ss.foldl (Linking.singletonStmt r nesting fullName) l) := by
  induction ss generalizing l with
  | nil => rfl
  | cons s rest ih =>
    rw [mapStmts, foldl_cons, foldl_cons, singletonStmt_linking, ih]

theorem singleton_linking (body : List Stmt) :
    (V.linking l).singleton r nesting fullName (mapStmts V.span body) =
      V.linking (l.singleton r nesting fullName body) := by
  have inside := V.singletonStmts_linking r nesting fullName body
    { l with imports := l.imports.push }
  unfold Linking.singleton
  dsimp only [linking] at inside ⊢
  rw [inside]

theorem ite_linking {p : Prop} [Decidable p] {a b a' b' : Linking} (yes : a' = V.linking a)
    (no : b' = V.linking b) : (if p then a' else b') = V.linking (if p then a else b) := by
  rw [yes, no, apply_ite V.linking]

mutual

theorem stmt_linking (r : Registry) (nesting : List String) (owner : Option Owner) (s : Stmt)
    (l : Linking) :
    linkStmt r nesting owner (s.mapSpans V.span) (V.linking l) =
      V.linking (linkStmt r nesting owner s l) := by
  cases s with
  | «namespace» span kind path superclass body =>
    rw [Stmt.mapSpans, linkStmt, linkStmt, lookup_linking]
    rcases declarationTarget nesting (l.declared.lookup r) path with
      failure | ⟨parent, fullName⟩
    · rfl
    · have known : ((V.linking l).declared.get? fullName).map DeclaredNamespace.kind =
          (l.declared.get? fullName).map DeclaredNamespace.kind := by
        rw [get?_linking, Option.map_map]
        rfl
      have inside (l : Linking) := body_linking r (fullName :: nesting) (some ⟨fullName, kind⟩) body
        { l with imports := l.imports.push }
      dsimp only
      rw [known]
      split
      · cases superclass with
        | none =>
          have inside := inside l
          dsimp only [linking] at inside ⊢
          rw [inside]
        | some path =>
          have inside := inside (l.superclass r nesting fullName kind path span)
          dsimp only
          rw [superclass_linking]
          dsimp only [linking] at inside ⊢
          rw [inside]
      · rfl
  | «using» _ entries => exact V.use_linking l r nesting entries
  | «include» span paths =>
    rcases owner with _ | ⟨fullName, kind⟩
    · rfl
    · exact ite_linking V (foldl_hom V.linking (V.includeMixin_linking r nesting fullName span)) rfl
  | ivar span name =>
    rcases owner with _ | ⟨fullName, kind⟩
    · rfl
    · exact ite_linking V (V.declareIvars_linking l fullName [name] span) rfl
  | «attribute» span _ entries =>
    rcases owner with _ | ⟨fullName, kind⟩
    · rfl
    · exact ite_linking V (V.declareIvars_linking l fullName _ span) rfl
  | singleton _ body =>
    rcases owner with _ | ⟨fullName, kind⟩
    · rfl
    · exact ite_linking V rfl (V.singleton_linking l r nesting fullName body)
  | _ => rfl

theorem body_linking (r : Registry) (nesting : List String) (owner : Option Owner) :
    ∀ (ss : List Stmt) (l : Linking),
      linkBody r nesting owner (mapStmts V.span ss) (V.linking l) =
        V.linking (linkBody r nesting owner ss l)
  | [], _ => rfl
  | s :: rest, l => by
    rw [mapStmts, linkBody, linkBody, stmt_linking r nesting owner s l,
      body_linking r nesting owner rest]

end

theorem superclassSpan_declaration :
    (V.declaration ns).superclassSpan.getD (V.declaration ns).span =
      V.span (ns.superclassSpan.getD ns.span) := by
  simp only [declaration]
  cases ns.superclassSpan <;> rfl

theorem cutCycle_linking (l : Linking) (fullName : String) :
    cutCycle r (V.linking l) fullName =
      V.linking (cutCycle r l fullName) := by
  have chain : superclassOf? (V.linking l).declared r = superclassOf? l.declared r :=
    V.superclassOf?_declared _ _
  have size : (V.linking l).declared.namespaces.size = l.declared.namespaces.size := rfl
  unfold cutCycle
  rw [get?_linking, chain, size]
  cases l.declared.get? fullName with
  | none => rfl
  | some ns =>
    dsimp only [map_some]
    rw [superclassSpan_declaration]
    split
    · rw [← fail_linking]
      refine congrArg (Linking.fail · _ _) (V.modify_linking (fun ns => ?_) l fullName)
      rfl
    · rfl

theorem withDefaultSuperclass_declaration :
    (V.declaration ns).withDefaultSuperclass = V.declaration ns.withDefaultSuperclass := by
  unfold DeclaredNamespace.withDefaultSuperclass
  by_cases bare : ns.kind = .class ∧ ns.superclass = none
  · rw [if_pos bare]
    exact if_pos bare
  · rw [if_neg bare]
    exact if_neg bare

theorem link (r : Registry) (ss : List Stmt) (c : Collection) :
    StackCode.link r (mapStmts V.span ss) (V.collection c) =
      V.collection (StackCode.link r ss c) := by
  have linked := V.body_linking r [rootName] none ss ⟨c.declared, c.issues, .empty⟩
  unfold StackCode.link
  dsimp only [linking, collection] at linked ⊢
  rw [linked]
  generalize linkBody r [rootName] none ss ⟨c.declared, c.issues, .empty⟩ = l
  have classes : ((V.declared l.declared).namespaces.toValues.filter (·.kind = .class)).map
      DeclaredNamespace.fullName =
        (l.declared.namespaces.toValues.filter (·.kind = .class)).map
          DeclaredNamespace.fullName := by
    rw [declared, toValues_map, List.filter_map, List.map_map]
    rfl
  dsimp only
  rw [classes]
  generalize (l.declared.namespaces.toValues.filter (·.kind = .class)).map
    DeclaredNamespace.fullName = names
  have cutAll : names.foldl (cutCycle r) (V.linking l) = _ :=
    foldl_hom V.linking (V.cutCycle_linking r)
  dsimp only [linking] at cutAll
  rw [cutAll]
  generalize List.foldl _ l _ = cut
  have defaults : ((cut.declared.namespaces.map V.declaration).map
      DeclaredNamespace.withDefaultSuperclass) =
        (cut.declared.namespaces.map DeclaredNamespace.withDefaultSuperclass).map
          V.declaration := by
    apply OrderedMap.ext
    · rfl
    · intro k
      simp only [get?_map, Option.map_map]
      congr 1
      funext ns
      exact V.withDefaultSuperclass_declaration ns
  dsimp only [declared]
  rw [defaults]

/-! ## Layouts -/

theorem contributionsTo_declaration :
    (V.declaration ns).contributionsTo singleton =
      (ns.contributionsTo singleton).map V.contribution := by
  unfold DeclaredNamespace.contributionsTo
  cases singleton with
  | false => rfl
  | true => simp [declaration, contribution]

theorem addContribution_contribution {m : Type → Type} [Monad m] (mixinTable : String → m NameTable)
    (table : NameTable) (c : Contribution) :
    addContribution mixinTable table (V.contribution c) = addContribution mixinTable table c := by
  cases c <;> rfl

theorem tableOf?_declared (depth : Nat) :
    tableOf? (V.declared d) r singleton depth = tableOf? d r singleton depth := by
  induction depth with
  | zero => rfl
  | succ depth ih =>
    funext visiting fullName
    rw [tableOf?, tableOf?, get?_declared]
    cases d.get? fullName with
    | none => rfl
    | some ns =>
      have start : ∀ (table : String → StateT Tables Option NameTable) (registered : NameTable),
          startTable table registered (V.declaration ns) = startTable table registered ns :=
        fun _ _ => rfl
      dsimp only [map_some]
      simp only [ih, start, contributionsTo_declaration, foldlM_map, addContribution_contribution]

/-- What is laid out, as the view shows it. -/
def layingOut (l : LayingOut) : LayingOut := ⟨l.layouts, V.issues l.issues⟩

theorem checkFrozen_issues (issues : Array Issue) :
    LayingOut.checkFrozen r (V.declaration ns) (V.span span) (V.issues issues) =
      V.issues (LayingOut.checkFrozen r ns span issues) := by
  have name : (V.declaration ns).fullName = ns.fullName := rfl
  have known : (V.declaration ns).registered = ns.registered := rfl
  unfold LayingOut.checkFrozen
  rw [name, known]
  split
  · cases r.subclasses ns.fullName with
    | nil => rfl
    | cons subclass rest => exact (V.issues_push_failure _ _ _).symm
  · rfl

theorem firstDeclared_declaration :
    LayingOut.firstDeclared (V.declaration ns) singleton =
      V.span (LayingOut.firstDeclared ns singleton) := by
  unfold LayingOut.firstDeclared
  rw [contributionsTo_declaration]
  generalize ns.contributionsTo singleton = contributions
  induction contributions with
  | nil => rfl
  | cons c rest ih =>
    cases c with
    | «include» mixin => exact ih
    | declare name span => rfl

theorem layOutTable_declared (ns : DeclaredNamespace) (l : LayingOut) :
    LayingOut.layOutTable (V.declared d) r singleton (V.declaration ns) (V.layingOut l) =
      V.layingOut (LayingOut.layOutTable d r singleton ns l) := by
  have depth : layoutDepth (V.declared d) = layoutDepth d := rfl
  have name : (V.declaration ns).fullName = ns.fullName := rfl
  have layouts : (V.layingOut l).layouts = l.layouts := rfl
  unfold LayingOut.layOutTable
  rw [tableOf?_declared, depth, name, layouts, firstDeclared_declaration]
  dsimp only
  generalize StateT.run _ _ = made
  rcases made with _ | ⟨⟨table, base⟩, tables⟩
  · rfl
  · dsimp only
    split
    · exact congrArg _ (V.checkFrozen_issues r ns _ l.issues)
    · rfl

theorem layOutNamespace_declared (l : LayingOut) (ns : DeclaredNamespace) :
    LayingOut.layOutNamespace (V.declared d) r (V.layingOut l) (V.declaration ns) =
      V.layingOut (LayingOut.layOutNamespace d r l ns) := by
  have kind : (V.declaration ns).kind = ns.kind := rfl
  unfold LayingOut.layOutNamespace
  rw [kind, layOutTable_declared]
  dsimp only
  split <;> split
  · rfl
  · rfl
  · exact V.layOutTable_declared d r true ns _
  · exact V.layOutTable_declared d r true ns l

theorem layOut (r : Registry) (d : Declared) (issues : Array Issue) :
    StackCode.layOut r (V.declared d) (V.issues issues) =
      V.layingOut (StackCode.layOut r d issues) := by
  unfold StackCode.layOut
  have start : (⟨.empty, V.issues issues⟩ : LayingOut) = V.layingOut ⟨.empty, issues⟩ := rfl
  have listed : (V.declared d).namespaces.toValues = d.namespaces.toValues.map V.declaration :=
    toValues_map _ _
  rw [listed, foldl_map, start]
  exact foldl_hom V.layingOut (V.layOutNamespace_declared d r)

/-! ## Publication -/

theorem ite_failure (c : Prop) [Decidable c] (failure : Failure) (span : Span) :
    (if c then some (.failure failure (V.span span)) else none) =
      (if c then some (Issue.failure failure span) else none).bind V.issue? := by
  split <;> rfl

theorem namespaceConflict?_declaration (base current : Registry) (layouts : Layouts)
    (ns : DeclaredNamespace) :
    namespaceConflict? base current layouts (V.declaration ns) =
      (namespaceConflict? base current layouts ns).bind V.issue? := by
  have name : (V.declaration ns).fullName = ns.fullName := rfl
  have kind : (V.declaration ns).kind = ns.kind := rfl
  have superclass : (V.declaration ns).superclass = ns.superclass := rfl
  have span : (V.declaration ns).span = V.span ns.span := rfl
  unfold namespaceConflict?
  rw [superclassSpan_declaration, name, kind, superclass, span]
  cases current.get? ns.fullName with
  | none => rfl
  | some now =>
    dsimp only
    split
    · rfl
    · split
      · rfl
      · cases ns.superclass with
        | none => exact V.ite_failure _ _ _
        | some ours =>
          cases now.superclass with
          | none => exact V.ite_failure _ _ _
          | some theirs =>
            dsimp only
            split
            · exact V.ite_failure _ _ _
            · rfl

theorem publishConflicts (base current : Registry) (d : Declared) (layouts : Layouts) :
    StackCode.publishConflicts base current (V.declared d) layouts =
      (StackCode.publishConflicts base current d layouts).filterMap V.issue? := by
  unfold StackCode.publishConflicts
  rw [declared, toValues_map, filterMap_map, filterMap_filterMap]
  congr 1
  funext ns
  exact V.namespaceConflict?_declaration base current layouts ns

theorem publishInto (base current : Registry) (d : Declared) (layouts : Layouts) :
    StackCode.publishInto base current (V.declared d) layouts =
      StackCode.publishInto base current d layouts := by
  unfold StackCode.publishInto
  rw [declared, toValues_map, foldl_map]
  rfl

end View

end StackCode
