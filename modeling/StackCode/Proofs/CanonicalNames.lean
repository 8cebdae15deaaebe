import StackCode.Proofs.PathText
import StackCode.Proofs.Precedence
import StackCode.Proofs.PublishedViews

/-!
# Canonical names

A full name can be come by in many ways. It is canonical: the absolute path of its segments leads to
the same constant, whatever is imported and wherever one is.

That holds because what can be seen is rooted (`Lookup.Rooted`): whatever there is, other than the
root, is a member of a namespace that is there too, and its name is a proper segment. A unit puts
what it declares into namespaces that it knows, so both what the unit sees and the registry after
its publication are rooted again (`Declared.Filed.rooted`).
-/

namespace StackCode

open List Option Registry

/-! ## Segments -/

theorem toList_fullNameBelow (start : String) (segments : List String) :
    (fullNameBelow start segments).toList =
      start.toList ++ behindSeparators (segments.map String.toList) := by
  induction segments generalizing start with
  | nil => simp [fullNameBelow, behindSeparators]
  | cons segment rest ih =>
    rw [fullNameBelow, foldl_cons, ← fullNameBelow, ih]
    simp [memberName, separator, behindSeparators]

theorem splitSegments_fullNameBelow {start : String} {segments : List String}
    (plain : ∀ segment ∈ start :: segments, ':' ∉ segment.toList) :
    splitSegments (fullNameBelow start segments).toList [] =
      (start :: segments).map String.toList := by
  rw [toList_fullNameBelow]
  exact (Cut.of_plain (List.forall_mem_map.2 plain)).splitSegments

theorem segments_parse_fullNameBelow {segments : List String}
    (proper : ∀ segment ∈ segments, IsSegment segment) :
    (Path.parse (fullNameBelow rootName segments)).segments = rootName :: segments := by
  have kept : (segments.map String.toList).filter (!·.isEmpty) = segments.map String.toList := by
    refine filter_eq_self.2 fun piece member => ?_
    obtain ⟨segment, isSegment, rfl⟩ := List.mem_map.1 member
    simpa using (proper segment isSegment).1
  rw [Path.parse, splitSegments_fullNameBelow (forall_mem_cons.2 ⟨by decide, fun segment member =>
    (proper segment member).2⟩), map_cons, filter_cons_of_pos (by decide), kept, map_cons,
    List.map_map]
  simp

/-! ## What is closed under parents -/

namespace Lookup

/-- A name is that of a namespace. -/
def IsNamespace (lookup : Lookup) (n : String) : Prop := ∃ kind, lookup n = some (.namespace kind)

/-- Whatever there is, other than the root, is a member of a namespace that is there too. -/
structure Rooted (lookup : Lookup) : Prop where
  root : lookup.IsNamespace rootName
  parent : ∀ n, (lookup n).isSome → n = rootName ∨
    ∃ parent name, n = memberName parent name ∧ IsSegment name ∧ lookup.IsNamespace parent

variable {lookup : Lookup}

theorem IsNamespace.isSome {n : String} (isNamespace : lookup.IsNamespace n) :
    (lookup n).isSome := by
  obtain ⟨kind, found⟩ := isNamespace
  rw [found]
  rfl

/-- **A full name that is seen is made of segments**, and above it there are namespaces only. -/
theorem Rooted.exists_segments (rooted : lookup.Rooted) (n : String) (there : (lookup n).isSome) :
    ∃ segments, n = fullNameBelow rootName segments ∧ (∀ segment ∈ segments, IsSegment segment) ∧
      ∀ above, above <+: segments → above ≠ segments →
        lookup.IsNamespace (fullNameBelow rootName above) := by
  induction size : n.length using Nat.strongRecOn generalizing n with | ind bound ih
  rcases rooted.parent n there with rfl | ⟨parent, name, rfl, proper, isNamespace⟩
  · refine ⟨[], rfl, by simp, fun above early other => ?_⟩
    exact absurd (prefix_nil.1 early) other
  · have shorter : parent.length < bound := by
      rw [← size, memberName, String.length_append, String.length_append, show separator.length =
        2 from rfl]
      omega
    obtain ⟨segments, rfl, properParents, namespaces⟩ := ih _ shorter parent isNamespace.isSome rfl
    refine ⟨segments ++ [name], ?_, ?_, fun above early other => ?_⟩
    · rw [fullNameBelow, fullNameBelow, foldl_append]
      rfl
    · simpa [or_imp, forall_and, proper] using properParents
    · have earlier := (prefix_concat_iff.1 early).resolve_left other
      by_cases same : above = segments
      · rwa [same]
      · exact namespaces above earlier same

theorem resolve_segments {segments : List String}
    (there : (lookup (fullNameBelow rootName segments)).isSome)
    (namespaces : ∀ above, above <+: segments → above ≠ segments →
      lookup.IsNamespace (fullNameBelow rootName above)) (imports : Imports)
        (nesting : List String) :
    resolve imports nesting lookup ⟨segments, true⟩ = .ok (fullNameBelow rootName segments) := by
  cases segments with
  | nil => rfl
  | cons head rest =>
    have has : lookup.HasPath (memberName rootName head) rest := by
      intro steps early
      by_cases same : steps = rest
      · rwa [same]
      · exact (namespaces (head :: steps) (cons_prefix_cons.2 ⟨rfl, early⟩)
          (by simpa using same)).isSome
    rw [resolve_absolute, descend_eq_some_iff.2 ⟨has, rfl⟩]
    rfl

end Lookup

/-! ## Declarations -/

/-- The names of the constants and namespaces that a unit declares. -/
def Program.declaredNames (p : Program) : List String :=
  p.declaredConstants ++ p.declaredNamespaces

namespace Declared.Filed

variable {r : Registry} {names spaces : List String} {d : Declared}

theorem place (filed : d.Filed r names spaces) {n : String}
    (own : (d.get? n).isSome ∨ d.constants.contains n = true) :
    (r.get? n).isSome ∨ d.Placed r (· ∈ names ++ spaces) n := by
  rcases own with there | listed
  · cases missing : r.get? n with
    | some info => exact .inl rfl
    | none =>
      obtain ⟨-, parent, name, isName, named, rest⟩ := filed.opened n there missing
      exact .inr ⟨parent, name, isName, mem_append_right names named, rest⟩
  · obtain ⟨-, -, parent, name, isName, named, rest⟩ := filed.constant n listed
    exact .inr ⟨parent, name, isName, mem_append_left spaces named, rest⟩

/-- **With the declarations of a unit, what can be seen is still rooted.** It has to contain what
was seen before, and the namespaces that the unit knows, and nothing but that and what the unit
declares. -/
theorem rooted (filed : d.Filed r names spaces) (proper : ∀ name ∈ names ++ spaces, IsSegment name)
    {before after : Lookup} (early : before.Rooted)
    (registered : ∀ n, (r.get? n).isSome → (before n).isSome)
    (kept : ∀ n, before.IsNamespace n → after.IsNamespace n)
    (knows : ∀ n, d.Knows r n → after.IsNamespace n)
    (only : ∀ n, (after n).isSome →
      ((d.get? n).isSome ∨ d.constants.contains n = true) ∨ (before n).isSome) : after.Rooted := by
  refine ⟨kept _ early.root, fun n there => ?_⟩
  have old (seen : (before n).isSome) : n = rootName ∨
      ∃ parent name, n = memberName parent name ∧ IsSegment name ∧ after.IsNamespace parent := by
    rcases early.parent n seen with isRoot | ⟨parent, name, isName, isSegment, isNamespace⟩
    · exact .inl isRoot
    · exact .inr ⟨parent, name, isName, isSegment, kept parent isNamespace⟩
  rcases only n there with own | seen
  · rcases filed.place own with before | ⟨parent, name, isName, named, known, -⟩
    · exact old (registered n before)
    · exact .inr ⟨parent, name, isName, proper name named, knows parent known⟩
  · exact old seen

end Declared.Filed

namespace Registry

variable {r r' : Registry} {n : String}

theorem isNamespace_constant? : Lookup.IsNamespace r.constant? n ↔ (r.get? n).isSome := by
  unfold Lookup.IsNamespace
  simp [constant?_eq_namespace, isSome_iff_exists]

theorem Grown.isNamespace (grown : r.Grown r') (isNamespace : Lookup.IsNamespace r.constant? n) :
    Lookup.IsNamespace r'.constant? n :=
  isNamespace_constant?.2 (grown.isSome (isNamespace_constant?.1 isNamespace))

theorem rooted_prelude : Lookup.Rooted prelude.constant? := by
  have placed : ∀ entry ∈ prelude.namespaces.toList, entry.1 = rootName ∨
      (splitMember? entry.1).any
        (fun cut => decide (IsSegment cut.2) && (prelude.get? cut.1).isSome) := by
    decide +kernel
  have proper : ∀ entry ∈ prelude.namespaces.toList, ∀ x ∈ entry.2.members.names.toList,
      IsSegment x := by
    decide +kernel
  have listed {n : String} {info : NamespaceInfo} (found : prelude.get? n = some info) :
      (n, info) ∈ prelude.namespaces.toList :=
    Std.ExtTreeMap.mem_toList_iff_getElem?_eq_some.2 found
  refine ⟨isNamespace_constant?.2 (by decide +kernel), fun n there => ?_⟩
  obtain ⟨kind, stands⟩ := isSome_iff_exists.1 there
  cases kind with
  | «namespace» kind =>
    obtain ⟨info, found, -⟩ := constant?_eq_namespace.1 stands
    refine (placed _ (listed found)).imp_right fun isPlaced => ?_
    obtain ⟨⟨parent, name⟩, cut, holds⟩ := (Option.any_eq_true ..).1 isPlaced
    obtain ⟨isSegment, there⟩ := Bool.and_eq_true_iff.1 holds
    exact ⟨parent, name, eq_memberName_of_splitMember? cut, of_decide_eq_true isSegment,
      isNamespace_constant?.2 there⟩
  | value =>
    obtain ⟨-, parent, name, cut, info, found, member⟩ := constant?_eq_value.1 stands
    refine .inr ⟨parent, name, eq_memberName_of_splitMember? cut, ?_, ?_⟩
    · exact proper _ (listed found) name ((NameTable.contains_iff _ _).1 member)
    · exact isNamespace_constant?.2 (isSome_of_eq_some found)

end Registry

/-- What a unit sees when all that it declares is collected. -/
def Program.view (p : Program) (r : Registry) : Lookup :=
  (collect r p.statements).declared.lookup r

theorem Program.rooted_view {r : Registry} {p : Program}
    (proper : ∀ name ∈ p.declaredNames, IsSegment name) (rooted : Lookup.Rooted r.constant?) :
    (p.view r).Rooted := by
  have filed := filed_collect r p
  unfold view
  generalize (collect r p.statements).declared = d at filed ⊢
  have kept (n : String) (before : Lookup.IsNamespace r.constant? n) :
      Lookup.IsNamespace (d.lookup r) n := by
    cases found : d.get? n with
    | some ns => exact ⟨ns.kind, by rw [Declared.lookup, found]⟩
    | none =>
      obtain ⟨kind, registered⟩ := before
      refine ⟨kind, ?_⟩
      rw [Declared.lookup_of_undeclared found, if_neg, registered]
      intro listed
      cases registered.symm.trans (filed.constant n listed).1
  refine filed.rooted proper rooted (fun n => (isNamespace_constant?.2 · |>.isSome)) kept ?_ ?_
  · rintro n (rfl | here | before)
    · exact kept rootName rooted.root
    · obtain ⟨ns, found⟩ := isSome_iff_exists.1 here
      exact ⟨ns.kind, by rw [Declared.lookup, found]⟩
    · exact kept n (isNamespace_constant?.2 before)
  · intro n there
    cases found : d.get? n with
    | some ns => exact .inl (.inl rfl)
    | none =>
      rw [Declared.lookup_of_undeclared found] at there
      split at there
      · rename_i listed
        exact .inl (.inr listed)
      · exact .inr there

namespace Session

variable {s : Session} {e : Event}

/-- The names that the unit of an event declares are segments. -/
def ProperNames : Event → Prop
  | .take => True
  | .finish _ _ p => ∀ name ∈ p.declaredNames, IsSegment name

/-- **An event leaves the registry rooted.** -/
theorem rooted_step (lossless : s.Lossless) (proper : ProperNames e)
    (rooted : Lookup.Rooted s.live.constant?) : Lookup.Rooted (s.step e).live.constant? := by
  rcases s.step_cases e with ⟨base, p, publishes⟩ | ⟨live, -⟩
  · have publishable := publishes.publishable lossless.toGood
    have properNames : ∀ name ∈ p.declaredNames, IsSegment name := by
      cases publishes with
      | intro => exact proper
    have grown := (lossless.grown base publishes.mem_taken).2
    have grownLive := publishable.grown_publishInto
    have filed := p.filed_linked base
    rw [publishes.step_eq]
    refine filed.rooted properNames rooted
      (fun n before => (isNamespace_constant?.2 (grown.isSome before)).isSome)
      (fun n => grownLive.isNamespace) ?_ ?_
    · rintro n (rfl | here | before)
      · exact grownLive.isNamespace rooted.root
      · obtain ⟨ns, found⟩ := isSome_iff_exists.1 here
        exact ⟨ns.kind, publishable.constant?_declared found⟩
      · exact grownLive.isNamespace (isNamespace_constant?.2 (grown.isSome before))
    · intro n there
      cases found : (p.linked base).declared.get? n with
      | some ns => exact .inl (.inl rfl)
      | none =>
        cases listed : (p.linked base).declared.constants.contains n with
        | true => exact .inl (.inr rfl)
        | false => exact .inr (publishable.constant?_unseen filed found listed ▸ there)
  · rwa [live]

theorem rooted_run (lossless : s.Lossless) (events : List Event)
    (proper : ∀ e ∈ events, ProperNames e)
    (rooted : Lookup.Rooted s.live.constant?) : Lookup.Rooted (s.run events).live.constant? := by
  induction events generalizing s with
  | nil => exact rooted
  | cons e rest ih =>
    exact ih (lossless.step e) (fun other member => proper other (mem_cons_of_mem e member))
      (rooted_step lossless (proper e mem_cons_self) rooted)

/-- **Resolved names are canonical**: the absolute path of the segments behind the root leads to the
same full name from everywhere, and above it there are namespaces only. -/
theorem resolve_canonical {events : List Event} (properEvents : ∀ e ∈ events, ProperNames e)
    {p : Program} (proper : ∀ name ∈ p.declaredNames, IsSegment name)
    {imports : Imports} {nesting : List String} {path : Path} {full : String}
    (resolved : resolve imports nesting (p.view (start.run events).live) path = .ok full) :
    ∃ segments, (Path.parse full).segments = rootName :: segments ∧
      (∀ imports nesting,
        resolve imports nesting (p.view (start.run events).live) ⟨segments, true⟩ =
          .ok full) ∧
      ∀ above, above <+: segments → above ≠ segments →
        (p.view (start.run events).live).IsNamespace (fullNameBelow rootName above) := by
  have rooted := Program.rooted_view proper
    (rooted_run lossless_start events properEvents Registry.rooted_prelude)
  have there : (p.view (start.run events).live full).isSome := by
    have denotes := denotes_resolve imports nesting (p.view (start.run events).live) path
    rw [resolved] at denotes
    by_cases named : path.segments = []
    · obtain ⟨segments, absolute⟩ := path
      cases named
      cases resolved
      exact rooted.root.isSome
    · exact denotes.isSome named
  obtain ⟨segments, rfl, properSegments, namespaces⟩ := rooted.exists_segments full there
  exact ⟨segments, segments_parse_fullNameBelow properSegments,
    Lookup.resolve_segments there namespaces,
    namespaces⟩

/-- A constant of a class is found under another name of the module around it. -/
theorem resolve_canonical_renamed :
    ∃ events view imports, events = [Event.take, .finish 0 (.forFile "module") moduleUnit] ∧
      view = extendingUnit.view (start.run events).live ∧
      imports = (Imports.use [rootName] view [.constant ⟨["M"], false⟩ (some "X")] .empty).1 ∧
      (∀ e ∈ events, ProperNames e) ∧ (∀ name ∈ extendingUnit.declaredNames, IsSegment name) ∧
      resolve imports [rootName] view ⟨["X", "K", "C"], false⟩ = .ok "Root::M::K::C" ∧
      (∀ imports nesting, resolve imports nesting view ⟨["M", "K", "C"], true⟩ =
        .ok "Root::M::K::C") ∧
      view.IsNamespace "Root::M::K" := by
  have properEvents : ∀ e ∈ [Event.take, .finish 0 (.forFile "module") moduleUnit],
      ProperNames e := by
    have properModule : ∀ name ∈ moduleUnit.declaredNames, IsSegment name := by decide +kernel
    simpa [ProperNames] using properModule
  have proper : ∀ name ∈ extendingUnit.declaredNames, IsSegment name := by decide +kernel
  have resolved : resolve (Imports.use [rootName] (extendingUnit.view
        (start.run [Event.take, .finish 0 (.forFile "module") moduleUnit]).live)
        [.constant ⟨["M"], false⟩ (some "X")] .empty).1 [rootName]
      (extendingUnit.view (start.run [Event.take, .finish 0 (.forFile "module") moduleUnit]).live)
      ⟨["X", "K", "C"], false⟩ = .ok "Root::M::K::C" :=
    Except.eq_ok_of_toOption (by decide +kernel)
  obtain ⟨segments, isParsed, absolute, namespaces⟩ :=
    resolve_canonical properEvents proper resolved
  have parsed : (Path.parse "Root::M::K::C").segments = [rootName, "M", "K", "C"] := by
    decide +kernel
  cases isParsed.symm.trans parsed
  exact ⟨_, _, _, rfl, rfl, rfl, properEvents, proper, resolved, absolute,
    namespaces ["M", "K"] (by decide) (by decide)⟩

end Session

end StackCode
