import StackCode.Proofs.Loading

/-!
# Steps that change the functions under construction

The steps of the compilation that do more than add constants, each with what the text has for it:
a variable is declared, a name is resolved, a scope or a function of its own is compiled, and a
member is defined. These are followed state by state. Everything else that is compiled is put
together from them, by the rules of `Builds`.
-/

namespace StackCode

open List Option

variable {t : Progress} {s : CompileState} {α : Type} {l : Local} (env : Env)

theorem Env.live_declared (l : Local) : (env.declared l).live = l :: env.live := by
  obtain ⟨⟨isClosure, first, start, scopes⟩, outer⟩ := env
  cases scopes <;> rfl

theorem Tracks.denotes {env : Env} (tracks : Tracks s env t) (live : l ∈ env.live) {W : World}
    (le : worldOf s env t ≤ W) :
    W.Denotes env.live (.local l.slot) l := by
  have scopes := tracks.head.scopes
  have bounds := scopes.laid.slot_bounds live
  refine ⟨scopes.laid.find?_slot live, bounds.1, Nat.le_trans ?_ le.room⟩
  have := scopes.watermark
  have := scopes.highWater
  simp only [worldOf, ScopeStack.localCount]
  omega

theorem Gen.inScope_run (part : Env → Gen (α × Env)) (t : Progress) :
    Gen.inScope env part t =
      (((part env.enter t).1.1,
        ((part env.enter t).1.2.here.scopes.headD []).reverse.map
          (.close (part env.enter t).1.2.live),
        (((part env.enter t).1.2.here.scopes.headD []).reverse.filter
          (· ∈ (part env.enter t).2.mentions)).map (.close (part env.enter t).1.2.live)),
        (part env.enter t).2) :=
  rfl

/-- The function that is compiled for a part of the text begins here. -/
def Gen.nestedLevel (isClosure : Bool) (t : Progress) : Level :=
  ⟨isClosure, t.count, t.mentions.length, [[]]⟩

theorem Gen.nested_run (isClosure : Bool) (part : Env → Gen (Flow Op × Env)) (t : Progress) :
    Gen.nested env isClosure part t =
      (⟨(Gen.nestedLevel isClosure t).mentioned
          (part ⟨Gen.nestedLevel isClosure t, env.here :: env.outer⟩ t).2.mentions,
        (part ⟨Gen.nestedLevel isClosure t, env.here :: env.outer⟩ t).1.1⟩,
        (part ⟨Gen.nestedLevel isClosure t, env.here :: env.outer⟩ t).2) :=
  rfl

theorem Gen.mention_here {env : Env} {name : String} (here : env.here.find? name = some l)
    (t : Progress) :
    Gen.mention env name t = (some l, t) := by
  have resolved : env.here.resolve? name env.outer = some l := by
    cases env.outer <;> rw [Level.resolve?, here]
  unfold Gen.mention
  rw [here, resolved]
  rfl

theorem Gen.mention_elsewhere {env : Env} {name : String} (elsewhere : env.here.find? name = none)
    (t : Progress) :
    Gen.mention env name t = (env.here.resolve? name env.outer,
      { t with mentions := t.mentions ++ (env.here.resolve? name env.outer).toList }) := by
  unfold Gen.mention
  rw [elsewhere]
  rfl

theorem Tracks.denotes_of_keeps {env : Env} (tracks : Tracks s env t) {place : Place}
    (keeps : env.here.Keeps t.mentions place l) {W : World} (le : worldOf s env t ≤ W) :
    W.Denotes env.live place l ∧ place.Fits := by
  have head := tracks.head
  cases place with
  | «local» slot =>
    have live : l ∈ env.live := mem_of_find?_eq_some keeps
    have isSlot : l.slot = slot := by simpa using List.find?_some keeps
    subst isSlot
    refine ⟨tracks.denotes live le, ?_⟩
    have := (head.scopes.laid.slot_bounds live).2
    have := head.scopes.watermark
    have := head.scopes.highWater
    have := head.scopes.small
    show l.slot < 65536
    omega
  | upvalue index =>
    refine ⟨getElem?_of_begins le.captured keeps, ?_⟩
    have low := (List.getElem?_eq_some_iff.1 keeps).1
    have := head.captures.length_eq
    rw [CaptureList.length_sources] at this
    have := head.small
    show index < 65536
    omega

/-- A function under construction is complete. It has what the scheme of its text asks for, and
captures its variables from where the function around it keeps them. -/
structure CompleteFrame (W : World) (live : List Local) (isClosure : Bool) (frame : Frame)
    (scheme : Scheme) : Prop where
  pool : frame.pool.Ok
  small : frame.scopes.highWater ≤ 65536
  captures : List.Forall₂ (W.Denotes live) frame.captures.sources scheme.captured
  fit : ∀ place ∈ frame.captures.sources, place.Fits
  /-- Only closures capture. -/
  none : isClosure = false → scheme.captured = []

/-- What a complete function has. -/
def Frame.world (frame : Frame) (scheme : Scheme) : World :=
  ⟨frame.pool.values.toList, scheme.captured, frame.scopes.localCount⟩

/-! ## Places in other scopes and functions -/

namespace Tracks

variable {s : CompileState} {env : Env} {t : Progress}
variable {inner : Env} {t' : Progress}

theorem entered (tracks : Tracks s env t) : Tracks s.entered env.enter t :=
  ⟨.cons { tracks.head with scopes := tracks.head.scopes.enter } tracks.tail, tracks.noted,
    tracks.members, tracks.records⟩

theorem nested (tracks : Tracks s env t) (isClosure : Bool) (ivars : IvarAccess) :
    Tracks (s.nested isClosure ivars) ⟨Gen.nestedLevel isClosure t, env.here :: env.outer⟩ t := by
  have noCapture : (Gen.nestedLevel isClosure t).captured t.mentions = [] := by
    simp [Level.captured, Level.mentioned, Gen.nestedLevel]
  refine ⟨.cons ⟨rfl, .new, .new _, Nat.le_refl _, Nat.le_refl _, ?_, ?_, ?_, fun _ => noCapture⟩
    tracks.frames, tracks.noted, tracks.members, tracks.records⟩
  · intro l member
    simp [Level.locals, Gen.nestedLevel] at member
  · show Forall₂ _ [] ((Gen.nestedLevel isClosure t).captured t.mentions)
    rw [noCapture]
    exact .nil
  · exact Nat.zero_le _

theorem exists_scope (tracks : Tracks s inner t') (behind : env.enter.Extends inner) :
    ∃ first, inner.here.scopes = first :: env.here.scopes := by
  have tail : inner.here.scopes.tail = env.here.scopes := behind.scopes
  have opened := tracks.head.scopes.opened
  generalize inner.here.scopes = scopes at tail opened
  cases scopes with
  | nil => exact (opened rfl).elim
  | cons first _ => exact ⟨first, congrArg (first :: ·) tail⟩

theorem exited (tracks : Tracks s inner t') (behind : env.enter.Extends inner)
    (opened : env.here.scopes ≠ []) :
    Tracks s.exited env t' := by
  obtain ⟨first, scopes⟩ := tracks.exists_scope behind
  have stackOf := tracks.head.scopes
  rw [scopes] at stackOf
  obtain ⟨-, stackOf', -⟩ := stackOf.exit opened
  refine ⟨?_, tracks.noted, tracks.members, tracks.records⟩
  have outer : inner.outer = env.outer := behind.outer
  have isFirst : inner.here.first = env.here.first := behind.first
  have start : inner.here.start = env.here.start := behind.start
  have isClosure : inner.here.isClosure = env.here.isClosure := behind.isClosure
  have captured : inner.here.captured t'.mentions = env.here.captured t'.mentions :=
    behind.captured t'.mentions
  have head := tracks.head
  have tail := tracks.tail
  rw [outer] at head
  rw [outer, isFirst] at tail
  refine .cons ⟨head.isClosure.trans isClosure, head.pool, stackOf', start ▸ head.start,
    isFirst ▸ head.first, fun l member => ?_, captured ▸ head.captures, head.small, ?_⟩ tail
  · rw [← isFirst]
    exact head.own l (behind.locals.subset member)
  · rw [← isClosure, ← captured]
    exact head.none

theorem returned (tracks : Tracks s inner t') (outer : inner.outer = env.here :: env.outer)
    (imports : Imports) :
    Tracks (s.returned imports) env t' := by
  have head := tracks.head
  have tail := tracks.tail
  rw [outer] at head tail
  obtain ⟨issues, current, enclosing, members, records, _⟩ := s
  cases tail with
  | cons parentOf others =>
    exact ⟨.cons (parentOf.mono head.first) others, tracks.noted, tracks.members, tracks.records⟩

end Tracks

namespace Builds

variable {α β : Type} {env : Env} {P : World → Prop}

/-! ## Variables of the current function -/

theorem allocate {step : ScopeStack → Except Failure (Nat × ScopeStack)} {name : Option String}
    (allocates : ∀ s slot s', step s = .ok (slot, s') → ∃ text mutable hidden,
      s.allocate text mutable hidden = .ok (slot, s') ∧ name = if hidden then none else some text)
    (span : Span) :
    Builds env P (Compile.allocate step span) (Gen.declare env name) Prod.snd fun _ slot made =>
      slot = some made.1.slot ∧ made.1 ∈ made.2.live := by
  refine ⟨fun s before => ?_, fun s t tracks _ clean => ?_⟩
  · rw [Ensures.allocate_run]
    cases step s.current.scopes with
    | error failure => exact before.push _
    | ok result => exact before
  have ran := Ensures.allocate_run step span s
  cases found : step s.current.scopes with
  | error failure =>
    rw [ran, found] at clean
    exact (clean (failed_push_failure _ _ _)).elim
  | ok result =>
    obtain ⟨slot, scopes⟩ := result
    rw [found] at ran
    let l : Local := ⟨name, env.live.length + 1, t.count⟩
    have made : Compile.allocate step span s =
      (some slot, { s with current := { s.current with scopes := scopes } }) := ran
    have declared : Gen.declare env name t =
      ((l, env.declared l), { t with count := t.count + 1 }) := rfl
    obtain ⟨text, mutable, hidden, allocated, isName⟩ := allocates _ _ _ found
    have head := tracks.head
    have fresh : l ∉ t.mentions := fun noted => Nat.lt_irrefl _ (tracks.noted l noted)
    obtain ⟨isSlot, stackOf, high⟩ := head.scopes.allocate rfl isName fresh allocated
    have here := Env.Extends.declared env l
    rw [made, declared]
    refine ⟨⟨?_, fun l' noted => Nat.lt_succ_of_lt (tracks.noted l' noted), tracks.members,
        tracks.records⟩,
      ⟨.cons ⟨prefix_refl _, high⟩ (forall₂_same.2 fun frame _ => .refl frame), here,
        prefix_refl _⟩, fun _ _ => ⟨congrArg some isSlot, ?_⟩⟩
    · rw [here.outer]
      refine .cons ⟨?_, head.pool, stackOf, ?_, ?_, ?_, ?_, head.small, ?_⟩ ?_
      · rw [here.isClosure]
        exact head.isClosure
      · rw [here.start]
        exact head.start
      · rw [here.first]
        exact Nat.le_succ_of_le head.first
      · intro l' member
        rw [here.first]
        change l' ∈ (env.declared l).live at member
        rw [env.live_declared] at member
        rcases mem_cons.1 member with rfl | old
        · exact ⟨head.first, Nat.lt_succ_self _⟩
        · exact ⟨(head.own l' old).1, Nat.lt_succ_of_lt (head.own l' old).2⟩
      · rw [here.captured]
        exact head.captures
      · rw [here.captured, here.isClosure]
        exact head.none
      · rw [here.first]
        exact tracks.tail
    · rw [env.live_declared]
      exact mem_cons_self

theorem declareLocal (name : String) (mutable : Bool) (span : Span) :
    Builds env P (Compile.declareLocal name mutable span) (Gen.declare env (some name)) Prod.snd
      fun _ slot made => slot = some made.1.slot ∧ made.1 ∈ made.2.live := by
  refine allocate (fun s slot s' declared => ⟨name, mutable, false, ?_, rfl⟩) span
  unfold ScopeStack.declare at declared
  split at declared
  · exact declared
  · split at declared
    · cases declared
    · exact declared

theorem declareHidden (purpose : String) (span : Span) :
    Builds env P (Compile.declareHidden purpose span) (Gen.declare env none) Prod.snd
      fun _ slot made => slot = some made.1.slot ∧ made.1 ∈ made.2.live :=
  allocate (fun _ _ _ declared => ⟨purpose, false, true, declared, rfl⟩) span

theorem markInitialized (slot : Nat) :
    Quiet env P (Compile.markInitialized slot) fun _ _ => True where
  failed _ before := before
  holds _ _ tracks _ _ :=
    ⟨⟨.cons { tracks.head with scopes := tracks.head.scopes.markInitialized slot } tracks.tail,
      tracks.noted, tracks.members, tracks.records⟩,
      ⟨.cons ⟨prefix_refl _, Nat.le_refl _⟩ (forall₂_same.2 fun frame _ => .refl frame),
        .refl env, prefix_refl _⟩, fun _ _ => trivial⟩

theorem denotes {c : Compile α} {g : Gen β} {after : β → Env} {Q : World → α → β → Prop} {l : Local}
    (builds : Builds env (fun W => P W ∧ W.Denotes env.live (.local l.slot) l) c g after Q)
    (live : ∀ W, P W → l ∈ env.live) : Builds env P c g after Q :=
  ⟨builds.failed, fun s t tracks given => builds.holds s t tracks fun W le =>
    ⟨given W le, tracks.denotes (live W (given W le)) le⟩⟩

/-! ## Variables of any function -/

/-- **A name is resolved to the variable that it denotes.** Its place, in the current function, is
that of the variable. -/
theorem resolveVariable (name : String) (span : Span) :
    Builds env P (Compile.resolveVariable name span) (Gen.mention env name) (fun _ => env)
      fun W v found => ∀ v', v = some v' → ∃ l, found = some l ∧
        W.Denotes env.live v'.place l := by
  refine ⟨fun s => (@Ensures.resolveVariable_moves name span s true).failed,
    fun s t tracks _ clean => ?_⟩
  have made := Ensures.resolveVariable_run name span s
  rcases tracks.head.scopes.lookup? name with
    ⟨noBinding, noLocal⟩ | ⟨b, l, isBinding, isLocal, bindingOf⟩
  · change env.here.find? name = none at noLocal
    rw [noBinding] at made
    dsimp only at made
    have mentioned := Gen.mention_elsewhere noLocal t
    rcases tracks.frames.finds noLocal with
      ⟨unresolved, notFound⟩ | ⟨l, resolved, before, ⟨failure, failed⟩ |
        ⟨v, index, isFound, isPlace, isCaptured, framesOf, same⟩⟩
    · have unchanged : Ensures.withCaptured name s = s := by
        rw [Ensures.withCaptured, notFound]
      rw [notFound, unchanged] at made
      rw [unresolved, toList_none, append_nil] at mentioned
      rw [made, mentioned]
      exact ⟨tracks, .refl s env t, nofun⟩
    · rw [made, failed] at clean
      exact (clean (failed_push_failure _ _ _)).elim
    · rw [isFound] at made
      rw [resolved, toList_some] at mentioned
      rw [made, mentioned]
      refine ⟨⟨framesOf, fun l' noted => ?_, tracks.members, tracks.records⟩,
        ⟨same.imp fun _ _ => .of_same, .refl env, prefix_append _ _⟩, fun W le => ?_⟩
      · rcases mem_append.1 noted with old | new
        · exact tracks.noted l' old
        · rw [mem_singleton.1 new]
          exact Nat.lt_of_lt_of_le before tracks.head.first
      · rintro _ ⟨⟩
        refine ⟨l, rfl, ?_⟩
        rw [isPlace]
        exact getElem?_of_begins le.captured isCaptured
  · change env.here.find? name = some l at isLocal
    rw [isBinding] at made
    dsimp only at made
    have live : l ∈ env.live := mem_of_find?_eq_some isLocal
    rw [made, Gen.mention_here isLocal]
    refine ⟨tracks, .refl s env t, fun W le => ?_⟩
    rintro _ ⟨⟩
    refine ⟨l, rfl, ?_⟩
    show W.Denotes env.live (.local b.slot) l
    rw [bindingOf.slot]
    exact tracks.denotes live le

/-! ## Scopes -/

theorem chain_close (live : List Local) (locals : List Local) :
    Chain Op.effect 0 (locals.map (.close live)) 0 := by
  induction locals with
  | nil => rfl
  | cons l rest ih => exact Chain.append (.one (Nat.le_refl _) rfl) ih

/-- **A scope of its own.** What is visible behind it is what was visible before it. -/
theorem withScope {body : Compile α} {part : Env → Gen (β × Env)} {Q : World → α → β → Prop}
    (span : Span) (made : Builds env.enter P body (part env.enter) Prod.snd fun W a b =>
      Q W a b.1) :
    Builds env P (Compile.withScope span body) (Gen.inScope env part) (fun _ => env)
      fun W a b => Q W a.1 b.1 ∧ Forall₂ (Encoded W) b.2.2 a.2.instrs ∧
        Chain Op.effect 0 b.2.2 0 := by
  let closing (s : CompileState) : Compile Code :=
    Compile.closeSlots span s.current.scopes.exit.1.captured
  have closes (s : CompileState) :=
    Loads.closeSlots (P := fun _ => True) span s.current.scopes.exit.1.captured
  refine ⟨fun s before => ?_, fun s t tracks given clean => ?_⟩
  · rw [Compile.withScope_run]
    exact (closes _).failed _ (made.failed s.entered before)
  · rw [Compile.withScope_run] at clean ⊢
    have clean' : ¬Failed (body s.entered).2.issues := fun early =>
      clean ((closes _).failed _ early)
    obtain ⟨tracks', behind, isMade⟩ := made.holds s.entered t tracks.entered given clean'
    have ended := Gen.inScope_run env part t
    rw [ended]
    generalize body s.entered = outcome at *
    obtain ⟨a, s'⟩ := outcome
    generalize part env.enter t = found at *
    obtain ⟨⟨b, inner⟩, t'⟩ := found
    dsimp only at tracks' behind isMade clean clean' ⊢
    obtain ⟨first, scopes⟩ := tracks'.exists_scope behind.env
    have stackOf := tracks'.head.scopes
    rw [scopes] at stackOf
    obtain ⟨isCaptured, -, high⟩ := stackOf.exit tracks.head.scopes.opened
    -- Behind the scope the same is visible as before it.
    have outside := tracks'.exited behind.env tracks.head.scopes.opened
    have outsideBehind : Behind s env t s'.exited env t' := by
      refine ⟨?_, .refl env, behind.mentions⟩
      cases behind.frames with
      | cons current enclosing =>
        exact .cons ⟨current.pool, Nat.le_trans current.highWater (Nat.le_of_eq high.symm)⟩
          enclosing
    have quiet : Quiet env (fun _ => True) (closing s') _ :=
      quiet_of_loads (closes s') fun _ _ => trivial
    obtain ⟨tracks'', behind', isClosed⟩ :=
      quiet.holds s'.exited t' outside (fun _ _ => trivial) clean
    -- The world of the scope is one of those that the function may end with.
    have sameWorld : worldOf s' inner t' = worldOf s'.exited env t' := by
      have sameCaptured : inner.here.captured t'.mentions = env.here.captured t'.mentions :=
        behind.env.captured t'.mentions
      have sameRoom : s'.current.scopes.localCount = s'.exited.current.scopes.localCount :=
        congrArg (· - 1) high.symm
      simp only [worldOf, sameCaptured, sameRoom, CompileState.exited]
    have grown : worldOf s' inner t' ≤ worldOf (closing s' s'.exited).2 env t' := by
      rw [sameWorld]
      exact behind'.world outside.head.start
    refine ⟨⟨tracks''.frames, tracks''.noted, tracks''.members, tracks''.records⟩,
      ⟨(outsideBehind.trans behind').frames, .refl env, behind.mentions⟩, fun W le => ?_⟩
    have le' : worldOf (closing s' s'.exited).2 env t' ≤ W := le
    refine ⟨isMade W (World.le_trans grown le'), ?_, chain_close _ _⟩
    have closed := isClosed W le'
    rw [isCaptured] at closed
    rw [scopes]
    rw [forall₂_map_left_iff] at closed ⊢
    refine forall₂_imp_of_mem closed fun l member i _ closes => ?_
    obtain ⟨w, isSlot, rfl⟩ := closes
    refine .close ?_
    rw [isSlot]
    refine tracks'.denotes ?_ (World.le_trans grown le')
    have inFirst : l ∈ first := mem_reverse.1 (mem_filter.1 member).1
    show l ∈ inner.here.scopes.flatten
    rw [scopes]
    exact mem_append_left _ inFirst

/-! ## Functions of their own -/

/-- **A function of its own.** Behind it the function around it is compiled on, where the same is
visible as before. -/
theorem inFunction {body : Compile α} {part : Env → Gen (Flow Op × Env)}
    {Q : World → α → Flow Op → Prop} (isClosure : Bool) (ivars : IvarAccess)
    (made : ∀ inner, Builds inner (fun _ => True) body (part inner) Prod.snd fun W a b =>
      Q W a b.1) :
    Builds env P (Compile.inFunction isClosure ivars body) (Gen.nested env isClosure part)
      (fun _ => env) fun W a scheme => CompleteFrame W env.live isClosure a.2 scheme ∧
        ∀ W', a.2.world scheme ≤ W' → Q W' a.1 scheme.body := by
  let start (s : CompileState) : CompileState := s.nested isClosure ivars
  refine ⟨fun s before => (made env).failed (start s) before, fun s t tracks _ clean => ?_⟩
  let level := Gen.nestedLevel isClosure t
  let within : Env := ⟨level, env.here :: env.outer⟩
  have inside : Tracks (start s) within t := tracks.nested isClosure ivars
  rw [Compile.inFunction_run, Gen.nested_run]
  have clean' : ¬Failed (body (start s)).2.issues := clean
  obtain ⟨tracks', behind, isMade⟩ :=
    (made within).holds (start s) t inside (fun _ _ => trivial) clean'
  change Tracks _ (part within t).1.2 (part within t).2 at tracks'
  show Tracks ((body (start s)).2.returned s.imports) env (part within t).2 ∧
    Behind s env t ((body (start s)).2.returned s.imports) env (part within t).2 ∧
    ∀ W, worldOf ((body (start s)).2.returned s.imports) env (part within t).2 ≤ W →
      CompleteFrame W env.live isClosure (body (start s)).2.current
        ⟨level.mentioned (part within t).2.mentions, (part within t).1.1⟩ ∧ _
  generalize body (start s) = outcome at *
  obtain ⟨a, s'⟩ := outcome
  generalize part within t = found at *
  obtain ⟨⟨flow, inner⟩, t'⟩ := found
  dsimp only at tracks' behind isMade ⊢
  have outer : inner.outer = env.here :: env.outer := behind.env.outer
  have isClosure_eq : inner.here.isClosure = isClosure := behind.env.isClosure
  have captured : inner.here.captured t'.mentions = level.captured t'.mentions :=
    behind.env.captured t'.mentions
  have head := tracks'.head
  rw [outer] at head
  have around := tracks'.returned outer s.imports
  refine ⟨around, ⟨?_, .refl env, behind.mentions⟩, fun W le => ⟨⟨head.pool, head.scopes.small,
    ?_, fun place member => ?_, fun not => ?_⟩, fun W' le' => isMade W' ?_⟩⟩
  · cases behind.frames with
    | cons _ enclosing =>
      obtain ⟨issues, current, frames, members, records, imports⟩ := s'
      cases enclosing with
      | cons parent others => exact .cons parent others
  · show Forall₂ (W.Denotes env.live) _ (level.captured t'.mentions)
    rw [← captured]
    refine head.captures.imp fun place l kept => ?_
    obtain ⟨p, ⟨⟩, keeps⟩ := kept
    exact (around.denotes_of_keeps keeps le).1
  · obtain ⟨i, found⟩ := mem_iff_getElem?.1 member
    obtain ⟨l, -, p, ⟨⟩, keeps⟩ := getElem?_of_forall₂ head.captures found
    exact (around.denotes_of_keeps keeps le).2
  · show level.captured t'.mentions = []
    rw [← captured]
    exact head.none (isClosure_eq.trans not)
  · rw [worldOf, captured]
    exact le'

/-! ## Members -/

/-- **A definition of a member** is put behind the others. The current function stays as it is. -/
theorem inMembers {body : Compile Code} {operations : List Op} {known : Prop}
    (loads : LoadsAs (fun _ => known) body operations)
    (chain : Chain Op.effect 0 operations 0) (isKnown : ∀ W, P W → known) :
    Builds env P (Compile.inMembers body) (Gen.define operations) (fun _ => env)
      fun _ _ _ => True := by
  let back (code : Code) (s : CompileState) : CompileState :=
    { s.swapped with members := { s.swapped.members with code := s.members.code ++ code } }
  have run (s : CompileState) : Compile.inMembers body s =
      ((), back (body s.swapped).1 (body s.swapped).2) := rfl
  refine ⟨fun s before => loads.failed s.swapped before, fun s t tracks given clean => ?_⟩
  have members := tracks.members
  obtain ⟨loading, made⟩ := loads.holds s.swapped members.pool
    (fun _ _ => isKnown _ (given _ (World.le_refl _))) clean
  rw [run]
  generalize body s.swapped = outcome at *
  obtain ⟨code, s'⟩ := outcome
  have current : (back code s').current = s.current := by
    show { s'.current with pool := s'.members.pool } = s.current
    rw [loading.current, loading.members]
    rfl
  have enclosing : (back code s').enclosing = s.enclosing := loading.enclosing
  have before : s'.members.code = s.members.code := congrArg (·.code) loading.members
  show Tracks (back code s') env { t with members := t.members ++ operations } ∧
    Behind s env t (back code s') env { t with members := t.members ++ operations } ∧
    ∀ W, _ → True
  refine ⟨⟨?_, tracks.noted, ⟨loading.ok, fun values grown => ?_, members.chain.append chain⟩,
    loading.records.trans tracks.records⟩,
    ⟨?_, .refl env, prefix_refl _⟩, fun _ _ => trivial⟩
  · rw [current, enclosing]
    exact tracks.frames
  · show Loaded values _ (s'.members.code ++ code)
    rw [before]
    exact (members.loaded values (loading.grows.trans grown)).append (made values grown)
  · rw [current, enclosing]
    exact forall₂_same.2 fun frame _ => .refl frame

/-- **A namespace is noted** as the text has it. -/
theorem recordNamespace (record : NamespaceRecord) :
    Builds env P (Compile.recordNamespace record) (Gen.record record) (fun _ => env)
      fun _ _ _ => True := by
  let noted (s : CompileState) : CompileState :=
    if s.records.contains record.fullName then s
    else { s with records := s.records.insert record.fullName record }
  have issues (s : CompileState) : (noted s).issues = s.issues := by
    simp only [noted]
    split <;> rfl
  refine ⟨fun s before => ?_, fun s t tracks _ _ => ?_⟩
  · show Failed (noted s).issues
    rwa [issues]
  · show Tracks (noted s) env (if t.records.contains record.fullName then t
        else { t with records := t.records.insert record.fullName record }) ∧
      Behind s env t (noted s) env (if t.records.contains record.fullName then t
        else { t with records := t.records.insert record.fullName record }) ∧ ∀ W, _ → True
    simp only [noted, tracks.records]
    split
    · exact ⟨tracks, .refl s env t, fun _ _ => trivial⟩
    · exact ⟨⟨tracks.frames, tracks.noted, tracks.members, rfl⟩,
        ⟨forall₂_same.2 fun frame _ => .refl frame, .refl env, prefix_refl _⟩,
        fun _ _ => trivial⟩

end Builds

end StackCode
