import StackCode.Proofs.Emission
import StackCode.Proofs.Frames

/-!
# Following the text while it is compiled

`Builds env P c g after Q` is said of a step `c` of the compilation and the way `g` through the same
part of the text, at a place where `env` is visible. Both start from states that agree (`Tracks`)
and, unless there is a failure, end in states that agree, where `after` is visible; and `Q` holds of
what they make. `P` and `Q` are said of every world that the function may end with.

Steps that only add constants are said to load (`Loads`), in the current function or among the
definitions of members.
-/

namespace StackCode

open List

/-! ## States that agree -/

/-- The world of the current function, as it is so far. -/
def worldOf (s : CompileState) (env : Env) (t : Progress) : World :=
  ⟨s.current.pool.values.toList, env.here.captured t.mentions, s.current.scopes.localCount⟩

/-- Code that loads constants is that of some operations, whatever else the function has. -/
def Loaded (values : List Value) (operations : List Op) (code : Code) : Prop :=
  ∀ captured room, List.Forall₂ (Encoded ⟨values, captured, room⟩) operations code.instrs

/-- The definitions of members are those of the text. -/
structure MembersOf (members : MemberDefinitions) (operations : List Op) : Prop where
  pool : members.pool.Ok
  loaded : ∀ values, members.pool.values.toList <+: values → Loaded values operations members.code
  chain : Chain Op.effect 0 operations 0

/-- The state of the compilation is that of a place in the text. -/
structure Tracks (s : CompileState) (env : Env) (t : Progress) : Prop where
  frames : FramesOf t.mentions t.count (s.current :: s.enclosing) (env.here :: env.outer)
  noted : ∀ l ∈ t.mentions, l.id < t.count
  members : MembersOf s.members t.members
  records : s.records = t.records

namespace Tracks

variable {s : CompileState} {env : Env} {t : Progress}

theorem head (tracks : Tracks s env t) :
    FrameOf t.mentions t.count env.outer.head? s.current env.here := by
  cases tracks.frames with
  | cons head _ => exact head

theorem tail (tracks : Tracks s env t) :
    FramesOf t.mentions env.here.first s.enclosing env.outer := by
  cases tracks.frames with
  | cons _ tail => exact tail

end Tracks

/-- A place behind another one in the same scope. -/
structure Env.Extends (env env' : Env) : Prop where
  outer : env'.outer = env.outer
  isClosure : env'.here.isClosure = env.here.isClosure
  first : env'.here.first = env.here.first
  start : env'.here.start = env.here.start
  scopes : env'.here.scopes.tail = env.here.scopes.tail
  locals : env.here.locals <:+ env'.here.locals

namespace Env.Extends

theorem refl (env : Env) : env.Extends env := ⟨rfl, rfl, rfl, rfl, rfl, suffix_refl _⟩

theorem trans {env env' env'' : Env} (one : env.Extends env') (two : env'.Extends env'') :
    env.Extends env'' where
  outer := two.outer.trans one.outer
  isClosure := two.isClosure.trans one.isClosure
  first := two.first.trans one.first
  start := two.start.trans one.start
  scopes := two.scopes.trans one.scopes
  locals := one.locals.trans two.locals

theorem captured {env env' : Env} (extends' : env.Extends env') (mentions : List Local) :
    env'.here.captured mentions = env.here.captured mentions := by
  rw [Level.captured, Level.captured, Level.mentioned, Level.mentioned, extends'.first,
    extends'.start]

theorem live {env env' : Env} (extends' : env.Extends env') {l : Local} (member : l ∈ env.live) :
    l ∈ env'.live :=
  extends'.locals.subset member

theorem declared (env : Env) (l : Local) : env.Extends (env.declared l) := by
  obtain ⟨⟨isClosure, first, start, scopes⟩, outer⟩ := env
  cases scopes with
  | nil => exact ⟨rfl, rfl, rfl, rfl, rfl, suffix_cons _ _⟩
  | cons scope scopes => exact ⟨rfl, rfl, rfl, rfl, rfl, suffix_cons _ _⟩

end Env.Extends

/-- A function has all that it had. -/
structure Frame.Grows (frame frame' : Frame) : Prop where
  pool : frame.pool.values.toList <+: frame'.pool.values.toList
  highWater : frame.scopes.highWater ≤ frame'.scopes.highWater

namespace Frame.Grows

theorem refl (frame : Frame) : frame.Grows frame := ⟨prefix_refl _, Nat.le_refl _⟩

theorem trans {frame frame' frame'' : Frame} (one : frame.Grows frame')
    (two : frame'.Grows frame'') : frame.Grows frame'' :=
  ⟨one.pool.trans two.pool, Nat.le_trans one.highWater two.highWater⟩

theorem of_same {frame frame' : Frame} (same : frame.Same frame') : frame.Grows frame' :=
  ⟨same.pool ▸ prefix_refl _, Nat.le_of_eq same.highWater.symm⟩

end Frame.Grows

/-- One state comes behind another in the same function. -/
structure Behind (s : CompileState) (env : Env) (t : Progress) (s' : CompileState) (env' : Env)
    (t' : Progress) : Prop where
  frames : List.Forall₂ Frame.Grows (s.current :: s.enclosing) (s'.current :: s'.enclosing)
  env : env.Extends env'
  mentions : t.mentions <+: t'.mentions

namespace Behind

variable {s s' s'' : CompileState} {env env' env'' : Env} {t t' t'' : Progress}

theorem refl (s : CompileState) (env : Env) (t : Progress) : Behind s env t s env t :=
  ⟨forall₂_same.2 fun frame _ => .refl frame, .refl env, prefix_refl _⟩

theorem trans (one : Behind s env t s' env' t') (two : Behind s' env' t' s'' env'' t'') :
    Behind s env t s'' env'' t'' :=
  ⟨forall₂_trans .trans one.frames two.frames, one.env.trans two.env,
    one.mentions.trans two.mentions⟩

theorem world (behind : Behind s env t s' env' t') (start : env.here.start ≤ t.mentions.length) :
    worldOf s env t ≤ worldOf s' env' t' := by
  cases behind.frames with
  | cons current _ =>
    refine ⟨current.pool, ?_, Nat.sub_le_sub_right current.highWater 1⟩
    show env.here.captured t.mentions <+: env'.here.captured t'.mentions
    rw [behind.env.captured]
    exact Level.captured_mono start behind.mentions

end Behind

/-! ## Loading constants -/

/-- A step changed nothing but the pool of the current function, and kept what was there. -/
structure Loading (s s' : CompileState) : Prop where
  current : s'.current = { s.current with pool := s'.current.pool }
  enclosing : s'.enclosing = s.enclosing
  members : s'.members = s.members
  records : s'.records = s.records
  ok : s'.current.pool.Ok
  grows : s.current.pool.values.toList <+: s'.current.pool.values.toList

namespace Loading

theorem refl {s : CompileState} (ok : s.current.pool.Ok) : Loading s s :=
  ⟨rfl, rfl, rfl, rfl, ok, prefix_refl _⟩

theorem trans {s s' s'' : CompileState} (one : Loading s s') (two : Loading s' s'') :
    Loading s s'' where
  current := by
    rw [two.current, one.current]
  enclosing := two.enclosing.trans one.enclosing
  members := two.members.trans one.members
  records := two.records.trans one.records
  ok := two.ok
  grows := one.grows.trans two.grows

end Loading

theorem Tracks.loading {s s' : CompileState} {env : Env} {t : Progress} (tracks : Tracks s env t)
    (loading : Loading s s') : Tracks s' env t := by
  refine ⟨?_, tracks.noted, ?_, loading.records.trans tracks.records⟩
  · rw [loading.enclosing, loading.current]
    exact .cons { tracks.head with pool := loading.ok } tracks.tail
  · rw [loading.members]
    exact tracks.members

/-- Given `P`, and unless there is a failure, a step only adds constants, and makes what it should.
Both are said of the entries that the pool has in the end. -/
structure Loads {α : Type} (P : List Value → Prop) (c : Compile α) (Q : List Value → α → Prop) :
    Prop where
  failed : ∀ s : CompileState, Failed s.issues → Failed (c s).2.issues
  holds : ∀ s : CompileState, s.current.pool.Ok →
    (∀ values, s.current.pool.values.toList <+: values → P values) → ¬Failed (c s).2.issues →
    Loading s (c s).2 ∧ ∀ values, (c s).2.current.pool.values.toList <+: values → Q values (c s).1

/-- A step makes code that loads constants and does operations with them. -/
abbrev LoadsAs (P : List Value → Prop) (c : Compile Code) (operations : List Op) : Prop :=
  Loads P c fun values code => Loaded values operations code

namespace Loads

variable {α β : Type} {P : List Value → Prop} {Q : List Value → α → Prop}
  {Q' : List Value → β → Prop} {c : Compile α} {f : α → Compile β}

theorem pure {a : α} (made : ∀ values, P values → Q values a) : Loads P (Pure.pure a) Q :=
  ⟨fun _ failed => failed, fun _ ok given _ => ⟨.refl ok, fun values grown =>
    made values (given values grown)⟩⟩

theorem bind (first : Loads P c Q)
    (second : ∀ a, Loads (fun values => P values ∧ Q values a) (f a) Q') :
    Loads P (c >>= f) Q' where
  failed s before := (second _).failed _ (first.failed s before)
  holds s ok given clean := by
    obtain ⟨loading, made⟩ := first.holds s ok given fun early => clean ((second _).failed _ early)
    obtain ⟨loading', made'⟩ := (second _).holds _ loading.ok
      (fun values grown => ⟨given values (loading.grows.trans grown), made values grown⟩) clean
    exact ⟨loading.trans loading', made'⟩

theorem imp {Q'' : List Value → α → Prop} (loads : Loads P c Q)
    (weaker : ∀ values a, P values → Q values a → Q'' values a) : Loads P c Q'' where
  failed := loads.failed
  holds s ok given clean := by
    obtain ⟨loading, made⟩ := loads.holds s ok given clean
    exact ⟨loading, fun values grown =>
      weaker values _ (given values (loading.grows.trans grown)) (made values grown)⟩

theorem pre {P' : List Value → Prop} (loads : Loads P' c Q)
    (stronger : ∀ values, P values → P' values) : Loads P c Q :=
  ⟨loads.failed, fun s ok given => loads.holds s ok fun values grown =>
    stronger values (given values grown)⟩

theorem get_bind {f : CompileState → Compile β} (rest : ∀ s, Loads P (f s) Q') :
    Loads P (get >>= f) Q' :=
  ⟨fun s => (rest s).failed s, fun s => (rest s).holds s⟩

theorem modifyState {change : CompileState → CompileState}
    (issues : ∀ s, (change s).issues = s.issues) (current : ∀ s, (change s).current = s.current)
    (enclosing : ∀ s, (change s).enclosing = s.enclosing)
    (members : ∀ s, (change s).members = s.members)
    (records : ∀ s, (change s).records = s.records) :
    Loads P (modify change : Compile Unit) fun _ _ => True where
  failed s before := by
    show Failed (change s).issues
    rwa [issues]
  holds s ok _ _ := by
    have same : (change s).current = s.current := current s
    refine ⟨⟨?_, enclosing s, members s, records s, ?_, ?_⟩, fun _ _ => trivial⟩
    · show (change s).current = { s.current with pool := (change s).current.pool }
      rw [same]
    · show (change s).current.pool.Ok
      rwa [same]
    · show _ <+: (change s).current.pool.values.toList
      exact same ▸ prefix_refl _

/-! ### Reports -/

theorem report (issue : Issue) : Loads P (Compile.report issue) fun _ _ => True :=
  ⟨fun _ failed => failed.push issue, fun _ ok _ _ =>
    ⟨⟨rfl, rfl, rfl, rfl, ok, prefix_refl _⟩, fun _ _ => trivial⟩⟩

theorem fail (failure : Failure) (span : Span) :
    Loads P (Compile.fail failure span) fun _ _ => False :=
  ⟨fun _ failed => failed.push _, fun _ _ _ clean => (clean (failed_push_failure _ _ _)).elim⟩

theorem checkDeclaration (site : Site) (declaration : Declaration) (span : Span) :
    Loads P (Compile.checkDeclaration site declaration span) fun _ legal => legal = true := by
  unfold Compile.checkDeclaration
  split
  · exact pure fun _ _ => rfl
  · exact (fail _ _).bind fun _ => pure fun _ never => never.2.elim

theorem warnUnused (site : Site) (span : Span) :
    Loads P (Compile.warnUnused site span) fun _ _ => True := by
  unfold Compile.warnUnused
  split
  · exact report _
  · exact pure fun _ _ => trivial

theorem warnUnreachable (site : Site) (span : Span) :
    Loads P (Compile.warnUnreachable site span) fun _ _ => True := by
  unfold Compile.warnUnreachable
  split
  · exact report _
  · exact pure fun _ _ => trivial

theorem failAll (failures : List Failure) (span : Span) :
    Loads P (Compile.failAll failures span) fun _ _ => True := by
  unfold Compile.failAll
  induction failures generalizing P with
  | nil => exact pure fun _ _ => trivial
  | cons failure rest ih =>
    rw [List.forM_eq_forM, forM_cons]
    exact (fail failure span).bind fun _ => ih

/-! ### Constants -/

theorem addConstant {value : Value} (span : Span)
    (sound : ∀ values, P values → ∀ g, value = .function g → ∀ h ∈ g.walk, h.Sound) :
    Loads P (Compile.addConstant value span) fun values index =>
      values[index.toNat]? = some value where
  failed s := (@Ensures.addConstant_moves true value span s).failed
  holds s ok given clean := by
    rcases Ensures.addConstant_run value span s with ⟨i, isIndex, run⟩ | ⟨_, reported⟩
    · obtain ⟨ok', grows, small, there⟩ := ok.add (sound _ (given _ (prefix_refl _))) isIndex
      rw [run]
      refine ⟨⟨rfl, rfl, rfl, rfl, ok', grows⟩, fun values grown => ?_⟩
      rw [UInt16.toNat_ofNat_of_lt' small]
      exact getElem?_of_begins grown there
    · rw [reported] at clean
      exact (clean (failed_push_failure _ _ _)).elim

end Loads

/-! ## Steps along the text -/

/-- Given `P`, and unless there is a failure, a step follows the text, and makes what it should. -/
structure Builds {α β : Type} (env : Env) (P : World → Prop) (c : Compile α) (g : Gen β)
    (after : β → Env) (Q : World → α → β → Prop) : Prop where
  failed : ∀ s : CompileState, Failed s.issues → Failed (c s).2.issues
  holds : ∀ (s : CompileState) (t : Progress), Tracks s env t →
    (∀ W, worldOf s env t ≤ W → P W) → ¬Failed (c s).2.issues →
    Tracks (c s).2 (after (g t).1) (g t).2 ∧
      Behind s env t (c s).2 (after (g t).1) (g t).2 ∧
      ∀ W, worldOf (c s).2 (after (g t).1) (g t).2 ≤ W → Q W (c s).1 (g t).1

/-- A step that the text has nothing for. -/
abbrev Quiet {α : Type} (env : Env) (P : World → Prop) (c : Compile α) (Q : World → α → Prop) :
    Prop :=
  Builds env P c (Pure.pure ()) (fun _ => env) fun W a _ => Q W a

namespace Builds

variable {α β γ δ : Type} {env : Env} {P : World → Prop} {c : Compile α} {f : α → Compile γ}
  {g : Gen β} {h : β → Gen δ} {after : β → Env} {after' : δ → Env} {Q : World → α → β → Prop}
  {Q' : World → γ → δ → Prop}

/-! ### Rules -/

theorem pure {a : α} {b : β} (here : after b = env) (made : ∀ W, P W → Q W a b) :
    Builds env P (Pure.pure a) (Pure.pure b) after Q where
  failed _ failed := failed
  holds s t tracks given _ := by
    show Tracks s (after b) t ∧ Behind s env t s (after b) t ∧
      ∀ W, worldOf s (after b) t ≤ W → Q W a b
    rw [here]
    exact ⟨tracks, .refl s env t, fun W le => made W (given W le)⟩

theorem bind (first : Builds env P c g after Q)
    (second : ∀ a b, Builds (after b) (fun W => P W ∧ env.Extends (after b) ∧ Q W a b) (f a) (h b)
      after' Q') :
    Builds env P (c >>= f) (g >>= h) after' Q' where
  failed s before := (second (c s).1 (g .start).1).failed _ (first.failed s before)
  holds s t tracks given clean := by
    obtain ⟨tracks', behind, made⟩ := first.holds s t tracks given fun early =>
      clean ((second _ (g t).1).failed _ early)
    have grown := behind.world tracks.head.start
    obtain ⟨tracks'', behind', made'⟩ := (second _ (g t).1).holds _ _ tracks' (fun W le =>
      ⟨given W (World.le_trans grown le), behind.env, made W le⟩) clean
    exact ⟨tracks'', behind.trans behind', made'⟩

theorem seq (first : Builds env P c g (fun _ => env) Q)
    (second : ∀ a b, Builds env (fun W => P W ∧ Q W a b) (f a) (h b) after' Q') :
    Builds env P (c >>= f) (g >>= h) after' Q' := by
  refine first.bind fun a b => ⟨(second a b).failed, fun s t tracks given => ?_⟩
  exact (second a b).holds s t tracks fun W le => ⟨(given W le).1, (given W le).2.2⟩

theorem step {Q : World → α → Prop} {g : Gen δ} (first : Quiet env P c Q)
    (second : ∀ a, Builds env (fun W => P W ∧ Q W a) (f a) g after' Q') :
    Builds env P (c >>= f) g after' Q' := by
  have same : g = (Pure.pure () >>= fun _ => g) := rfl
  rw [same]
  exact first.seq fun a _ => second a

theorem imp {Q'' : World → α → β → Prop} (builds : Builds env P c g after Q)
    (weaker : ∀ W a b, P W → Q W a b → Q'' W a b) : Builds env P c g after Q'' where
  failed := builds.failed
  holds s t tracks given clean := by
    obtain ⟨tracks', behind, made⟩ := builds.holds s t tracks given clean
    have grown := behind.world tracks.head.start
    exact ⟨tracks', behind, fun W le =>
      weaker W _ _ (given W (World.le_trans grown le)) (made W le)⟩

theorem pre {P' : World → Prop} (builds : Builds env P' c g after Q)
    (stronger : ∀ W, P W → P' W) : Builds env P c g after Q :=
  ⟨builds.failed, fun s t tracks given => builds.holds s t tracks fun W le =>
    stronger W (given W le)⟩

theorem absurd (failed : ∀ s : CompileState, Failed s.issues → Failed (c s).2.issues)
    (never : ∀ W, ¬P W) : Builds env P c g after Q :=
  ⟨failed, fun _ _ _ given => (never _ (given _ (World.le_refl _))).elim⟩

theorem branch {condition : Prop} [Decidable condition] {c' : Compile α}
    (yes : Builds env P c g after Q) (no : Builds env P c' g after Q) :
    Builds env P (if condition then c else c') g after Q := by
  split
  · exact yes
  · exact no

theorem get_bind {f : CompileState → Compile γ} {g : Gen δ}
    (rest : ∀ s, Builds env P (f s) g after' Q') : Builds env P (get >>= f) g after' Q' :=
  ⟨fun s => (rest s).failed s, fun s => (rest s).holds s⟩

theorem quiet_of_loads {P₀ : List Value → Prop} {Q₀ : List Value → α → Prop}
    (loads : Loads P₀ c Q₀) (stronger : ∀ W, P W → P₀ W.pool) :
    Quiet env P c fun W a => Q₀ W.pool a where
  failed := loads.failed
  holds s t tracks given clean := by
    have given₀ : ∀ values, s.current.pool.values.toList <+: values → P₀ values := by
      intro values grown
      exact stronger ⟨values, _, _⟩ (given _ ⟨grown, prefix_refl _, Nat.le_refl _⟩)
    obtain ⟨loading, made⟩ := loads.holds s tracks.head.pool given₀ clean
    refine ⟨tracks.loading loading, ⟨?_, .refl env, prefix_refl _⟩, fun W le => made W.pool le.pool⟩
    · rw [loading.enclosing, loading.current]
      exact .cons ⟨loading.grows, Nat.le_refl _⟩ (forall₂_same.2 fun frame _ => .refl frame)

theorem load {Q₀ : List Value → α → Prop} {g : Gen δ} (loads : Loads (fun _ => True) c Q₀)
    (rest : ∀ a, Builds env (fun W => P W ∧ Q₀ W.pool a) (f a) g after' Q') :
    Builds env P (c >>= f) g after' Q' :=
  (quiet_of_loads loads fun _ _ => trivial).step rest

theorem fail {failure : Failure} {span : Span} {f : Unit → Compile γ} {g : Gen δ}
    (failed : ∀ s : CompileState, Failed s.issues → Failed (f () s).2.issues) :
    Builds env P (Compile.fail failure span >>= f) g after' Q' :=
  load (Loads.fail failure span) fun _ => absurd failed fun _ never => never.2

theorem failIf {condition : Prop} [Decidable condition] {failure : Failure} {span : Span}
    {next : Unit → Compile γ} {g : Gen δ} (rest : Builds env P (next ()) g after' Q') :
    Builds env P (if condition then do let r ← Compile.fail failure span; next r else next ()) g
      after' Q' := by
  split
  · exact fail rest.failed
  · exact rest

end Builds

end StackCode
