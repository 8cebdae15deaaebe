import Mathlib.Data.List.Induction
import StackCode.Proofs.Pools
import StackCode.Proofs.Slots

/-!
# Functions under construction and the text around a place

While a unit is compiled there is a function for every function of the text around the place that
the compilation is at (`FramesOf`). It holds the visible variables of its level, and what it
captured so far are the variables of other levels that were mentioned in it, in the order of their
first mentions.

Looking for a variable in the functions around a closure finds the one that the name denotes, and
has every function on the way capture it (`FramesOf.finds`).
-/

namespace StackCode

open List CaptureList

/-! ## Lists without repetition -/

section EraseDups

variable {α : Type} [DecidableEq α]

theorem eraseDups_concat (as : List α) (a : α) :
    (as ++ [a]).eraseDups = if a ∈ as then as.eraseDups else as.eraseDups ++ [a] := by
  rw [eraseDups_append]
  by_cases member : a ∈ as
  · simp [List.removeAll, member]
  · simp [List.removeAll, member, eraseDups_cons]

theorem nodup_eraseDups (as : List α) : as.eraseDups.Nodup := by
  induction as using List.reverseRecOn with
  | nil => exact .nil
  | append_singleton as b ih =>
    rw [eraseDups_concat]
    split
    · exact ih
    · rename_i fresh
      refine nodup_append.2 ⟨ih, pairwise_singleton _ b, fun a member c other => ?_⟩
      rw [mem_singleton] at other
      rintro rfl
      exact fresh (mem_eraseDups.1 (other ▸ member))

end EraseDups

/-! ## What a level captures -/

namespace Level

variable {level : Level} {mentions : List Local} {l : Local}

/-- The variables that a level captures. -/
def captured (level : Level) (mentions : List Local) : List Local :=
  (level.mentioned mentions).eraseDups

theorem captured_concat (start : level.start ≤ mentions.length) (other : l.id < level.first) :
    level.captured (mentions ++ [l]) = if l ∈ level.captured mentions then level.captured mentions
      else level.captured mentions ++ [l] := by
  simp only [captured, mem_eraseDups]
  rw [← eraseDups_concat, mentioned, mentioned, drop_append_of_le_length start,
    filter_append, filter_cons_of_pos (by simpa using other), filter_nil]

theorem captured_concat_own (start : level.start ≤ mentions.length) (own : level.first ≤ l.id) :
    level.captured (mentions ++ [l]) = level.captured mentions := by
  rw [captured, captured, mentioned, mentioned, drop_append_of_le_length start,
    filter_append, filter_cons_of_neg (by simpa using own), filter_nil,
    append_nil]

theorem captured_prefix (start : level.start ≤ mentions.length) (more : List Local) :
    level.captured mentions <+: level.captured (mentions ++ more) := by
  rw [captured, captured, mentioned, mentioned, drop_append_of_le_length start,
    filter_append, eraseDups_append]
  exact prefix_append _ _

theorem captured_mono {mentions' : List Local} (start : level.start ≤ mentions.length)
    (grows : mentions <+: mentions') : level.captured mentions <+: level.captured mentions' := by
  obtain ⟨more, rfl⟩ := grows
  exact captured_prefix start more

theorem id_lt_of_mem_captured (member : l ∈ level.captured mentions) : l.id < level.first := by
  rw [captured, mem_eraseDups, mentioned, mem_filter] at member
  simpa using member.2

/-- Where a level keeps a variable. -/
def Keeps (level : Level) (mentions : List Local) : Place → Local → Prop
  | .local slot, l => level.locals.find? (·.slot = slot) = some l
  | .upvalue index, l => (level.captured mentions)[index]? = some l

theorem Keeps.mono {mentions' : List Local} {place : Place} (keeps : level.Keeps mentions place l)
    (grows : level.captured mentions <+: level.captured mentions') :
    level.Keeps mentions' place l := by
  cases place with
  | «local» slot => exact keeps
  | upvalue index => exact getElem?_of_begins grows keeps

theorem Keeps.functional {place : Place} {l' : Local} (keeps : level.Keeps mentions place l)
    (keeps' : level.Keeps mentions place l') : l = l' := by
  cases place with
  | «local» slot => exact Option.some.inj (keeps.symm.trans keeps')
  | upvalue index => exact Option.some.inj (keeps.symm.trans keeps')

theorem Keeps.injective {place place' : Place} (own : ∀ l ∈ level.locals, level.first ≤ l.id)
    (keeps : level.Keeps mentions place l) (keeps' : level.Keeps mentions place' l) :
    place = place' := by
  -- A captured variable is declared before the function, and one of its own is not.
  have apart {slot index : Nat} (isLocal : level.Keeps mentions (.local slot) l)
      (isUpvalue : level.Keeps mentions (.upvalue index) l) : False := by
    have early := id_lt_of_mem_captured (mem_of_getElem? isUpvalue)
    have late := own l (mem_of_find?_eq_some isLocal)
    omega
  cases place with
  | «local» slot =>
    cases place' with
    | «local» slot' =>
      have here := List.find?_some keeps
      have there := List.find?_some keeps'
      simp only [decide_eq_true_eq] at here there
      rw [← here, ← there]
    | upvalue index => exact (apart keeps keeps').elim
  | upvalue index =>
    cases place' with
    | «local» slot => exact (apart keeps' keeps).elim
    | upvalue index' =>
      have low := (List.getElem?_eq_some_iff.1 keeps).1
      rw [(List.getElem?_inj low (nodup_eraseDups _)).1 (keeps.trans keeps'.symm)]

end Level

theorem getElem?_of_forall₂ {α β : Type} {R : α → β → Prop} {as : List α} {bs : List β}
    (related : Forall₂ R as bs) {i : Nat} {a : α} (found : as[i]? = some a) :
    ∃ b, bs[i]? = some b ∧ R a b := by
  induction related generalizing i with
  | nil => simp at found
  | cons first _ ih =>
    cases i with
    | zero =>
      cases found
      exact ⟨_, rfl, first⟩
    | succ i => exact ih found

/-! ## Lists of captured variables -/

namespace CaptureList

theorem length_sources (l : CaptureList) : l.sources.length = l.size := by
  simp [sources, size]

theorem capture_cases (l : CaptureList) (name : String) (place : Place) (mutable : Bool) :
    (∃ index, l.sources[index]? = some place ∧ l.capture name place mutable = .ok (index, l)) ∨
      place ∉ l.sources ∧ ((∃ failure, l.capture name place mutable = .error failure) ∨
        ∃ l', l.capture name place mutable = .ok (l.size, l') ∧ l.size < 65536 ∧
          l'.sources = l.sources ++ [place]) := by
  unfold capture
  cases found : l.captures.findIdx? (·.source = place) with
  | some index =>
    obtain ⟨low, isSource, -⟩ := Array.findIdx?_eq_some_iff_getElem.1 found
    refine .inl ⟨index, ?_, rfl⟩
    simpa [sources, low] using isSource
  | none =>
    refine .inr ⟨?_, ?_⟩
    · rw [Array.findIdx?_eq_none_iff] at found
      intro member
      obtain ⟨c, inside, isSource⟩ := List.mem_map.1 member
      simpa [isSource] using found c (Array.mem_toList_iff.1 inside)
    · dsimp only
      split
      · exact .inl ⟨_, rfl⟩
      · rename_i room
        unfold maxCapture at room
        exact .inr ⟨_, rfl, by omega, by simp [sources]⟩

end CaptureList

/-! ## Functions and levels -/

/-- Where the function around a function keeps a variable. There may be none. -/
def KeptIn (parent : Option Level) (mentions : List Local) (place : Place) (l : Local) : Prop :=
  ∃ level ∈ parent, level.Keeps mentions place l

/-- A function that is being compiled is that of a level. `bound` is above all variables that were
declared so far in the function and not in one inside it. -/
structure FrameOf (mentions : List Local) (bound : Nat) (parent : Option Level) (frame : Frame)
    (level : Level) : Prop where
  isClosure : frame.isClosure = level.isClosure
  pool : frame.pool.Ok
  scopes : StackOf mentions frame.scopes level.scopes
  start : level.start ≤ mentions.length
  first : level.first ≤ bound
  own : ∀ l ∈ level.locals, level.first ≤ l.id ∧ l.id < bound
  captures : List.Forall₂ (KeptIn parent mentions) frame.captures.sources (level.captured mentions)
  small : frame.captures.size ≤ 65536
  /-- Only closures capture. -/
  none : level.isClosure = false → level.captured mentions = []

/-- The functions that are being compiled are those of the levels around a place. -/
inductive FramesOf (mentions : List Local) : Nat → List Frame → List Level → Prop where
  | nil {bound : Nat} : FramesOf mentions bound [] []
  | cons {bound : Nat} {frame : Frame} {frames : List Frame} {level : Level}
      {levels : List Level} (head : FrameOf mentions bound levels.head? frame level)
      (tail : FramesOf mentions level.first frames levels) :
      FramesOf mentions bound (frame :: frames) (level :: levels)

/-- A function has the pool and the room that it had. -/
structure Frame.Same (frame frame' : Frame) : Prop where
  pool : frame'.pool = frame.pool
  highWater : frame'.scopes.highWater = frame.scopes.highWater

namespace FrameOf

variable {mentions : List Local} {bound : Nat} {parent : Option Level} {frame : Frame}
  {level : Level} {l : Local}

section

variable (frameOf : FrameOf mentions bound parent frame level)

include frameOf

theorem mono {bound' : Nat}
    (le : bound ≤ bound') : FrameOf mentions bound' parent frame level :=
  { frameOf with
    first := Nat.le_trans frameOf.first le
    own := fun l member => ⟨(frameOf.own l member).1,
      Nat.lt_of_lt_of_le (frameOf.own l member).2 le⟩ }

theorem mention (parentStart : ∀ p ∈ parent, p.start ≤ mentions.length)
    (inside : level.first ≤ l.id)
    {scopes : ScopeStack} (marked : StackOf (mentions ++ [l]) scopes level.scopes) :
    FrameOf (mentions ++ [l]) bound parent { frame with scopes } level := by
  have same := level.captured_concat_own frameOf.start inside
  refine { frameOf with
    scopes := marked
    start := by simp; exact Nat.le_succ_of_le frameOf.start
    captures := ?_
    none := by rw [same]; exact frameOf.none }
  rw [same]
  refine frameOf.captures.imp fun place l' kept => ?_
  obtain ⟨p, isParent, keeps⟩ := kept
  exact ⟨p, isParent, keeps.mono (p.captured_prefix (parentStart p isParent) _)⟩

theorem mention_later (parentStart : ∀ p ∈ parent, p.start ≤ mentions.length)
    (later : bound ≤ l.id) :
    FrameOf (mentions ++ [l]) bound parent frame level := by
  refine frameOf.mention parentStart (Nat.le_trans frameOf.first later)
    (frameOf.scopes.mono fun l' member => ?_)
  have other : l' ≠ l := by
    rintro rfl
    have := (frameOf.own l' member).2
    omega
  rw [mem_append, mem_singleton, or_iff_left other]

theorem mention_own (parentStart : ∀ p ∈ parent, p.start ≤ mentions.length)
    (member : l ∈ level.locals) :
    FrameOf (mentions ++ [l]) bound parent
      { frame with scopes := frame.scopes.markCaptured l.slot } level :=
  frameOf.mention parentStart (frameOf.own l member).1 (frameOf.scopes.markCaptured member)

end

/-- **One more variable is captured**, from where the function around keeps it. -/
theorem capture {p : Level} (frameOf : FrameOf mentions bound (some p) frame level)
    (closure : level.isClosure = true) (parentStart : p.start ≤ mentions.length)
    (parentOwn : ∀ l ∈ p.locals, p.first ≤ l.id) (before : l.id < level.first) {outer : Variable}
    (kept : p.Keeps (mentions ++ [l]) outer.place l) (name : String) :
    (∃ failure, (frame.capture name outer).1 = .error failure) ∨
      ∃ v index, (frame.capture name outer).1 = .ok (some v) ∧ v.place = .upvalue index ∧
        (level.captured (mentions ++ [l]))[index]? = some l ∧
        FrameOf (mentions ++ [l]) bound (some p) (frame.capture name outer).2 level ∧
        frame.Same (frame.capture name outer).2 := by
  -- What was captured is still kept where it was.
  have captures : Forall₂ (KeptIn (some p) (mentions ++ [l])) frame.captures.sources
      (level.captured mentions) := by
    refine frameOf.captures.imp fun place l' kept => ?_
    obtain ⟨p', ⟨⟩, keeps⟩ := kept
    exact ⟨p, rfl, keeps.mono (p.captured_prefix parentStart _)⟩
  have scopes : StackOf (mentions ++ [l]) frame.scopes level.scopes := by
    refine frameOf.scopes.mono fun l' member => ?_
    have other : l' ≠ l := by
      rintro rfl
      have := (frameOf.own l' member).1
      omega
    rw [mem_append, mem_singleton, or_iff_left other]
  have start : level.start ≤ (mentions ++ [l]).length := by
    rw [length_append]
    exact Nat.le_add_right_of_le frameOf.start
  have grown := level.captured_concat frameOf.start before
  have finish {captures' : CaptureList} (small : captures'.size ≤ 65536)
      (sources : Forall₂ (KeptIn (some p) (mentions ++ [l])) captures'.sources
        (level.captured (mentions ++ [l]))) :
      FrameOf (mentions ++ [l]) bound (some p) { frame with captures := captures' } level :=
    { frameOf with
      scopes, start, captures := sources, small
      none := fun not => Bool.noConfusion (closure.symm.trans not) }
  unfold Frame.capture
  rcases frame.captures.capture_cases name outer.place outer.mutable with
    ⟨index, isSource, captured⟩ | ⟨missing,
      ⟨failure, failed⟩ | ⟨captures', captured, room, sources⟩⟩
  · rw [captured]
    -- The source is there, so the variable is.
    obtain ⟨l', isLocal, p', ⟨⟩, keeps⟩ := getElem?_of_forall₂ captures isSource
    cases keeps.functional kept
    rw [if_pos (mem_of_getElem? isLocal)] at grown
    refine .inr ⟨_, index, rfl, rfl, by rw [grown]; exact isLocal, ?_, ⟨rfl, rfl⟩⟩
    exact finish frameOf.small (by rw [grown]; exact captures)
  · rw [failed]
    exact .inl ⟨failure, rfl⟩
  · rw [captured]
    -- The source is not there, so the variable is not: it is kept in one place only.
    have fresh : l ∉ level.captured mentions := by
      intro member
      obtain ⟨place, inside, p', ⟨⟩, keeps⟩ := exists_of_forall₂ captures member
      exact missing (Level.Keeps.injective parentOwn keeps kept ▸ inside)
    rw [if_neg fresh] at grown
    have size : frame.captures.size = (level.captured mentions).length := by
      rw [← captures.length_eq, length_sources]
    refine .inr ⟨_, frame.captures.size, rfl, rfl, ?_, finish ?_ ?_, ⟨rfl, rfl⟩⟩
    · rw [grown, size, List.getElem?_concat_length]
    · rw [← length_sources, sources, length_append, length_sources]
      exact room
    · rw [grown, sources]
      exact rel_append captures (.cons ⟨p, rfl, kept⟩ .nil)

end FrameOf

namespace FramesOf

variable {mentions : List Local} {bound : Nat} {frames : List Frame} {levels : List Level}
  {l : Local}

theorem start_of_head? (framesOf : FramesOf mentions bound frames levels) :
    ∀ p ∈ levels.head?, p.start ≤ mentions.length := by
  rintro p isHead
  cases framesOf with
  | nil => cases isHead
  | cons head _ =>
    cases isHead
    exact head.start

theorem mention_later (framesOf : FramesOf mentions bound frames levels) (later : bound ≤ l.id) :
    FramesOf (mentions ++ [l]) bound frames levels := by
  induction framesOf with
  | nil => exact .nil
  | cons head tail ih =>
    exact .cons (head.mention_later tail.start_of_head? later) (ih (Nat.le_trans head.first later))

/-- **Looking in the functions around a closure finds the variable that a name denotes**, and has
every function on the way capture it. The name is not that of a variable of the closure. -/
theorem finds {name : String} {frame : Frame} {here : Level}
    (framesOf : FramesOf mentions bound (frame :: frames) (here :: levels))
    (elsewhere : here.find? name = none) :
    here.resolve? name levels = none ∧
        findUpvalue name frame frames = (.ok none, frame, frames) ∨
      ∃ l, here.resolve? name levels = some l ∧ l.id < here.first ∧
        ((∃ failure, (findUpvalue name frame frames).1 = .error failure) ∨
          ∃ v index, (findUpvalue name frame frames).1 = .ok (some v) ∧
            v.place = .upvalue index ∧ (here.captured (mentions ++ [l]))[index]? = some l ∧
            FramesOf (mentions ++ [l]) bound ((findUpvalue name frame frames).2.1 ::
              (findUpvalue name frame frames).2.2) (here :: levels) ∧
            Forall₂ Frame.Same (frame :: frames)
              ((findUpvalue name frame frames).2.1 ::
                (findUpvalue name frame frames).2.2)) := by
  induction frames generalizing bound frame here levels with
  | nil =>
    cases framesOf with
    | cons head tail =>
      cases tail
      exact .inl ⟨by rw [Level.resolve?, elsewhere], rfl⟩
  | cons parent frames ih =>
    cases framesOf with
    | cons head tail =>
      cases tail with
      | @cons _ _ _ p levels parentOf outer =>
        have parentOwn : ∀ l ∈ p.locals, p.first ≤ l.id := fun l member =>
          (parentOf.own l member).1
        rw [Level.resolve?, elsewhere, findUpvalue, head.isClosure]
        cases closure : here.isClosure with
        | false => exact .inl ⟨rfl, rfl⟩
        | true =>
          simp only [if_true]
          rcases parentOf.scopes.lookup? name with
            ⟨noBinding, noLocal⟩ | ⟨b, l, isBinding, isLocal, bindingOf⟩
          · -- The function around captures the variable first, if there is one.
            change p.find? name = none at noLocal
            rw [noBinding]
            dsimp only
            rcases ih (.cons parentOf outer) noLocal with
              ⟨unresolved, notFound⟩ | ⟨l, resolved, before, ⟨failure, failed⟩ |
                ⟨v, index, isFound, isPlace, captured, framesOf, same⟩⟩
            · rw [notFound]
              exact .inl ⟨unresolved, rfl⟩
            · generalize findUpvalue name parent frames = found at failed ⊢
              obtain ⟨found, parent', frames'⟩ := found
              cases failed
              exact .inr ⟨l, resolved, Nat.lt_of_lt_of_le before parentOf.first,
                .inl ⟨failure, rfl⟩⟩
            · generalize findUpvalue name parent frames = found at isFound framesOf same ⊢
              obtain ⟨found, parent', frames'⟩ := found
              cases isFound
              refine .inr ⟨l, resolved, Nat.lt_of_lt_of_le before parentOf.first, ?_⟩
              have kept : p.Keeps (mentions ++ [l]) v.place l := by
                rw [isPlace]
                exact captured
              rcases head.capture closure parentOf.start parentOwn
                (Nat.lt_of_lt_of_le before parentOf.first) kept name with
                ⟨failure, failed⟩ | ⟨v', index', isFound, isPlace', captured', frameOf, same'⟩
              · exact .inl ⟨failure, failed⟩
              · exact .inr ⟨v', index', isFound, isPlace', captured', .cons frameOf framesOf,
                  .cons same' same⟩
          · -- The function around declares the variable.
            change p.find? name = some l at isLocal
            have member : l ∈ p.locals := mem_of_find?_eq_some isLocal
            have resolved : p.resolve? name levels = some l := by
              cases levels <;> rw [Level.resolve?, isLocal]
            rw [isBinding]
            dsimp only
            refine .inr ⟨l, resolved, (parentOf.own l member).2, ?_⟩
            have kept : p.Keeps (mentions ++ [l]) (Variable.ofBinding b).place l := by
              show p.locals.find? (·.slot = b.slot) = some l
              rw [bindingOf.slot]
              exact parentOf.scopes.laid.find?_slot member
            rcases head.capture closure parentOf.start parentOwn (parentOf.own l member).2 kept
              name with ⟨failure, failed⟩ | ⟨v, index, isFound, isPlace, captured, frameOf, same⟩
            · exact .inl ⟨failure, failed⟩
            · have parentOf' := parentOf.mention_own outer.start_of_head? member
              rw [← bindingOf.slot] at parentOf'
              refine .inr ⟨v, index, isFound, isPlace, captured, .cons frameOf (.cons parentOf' ?_),
                .cons same (.cons ⟨rfl, rfl⟩ (forall₂_same.2 fun _ _ => ⟨rfl, rfl⟩))⟩
              exact outer.mention_later (parentOwn l member)

end FramesOf

end StackCode
