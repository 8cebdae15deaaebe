import StackCode.Proofs.Encoding

/-!
# Pools and finished functions

Every function in a pool is sound: its instructions are the code of a scheme, in a world that is
read off the function itself. Adding a constant keeps that.
-/

namespace StackCode

/-! ## Finished functions -/

/-- A finished function has the code of a scheme, behind what makes room for variables. -/
structure Assembled (scheme : Scheme) (room instrs : List Instr) (f : CompiledFunction) : Prop where
  written : WrittenAs f.code (room ++ instrs)
  isRoom : room = [] ∨ ∃ i, room = [.indexed .prepLocals i]
  codes : ∀ n, Codes (Encoded (f.world scheme.captured)) n scheme.body instrs
  returns : scheme.body.Ends
  /-- The code is not left at its end. -/
  typed : ∀ stop, Typed Op.effect stop 0 scheme.body stop
  upvalues : f.upvalues = scheme.captured.length
  pool : PoolRight f.constants
  named : 0 < f.upvalues → f.name = "<closure>"

/-- A function has the code of some scheme. -/
def CompiledFunction.Sound (f : CompiledFunction) : Prop :=
  ∃ scheme room instrs, Assembled scheme room instrs f

namespace Codes

variable {W : World} {n : Nat} {flow : Flow Op} {instrs : List Instr} {i : Instr}

section

variable (codes : Codes (Encoded W) n flow instrs) (member : i ∈ instrs)

include codes member

theorem jump_or_encoded :
    (∃ kind distance, i = .jump kind distance) ∨ ∃ op ∈ flow.operations, Encoded W op i := by
  cases jumps : i.isJump with
  | true =>
    cases i <;> first | exact .inl ⟨_, _, rfl⟩ | cases jumps
  | false =>
    have straight := codes.straight fun op i encoded => (Encoded.sameEffect W op i encoded).1
    exact .inr (exists_of_forall₂ straight (List.mem_filter.2 ⟨member, by rw [jumps]; rfl⟩))

theorem room?_eq_none :
    i.room? = none := by
  rcases codes.jump_or_encoded member with ⟨_, _, rfl⟩ | ⟨_, -, encoded⟩
  · rfl
  · exact encoded.room?_eq_none

theorem fits : i.Fits := by
  rcases codes.jump_or_encoded member with ⟨_, _, rfl⟩ | ⟨_, -, encoded⟩
  · trivial
  · exact encoded.fits

end

end Codes

namespace Assembled

variable {scheme : Scheme} {room instrs : List Instr} {f : CompiledFunction}

/-- **A finished function is built from its scheme.** -/
theorem built (assembled : Assembled scheme room instrs f) : Built scheme f := by
  have straight (op : Op) (i : Instr) (encoded : Encoded (f.world scheme.captured) op i) :
      i.isJump = false := (Encoded.sameEffect _ op i encoded).1
  refine .intro assembled.upvalues (builtOps_iff.2 ?_) ⟨room, instrs, assembled.written,
    assembled.isRoom, (assembled.codes 0).mono fun op i encoded =>
      ⟨straight op i encoded, encoded.room?_eq_none⟩⟩
  have inside : f.operations = instrs.filter fun i => !i.isJump := by
    rw [CompiledFunction.operations, assembled.written.reads, List.filter_append]
    have none : room.filter (fun i => !i.isJump && i.room?.isNone) = [] := by
      rcases assembled.isRoom with rfl | ⟨i, rfl⟩ <;> rfl
    rw [none, List.nil_append]
    refine List.filter_congr fun i member => ?_
    rw [(assembled.codes 0).room?_eq_none member, Option.isNone_none, Bool.and_true]
  rw [inside]
  exact (assembled.codes 0).straight straight

end Assembled

/-! ## Pools -/

/-- What holds of the pool of a function while it is compiled. -/
structure Pool.Ok (p : Pool) : Prop where
  indexed : p.Indexed
  sound : ∀ g, .function g ∈ p.values.toList → ∀ h ∈ g.walk, h.Sound

theorem Pool.Ok.new : Pool.new.Ok := ⟨.new, fun g member => by simp [Pool.new] at member⟩

/-- **A constant that is added is at its index**, and all that was there before still is. -/
theorem Pool.Ok.add {p : Pool} {value : Value} (ok : p.Ok)
    (sound : ∀ g, value = .function g → ∀ h ∈ g.walk, h.Sound) {i : Nat}
    (added : (p.add value).1 = .ok i) :
    (p.add value).2.Ok ∧ p.values.toList <+: (p.add value).2.values.toList ∧ i < 65536 ∧
      (p.add value).2.values.toList[i]? = some value := by
  have grows := p.grows_add value
  refine ⟨⟨grows.indexed ok.indexed, fun g member => ?_⟩, grows.values, ok.indexed.add added⟩
  unfold Pool.add at member
  split at member
  · exact ok.sound g member
  · split at member
    · exact ok.sound g member
    · rw [toList_push, List.mem_append, List.mem_singleton] at member
      exact member.elim (ok.sound g) fun isNew => sound g isNew.symm

end StackCode
