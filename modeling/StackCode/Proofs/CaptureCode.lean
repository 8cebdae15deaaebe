import StackCode.Proofs.Decoding

/-!
# Captured variables are read back

The captured variables of a closure stand in its code as entries of two or three bytes, and a byte
that no entry begins with ends them. Three functions go over them: one that writes, one that
measures and one that reads. They stay in step, wherever in a piece of code the closure stands and
whatever is around it (`CaptureList.decodes`).
-/

namespace StackCode

/-! ## Walks through any code -/

theorem offset_of_mem_walkFrom {code : List UInt8} {start skip : Nat} {found : Array Found}
    {i : Found}
    (isFound : i ∈ (walkFrom start skip found code).instructions) :
    i ∈ found ∨ start + skip ≤ i.offset := by
  induction code generalizing start skip found with
  | nil => exact .inl isFound
  | cons byte rest ih =>
    cases skip with
    | succ skip =>
      rw [walkFrom] at isFound
      exact (ih isFound).imp_right (by omega)
    | zero =>
      rw [walkFrom] at isFound
      split at isFound
      · rcases ih isFound with early | late
        · rcases Array.mem_push.1 early with early | rfl
          · exact .inl early
          · exact .inr (Nat.le_refl _)
        · exact .inr (by omega)
      · exact .inl isFound

/-- A walk that finds an instruction at a place passes through it: it goes on from there as it would
from the start of what stands there. -/
theorem walkFrom_append {before after : List UInt8} {start skip : Nat} {found : Array Found}
    (early : ∀ i ∈ found, i.offset < start)
    (reaches : ∃ i ∈ (walkFrom start skip found (before ++ after)).instructions,
      i.offset = start + before.length) :
    ∃ passed, walkFrom start skip found (before ++ after) =
      walkFrom (start + before.length) 0 passed after := by
  induction before generalizing start skip found with
  | nil =>
    obtain ⟨i, isFound, here⟩ := reaches
    have there : skip = 0 := by
      rcases offset_of_mem_walkFrom isFound with isEarly | late
      · have := early i isEarly
        simp at here
        omega
      · simp at here
        omega
    exact ⟨found, by rw [there]; rfl⟩
  | cons byte before ih =>
    have behind : start + (byte :: before).length = start + 1 + before.length := by simp; omega
    rw [behind, List.cons_append] at reaches ⊢
    cases skip with
    | succ skip =>
      rw [walkFrom] at reaches ⊢
      exact ih (fun i isFound => Nat.lt_succ_of_lt (early i isFound)) reaches
    | zero =>
      rw [walkFrom] at reaches ⊢
      split at reaches
      · refine ih (fun i isFound => ?_) reaches
        rcases Array.mem_push.1 isFound with isFound | rfl
        · exact Nat.lt_succ_of_lt (early i isFound)
        · exact Nat.lt_succ_self _
      · obtain ⟨i, isFound, here⟩ := reaches
        have := early i isFound
        omega

/-! ## Closures -/

/-- **The captured variables of a closure are read back**, wherever it stands: the closure is as
long as what was written, its variables are those that were written, in their order, and a walk that
comes to the closure goes on right behind them. -/
theorem CaptureList.decodes (l : CaptureList) (fit : ∀ place ∈ l.sources, place.index ≤ 65535)
    (function : UInt16) (before after : List UInt8) :
    let closure := Opcode.closure.byte :: (wordBytes function ++ l.encode)
    let code := before ++ (closure ++ after)
    instructionSize? (code.drop before.length) = some (3 + l.encode.length) ∧
      readCaptures (code.drop (before.length + 3)) = l.sources ∧
      ((∃ i ∈ (walkCode code).instructions, i.offset = before.length) →
        ∃ passed : Array Found, walkCode code = walkFrom (before.length + (3 + l.encode.length)) 0
          (passed.push ⟨before.length, .closure, code.drop before.length⟩) after) := by
  intro closure code
  let i : Instr := .closure function l.sources
  have bytes : i.bytes = closure := by
    rw [Instr.bytes_eq]
    rfl
  have size : i.size = 3 + l.encode.length := by
    rw [Instr.size_eq]
    simp [i, Instr.operands, wordBytes, encode]
    omega
  have here : code.drop before.length = i.bytes ++ after := by
    rw [bytes]
    exact List.drop_left
  refine ⟨?_, ?_, fun reaches => ?_⟩
  · rw [here, i.instructionSize?_bytes, size]
  · rw [← List.drop_drop, here, bytes]
    exact readCaptures_encodeAll (fun place member => Nat.lt_succ_of_le (fit place member)) after
  · rw [← Nat.zero_add before.length] at reaches
    obtain ⟨passed, whole⟩ := walkFrom_append (by simp) reaches
    refine ⟨passed, ?_⟩
    rw [walkCode, whole, ← bytes, walkFrom_instr, size, here, Nat.zero_add]
    rfl

/-- Indices of one and of two bytes, with bytes in them that look like the end. -/
theorem CaptureList.decodes_long :
    let l : CaptureList :=
      ⟨#[⟨"a", .local 255, false⟩, ⟨"b", .upvalue 0, true⟩, ⟨"c", .upvalue 65535, true⟩]⟩
    let closure := Opcode.closure.byte :: (wordBytes 7 ++ l.encode)
    let code := Opcode.pop.byte :: (closure ++ [Opcode.ret.byte])
    (∀ place ∈ l.sources, place.index ≤ 65535) ∧ instructionSize? (code.drop 1) = some 11 ∧
      readCaptures (code.drop 4) = [.local 255, .upvalue 0, .upvalue 65535] ∧
      ∃ passed : Array Found, walkCode code = walkFrom 12 0
        (passed.push ⟨1, .closure, code.drop 1⟩) [Opcode.ret.byte] := by
  intro l closure code
  have decoded := l.decodes (by decide) 7 [Opcode.pop.byte] [Opcode.ret.byte]
  have reaches : ((walkCode code).instructions.any fun i => i.offset = 1) = true := by
    decide +kernel
  refine ⟨by decide, decoded.1, decoded.2.1, decoded.2.2 ?_⟩
  obtain ⟨i, isFound, here⟩ := Array.any_eq_true'.1 reaches
  exact ⟨i, isFound, of_decide_eq_true here⟩

end StackCode
