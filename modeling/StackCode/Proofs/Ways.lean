import StackCode.Proofs.Regions

/-!
# Ways out of a scope

A way through code is a run of instructions, each of which is one where the instruction before it
may go on. A way that begins in the code of a flow and leaves the code of the flow's scope goes to
the end of the flow, and from there straight through what ends the scope.
-/

namespace StackCode

/-- A way through some code, from a place on to another one, and the instructions that run on the
way. All of them stand in the stretch between `first` and `last`. -/
inductive Way (code : Array UInt8) (first last : Int) : Int → List Instr → Int → Prop where
  | stay {place : Int} : Way code first last place [] place
  | go {place next stop : Int} {i : Instr} {rest : List Instr} (low : first ≤ place)
      (high : place < last) (found : instrAt? code place = some i)
      (goes : next ∈ i.successors place) (others : Way code first last next rest stop) :
      Way code first last place (i :: rest) stop

theorem mem_stretch {pre mid post before after : List Instr} {i : Instr}
    (same : pre ++ mid ++ post = before ++ i :: after) (low : codeSize pre ≤ codeSize before)
    (high : codeSize before < codeSize pre + codeSize mid) :
    ∃ front rear, mid = front ++ i :: rear ∧ codeSize before = codeSize pre + codeSize front := by
  have size_pos := i.size_pos
  rcases List.append_eq_append_iff.1 same with ⟨x, rfl, -⟩ | ⟨x, isMid, isAfter⟩
  · rw [codeSize_append, codeSize_append] at high
    omega
  · cases x with
    | nil =>
      rw [← codeSize_append, isMid, List.append_nil] at high
      omega
    | cons j x =>
      cases isAfter
      rcases List.append_eq_append_iff.1 isMid with ⟨y, rfl, rfl⟩ | ⟨y, rfl, isRest⟩
      · exact ⟨y, x, rfl, codeSize_append _ _⟩
      · cases y with
        | nil => exact ⟨[], x, isRest.symm, by simp⟩
        | cons k y =>
          cases isRest
          rw [codeSize_append, codeSize_cons] at low
          omega

namespace Way

variable {code : Array UInt8} {first last place stop : Int}
  {trace pre rear ending post : List Instr}

theorem straight (counted : Instr → Bool) (written : WrittenAs code (pre ++ ending ++ post))
    (isLast : last = codeSize pre + codeSize ending) (low : first ≤ codeSize pre)
    (straight : ∀ i ∈ ending, i.isJump = false)
    (way : Way code first last (codeSize pre) trace stop) (left : stop < first ∨ last ≤ stop) :
    trace.countP counted = ending.countP counted ∧ stop = last := by
  induction ending generalizing pre trace with
  | nil =>
    rw [codeSize_nil, Int.natCast_zero, Int.add_zero] at isLast
    cases way with
    | stay => exact ⟨rfl, isLast.symm⟩
    | go _ high => omega
  | cons i rest ih =>
    have size_pos := i.size_pos
    rw [codeSize_cons] at isLast
    cases way with
    | stay => omega
    | @go _ next _ j others _ _ found goes way =>
      have written' : WrittenAs code (pre ++ i :: (rest ++ post)) := by simpa using written
      have isHere : instrAt? code (codeSize pre) = some i := written'.instrAt?
      cases isHere.symm.trans found
      rw [successors_straight (straight i List.mem_cons_self)] at goes
      split at goes
      · cases goes
      · rw [List.mem_singleton] at goes
        have behind : next = (codeSize (pre ++ [i]) : Nat) := by
          rw [goes, codeSize_append, codeSize_cons, codeSize_nil]
          push_cast
          omega
        rw [behind] at way
        have size : (codeSize (pre ++ [i]) : Int) = codeSize pre + i.size := by simp
        have behind' : WrittenAs code (pre ++ [i] ++ rest ++ post) := by simpa using written
        obtain ⟨count, isStop⟩ := ih behind' (by rw [size]; push_cast at isLast; omega) (by omega)
          (fun j member => straight j (List.mem_cons_of_mem i member)) way
        exact ⟨by rw [List.countP_cons, List.countP_cons, count], isStop⟩

/-- **A way out of a scope.** It runs what ends the scope, and nothing else that is counted if
nothing of what it can come to before that is. -/
theorem out (counted : Instr → Bool) (written : WrittenAs code (pre ++ rear ++ ending ++ post))
    (isLast : last = codeSize pre + codeSize rear + codeSize ending) (low : first ≤ codeSize pre)
    (stays : ∀ next ∈ targets (codeSize pre) rear,
      codeSize pre ≤ next ∧ next ≤ codeSize pre + codeSize rear)
    (uncounted : ∀ i ∈ rear, counted i = false) (straight : ∀ i ∈ ending, i.isJump = false)
    (way : Way code first last place trace stop) (left : stop < first ∨ last ≤ stop)
    (bounds : codeSize pre ≤ place ∧ place ≤ codeSize pre + codeSize rear) :
    trace.countP counted = ending.countP counted ∧ stop = last := by
  -- At the end of the rear the ending begins, and before it the way stays in the rear.
  have atEnd {trace : List Instr} {place : Int} (isEnd : place = codeSize pre + codeSize rear)
      (way : Way code first last place trace stop) :
      trace.countP counted = ending.countP counted ∧ stop = last := by
    have size : (codeSize (pre ++ rear) : Int) = codeSize pre + codeSize rear := by simp
    rw [isEnd, ← size] at way
    exact way.straight counted written (by rw [size]; exact isLast) (by omega) straight left
  induction way with
  | @stay place =>
    by_cases isEnd : place = codeSize pre + codeSize rear
    · exact atEnd isEnd .stay
    · omega
  | @go place next stop i rest low' high found goes others ih =>
    by_cases isEnd : place = codeSize pre + codeSize rear
    · exact atEnd isEnd (.go low' high found goes others)
    · obtain ⟨before, after, same, rfl⟩ := written.of_instrAt? found
      obtain ⟨front, tail, rfl, isPlace⟩ := mem_stretch
        (by rw [← List.append_assoc, same] : pre ++ rear ++ (ending ++ post) = before ++ i :: after)
        (by omega) (by omega)
      have inside : codeSize pre ≤ next ∧ next ≤ codeSize pre + codeSize (front ++ i :: tail) := by
        rcases Instr.mem_successors goes with rfl | jumps
        · rw [codeSize_append, codeSize_cons]
          push_cast
          omega
        · rw [isPlace, Int.natCast_add] at jumps
          exact stays next (mem_targets jumps)
      obtain ⟨count, isStop⟩ := ih left inside atEnd
      refine ⟨?_, isStop⟩
      rw [List.countP_cons, count, uncounted i (by simp)]
      rfl

end Way

end StackCode
