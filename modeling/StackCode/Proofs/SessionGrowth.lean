import StackCode.Proofs.Growth
import StackCode.Proofs.Sessions

/-!
# Sessions lose nothing

Along a session, in whatever order its events come, the live registry only grows. So it has all that
was registered from the start, and all that was there when a base was taken (`Session.Lossless`).
-/

namespace StackCode

namespace Session

variable {s : Session} {e : Event}

/-- What holds of a session all the time: it is good, and nothing has been lost since the start, nor
since a base was taken. -/
structure Lossless (s : Session) : Prop extends s.Good where
  prelude : Registry.prelude.Grown s.live
  grown : ∀ base ∈ s.taken, Registry.prelude.Grown base ∧ base.Grown s.live

theorem lossless_start : start.Lossless := ⟨good_start, .refl _, nofun⟩

/-- **An event loses nothing.** -/
theorem grown_step (good : s.Good) (e : Event) : s.live.Grown (s.step e).live := by
  rcases s.step_cases e with ⟨base, program, publishes⟩ | ⟨live, -⟩
  · rw [publishes.step_eq]
    exact (publishes.publishable good).grown_publishInto
  · rw [live]
    exact .refl _

theorem Lossless.step (lossless : s.Lossless) (e : Event) : (s.step e).Lossless := by
  have grown := grown_step lossless.toGood e
  refine ⟨lossless.toGood.step e, lossless.prelude.trans grown, fun base member => ?_⟩
  have early (isEarly : base ∈ s.taken) :
      Registry.prelude.Grown base ∧ base.Grown (s.step e).live :=
    ⟨(lossless.grown base isEarly).1, (lossless.grown base isEarly).2.trans grown⟩
  rcases s.step_cases e with ⟨other, program, publishes⟩ | ⟨-, taken⟩
  · rw [publishes.step_eq] at member
    exact early member
  · rcases taken base member with isEarly | rfl
    · exact early isEarly
    · exact ⟨lossless.prelude, grown⟩

theorem Lossless.run (lossless : s.Lossless) (events : List Event) : (s.run events).Lossless := by
  induction events generalizing s with
  | nil => exact lossless
  | cons e rest ih => exact ih (lossless.step e)

theorem grown_run (good : s.Good) (events : List Event) : s.live.Grown (s.run events).live := by
  induction events generalizing s with
  | nil => exact .refl _
  | cons e rest ih => exact (grown_step good e).trans (ih (good.step e))

end Session

end StackCode
