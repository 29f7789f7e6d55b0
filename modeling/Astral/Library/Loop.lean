import Mathlib.Tactic

namespace Astral.Library

/-- The loop runs its body until the body asks to leave. -/
def untilLoop {S : Type} (body : S → Option (Bool × S)) : Nat → S → Option S
  | 0, _ => none
  | fuel + 1, state =>
    (body state).bind fun (again, next) => if again then untilLoop body fuel next else some next

section

variable {S : Type} {body : S → Option (Bool × S)} {state next final : S} {fuel : Nat}

theorem untilLoop_leave
    (moved : body state = some (false, next)) (fuel : Nat) : untilLoop body (fuel + 1) state = some next := by
  simp [untilLoop, moved]

theorem untilLoop_again (moved : body state = some (true, next)) (fuel : Nat) :
    untilLoop body (fuel + 1) state = untilLoop body fuel next := by
  simp [untilLoop, moved]

/-- A returning loop has a first round. -/
theorem untilLoop_first (ran : untilLoop body fuel state = some final) : ∃ again next less,
    body state = some (again, next) ∧ (if again then untilLoop body less next else some next) = some final := by
  cases fuel with
  | zero => cases ran
  | succ fuel =>
    obtain ⟨⟨again, next⟩, moved, ran⟩ := Option.bind_eq_some_iff.mp ran
    exact ⟨again, next, fuel, moved, ran⟩

theorem untilLoop_left (ran : untilLoop body fuel state = some final) (moved : body state = some (false, next)) :
    next = final := by
  obtain ⟨_, _, _, first, rest⟩ := untilLoop_first ran
  rw [moved] at first
  cases first
  exact Option.some.inj rest

/-- A returning loop keeps every property that each of its rounds keeps. -/
theorem untilLoop_keeps (keeps : S → Prop)
    (preserved : ∀ state again next, keeps state → body state = some (again, next) → keeps next)
    (start : keeps state) (ran : untilLoop body fuel state = some final) : keeps final := by
  induction fuel generalizing state with
  | zero => simp [untilLoop] at ran
  | succ fuel ih =>
    rw [untilLoop, Option.bind_eq_some_iff] at ran
    obtain ⟨⟨again, next⟩, moved, ran⟩ := ran
    have kept := preserved state again next start moved
    cases again with
    | false =>
      cases ran
      exact kept
    | true => exact ih kept ran

end

end Astral.Library
