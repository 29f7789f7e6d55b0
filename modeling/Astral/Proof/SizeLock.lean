import Astral.Construction.FileIo
import Astral.Library.Exchange

namespace Astral.Vfs

open Astral.Library

variable {shared next : Shared} {event : Event}

/-- The call is between an acquisition of the size lock and its release. -/
def Call.isInside : Call → Bool
  | .inside _ => true
  | _ => false

def Shared.inside (shared : Shared) : Nat := shared.calls.countP Call.isInside

/-- A call that starts has something to do. -/
def Accepted (_ : Shared) : Event → Prop
  | .start request => request.refused = false
  | _ => True

/-- A call is refused if and only if it returns before it asks for the node. -/
theorem Request.refused_iff (request : Request) : request.refused = true ↔
    ∃ error, ∀ outcomes node state, request.run outcomes node state = ⟨error, node, { state with done := 0 }⟩ := by
  simp only [refused, Bool.or_eq_true, decide_eq_true_eq, run, vfsWriteIovec, vfsReadIovec]
  constructor
  · intro early
    refine ⟨if request.size = 0 then none else some .einval, fun outcomes node state => ?_⟩
    obtain empty | wraps := early
    · cases request.direction <;> simp [empty]
    · cases request.direction <;> by_cases empty : request.size = 0 <;> simp [empty, wraps]
  · rintro ⟨error, same⟩
    by_contra accepted
    obtain ⟨filled, fits⟩ := not_or.mp accepted
    -- the error of the first call that is made is returned
    have failed (reason : Errno) : error = some reason := by
      have result := congrArg Result.error (same ⟨some reason, none, fun _ => none, fun _ => none, fun _ => none⟩ ⟨true, 0⟩
        ⟨fun _ _ => 0, fun _ => 0, 0, [], []⟩)
      cases direction : request.direction <;> simpa [direction, filled, fits] using result.symm
    exact nomatch (failed .einval).symm.trans (failed .enospc)

/-- The lock is free or held by one call, and each call that will release it takes it first. -/
structure Shared.Balanced (shared : Shared) : Prop where
  tokens : shared.sizeLock + shared.inside = 1
  honest : ∀ call ∈ shared.calls, call ≠ .leave

section

variable (balanced : shared.Balanced)
include balanced

theorem start_balanced {request : Request} (accepted : request.refused = false) : (shared.start request).Balanced where
  tokens := by
    have tokens := balanced.tokens
    simpa [Shared.start, Shared.inside, accepted, Call.isInside] using tokens
  honest := by
    simp only [Shared.start, accepted, Bool.false_eq_true, if_false]
    exact forall_added balanced.honest (by simp)

theorem hold_balanced {index : Nat} (held : shared.hold index = .ok next) : next.Balanced := by
  have tokens := balanced.tokens
  unfold Shared.hold at held
  split at held
  · next request found =>
    obtain ⟨free, held⟩ := unless_ok.mp held
    cases held
    have counted := countP_exchange found (.inside request) Call.isInside
    refine ⟨?_, forall_exchange balanced.honest (by simp)⟩
    simp only [Shared.inside, Call.isInside, Bool.false_eq_true, if_true, if_false] at tokens counted ⊢
    omega
  · cases held

theorem release_balanced {index : Nat} {outcomes : Outcomes} {buffer : Nat → UInt8}
    (released : shared.release index outcomes buffer = .ok next) : next.Balanced := by
  have tokens := balanced.tokens
  unfold Shared.release at released
  split at released
  · next request found =>
    cases released
    have counted := countP_exchange found .done Call.isInside
    refine ⟨?_, forall_exchange balanced.honest (by simp)⟩
    simp only [Shared.inside, Call.isInside, Bool.false_eq_true, if_true, if_false] at tokens counted ⊢
    omega
  · next found => exact absurd rfl (balanced.honest .leave (List.mem_of_getElem? found))
  · cases released

theorem step_balanced (accepted : Accepted shared event) (stepped : step shared event = .ok next) : next.Balanced := by
  cases event with
  | start request =>
    cases stepped
    exact start_balanced balanced accepted
  | hold index => exact hold_balanced balanced stepped
  | release index outcomes buffer => exact release_balanced balanced stepped

/-- A call that is refused puts back a token that it did not take. -/
theorem refused_unbalanced {request : Request} (refused : request.refused = true) :
    ∃ final, Reaches step (fun _ _ => True) (shared.start request) final ∧ final.sizeLock + final.inside = 2 := by
  have tokens := balanced.tokens
  have found : (shared.start request).calls[shared.calls.length]? = some .leave := by
    simp [Shared.start, refused]
  have counted := countP_exchange found .done Call.isInside
  have released : step (shared.start request) (.release shared.calls.length ⟨none, none, fun _ => none, fun _ => none,
      fun _ => none⟩ fun _ => 0) = .ok
        { shared.start request with
          sizeLock := shared.sizeLock + 1
          calls := (shared.start request).calls.set shared.calls.length .done } := by
    simp only [step, Shared.release, found]
    rfl
  refine ⟨_, Relation.ReflTransGen.single ⟨_, trivial, released⟩, ?_⟩
  have before : (shared.start request).calls.countP Call.isInside = shared.inside := by
    simp [Shared.start, refused, Shared.inside, Call.isInside]
  simp only [Shared.inside, Call.isInside, Bool.false_eq_true, if_false] at tokens counted before ⊢
  omega

end

theorem unused_balanced (node : Node) (pages : Nat → Nat → UInt8) : (unused node pages).Balanced where
  tokens := rfl
  honest _ member := absurd member List.not_mem_nil

/-- The size lock excludes in a run if and only if no call is refused before it takes the lock. -/
theorem size_lock_excludes {node : Node} {pages : Nat → Nat → UInt8}
    (reached : Reaches step Accepted (unused node pages) shared) :
    (shared.sizeLock + shared.inside = 1 ∧ shared.sizeLock ≤ 1 ∧ shared.inside ≤ 1) ∧
      ∀ event next, step shared event = .ok next → ¬ Accepted shared event →
        ∃ final, Reaches step (fun _ _ => True) next final ∧ final.sizeLock + final.inside = 2 := by
  have balanced : shared.Balanced := reached.keeps Shared.Balanced
    (fun _ _ _ balanced accepted stepped => step_balanced balanced accepted stepped) (unused_balanced node pages)
  have tokens := balanced.tokens
  refine ⟨⟨tokens, by omega, by omega⟩, ?_⟩
  intro event next stepped refused
  cases event with
  | start request =>
    cases stepped
    exact refused_unbalanced balanced (by simpa [Accepted] using refused)
  | hold | release => exact absurd trivial refused

/-- One of two writers holds the lock, and the other one waits. -/
theorem two_writers_exclude : ∃ shared, Reaches step Accepted (unused ⟨true, 0⟩ fun _ _ => 0) shared ∧
    shared.inside = 1 ∧ shared.sizeLock + shared.inside = 1 ∧ ∃ request, shared.calls[1]? = some (.want request) := by
  have start : Reaches step Accepted (unused ⟨true, 0⟩ fun _ _ => 0) (unused ⟨true, 0⟩ fun _ _ => 0) := .refl
  have first := start.next (show Accepted _ (.start ⟨.write, false, 1, 0⟩) from rfl) rfl
  have second := first.next (show Accepted _ (.start ⟨.write, false, 1, 0⟩) from rfl) rfl
  have held := second.next (show Accepted _ (.hold 0) from trivial) rfl
  exact ⟨_, held, rfl, (size_lock_excludes held).1.1, _, rfl⟩

/-- A read of no bytes lets two writers in. -/
theorem empty_read_unlocks : ∃ shared, Reaches step (fun _ _ => True) (unused ⟨true, 0⟩ fun _ _ => 0) shared ∧
    shared.inside = 2 := by
  have events : Reaches step (fun _ _ => True) (unused ⟨true, 0⟩ fun _ _ => 0) _ := Reaches.of_foldlM
    [.start ⟨.read, false, 0, 0⟩, .release 0 ⟨none, none, fun _ => none, fun _ => none, fun _ => none⟩ fun _ => 0,
      .start ⟨.write, false, 1, 0⟩, .start ⟨.write, false, 1, 0⟩, .hold 1, .hold 2] (fun _ _ _ => trivial) rfl
  exact ⟨_, events, rfl⟩

end Astral.Vfs
