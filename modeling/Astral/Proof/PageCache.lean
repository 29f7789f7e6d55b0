import Astral.Construction.PageCache
import Astral.Library.Exchange

namespace Astral.Vmmcache

open Astral.Library

section Lock

variable {system next : System} {event : Event}

/-- The call is between an acquisition of the lock and its release. -/
def Call.isInside : Call → Bool
  | .inside _ => true
  | _ => false

/-- The call has returned a page. -/
def Call.isReturned : Call → Bool
  | .returned => true
  | _ => false

/-- The call holds no lock and will release none that it does not take first. -/
def Call.isQuiet : Call → Bool
  | .inside _ => false
  | .leave => false
  | .returned => false
  | _ => true

def System.inside (system : System) : Nat := system.calls.countP Call.isInside

def System.returned (system : System) : Nat := system.calls.countP Call.isReturned

/-- The call does not get its page when it goes on. -/
def Call.Fruitless (cache : Cache) (outcome : Outcome) : Call → Prop
  | .wait _ _ page => hasFlag (cache.pages page).flags pageFlagsError = true
  | .load _ => outcome.failed = true
  | _ => True

/-- No call of `vmmcache_getpage` gets its page in this step. -/
def Fruitless (system : System) : Event → Prop
  | .proceed index outcome => ∀ call, system.calls[index]? = some call → call.Fruitless system.cache outcome
  | _ => True

theorem goOn_quiet (part : Option Part) : (goOn part).isQuiet = true := by
  cases part <;> rfl

/-- A part that is done leaves its call without a lock. -/
theorem perform_quiet (part : Part) (cache : Cache) :
    Yields (fun _ => True) (part.perform cache) fun result => result.2.isQuiet = true := by
  fun_cases Part.perform cache part with
  | case3 | case5 =>
    exact (Yields.of_all fun _ => trivial).bind fun _ _ => (Yields.of_all fun _ => trivial).bind fun _ _ => rfl
  | case11 => exact goOn_quiet _
  | case2 | case4 | case6 | case7 | case13 | case15 => rfl
  | _ => exact Yields.map (Yields.of_all fun _ => rfl)

/-- What a call without the lock does next: it stays without it, or it is about to release it for nothing. -/
theorem proceed_cases {call after : Call} {cache final : Cache} {outcome : Outcome}
    (proceeded : call.proceed cache outcome = .ok (final, after)) :
    call.isQuiet = true ∧ (after.isQuiet = true ∧ call.Fruitless cache outcome ∨
      after = .leave ∧ ¬ call.Fruitless cache outcome) := by
  revert proceeded
  fun_cases Call.proceed cache outcome call with intro proceeded
  | case1 | case3 | case10 =>
    cases proceeded
    exact ⟨rfl, .inl ⟨rfl, trivial⟩⟩
  | case4 _ _ _ error =>
    obtain ⟨_, _, same⟩ := map_ok.mp proceeded
    cases same
    exact ⟨rfl, .inl ⟨rfl, error⟩⟩
  | case5 _ _ _ worked | case8 _ worked =>
    cases proceeded
    exact ⟨rfl, .inr ⟨rfl, worked⟩⟩
  | case7 _ failed =>
    cases proceeded
    exact ⟨rfl, .inl ⟨rfl, failed⟩⟩
  | case9 page next =>
    obtain ⟨_, _, same⟩ := map_ok.mp proceeded
    cases same
    exact ⟨rfl, .inl ⟨goOn_quiet next, trivial⟩⟩
  | _ => cases proceeded

theorem quiet_not_inside {call : Call} (quiet : call.isQuiet = true) : call.isInside = false := by
  cases call <;> first | rfl | cases quiet

theorem quiet_not_returned {call : Call} (quiet : call.isQuiet = true) : call.isReturned = false := by
  cases call <;> first | rfl | cases quiet

/-- How a step changes one call and the tokens of the lock. -/
inductive Moves (system : System) : Event → System → Prop where
  | start (request : Request) (part : Part) :
      Moves system (.start request) { system with calls := system.calls ++ [.want part] }
  | hold (index : Nat) (part : Part) (found : system.calls[index]? = some (.want part)) (free : system.mutex ≠ 0) :
      Moves system (.hold index)
        { system with mutex := system.mutex - 1, calls := system.calls.set index (.inside part) }
  | release (index : Nat) (part : Part) (cache : Cache) (call : Call)
      (found : system.calls[index]? = some (.inside part)) (quiet : call.isQuiet = true) :
      Moves system (.release index) { cache, mutex := system.mutex + 1, calls := system.calls.set index call }
  | leave (index : Nat) (found : system.calls[index]? = some .leave) :
      Moves system (.release index) { system with mutex := system.mutex + 1, calls := system.calls.set index .returned }
  | proceed (index : Nat) (outcome : Outcome) (old call : Call) (cache : Cache)
      (found : system.calls[index]? = some old) (quiet : old.isQuiet = true)
      (ends : call.isQuiet = true ∧ old.Fruitless system.cache outcome ∨
        call = .leave ∧ ¬ old.Fruitless system.cache outcome) :
      Moves system (.proceed index outcome) { system with cache, calls := system.calls.set index call }

theorem step_moves (stepped : step system event = .ok next) : Moves system event next := by
  revert stepped
  fun_cases step system event with intro stepped
  | case1 request =>
    obtain ⟨part, _, same⟩ := bind_ok.mp stepped
    cases same
    exact .start request part
  | case2 index =>
    revert stepped
    fun_cases System.hold system index with intro stepped
    | case2 part found free =>
      cases stepped
      exact .hold index part found free
    | _ => cases stepped
  | case3 index =>
    revert stepped
    fun_cases System.release system index with intro stepped
    | case1 part found =>
      obtain ⟨⟨cache, call⟩, performed, same⟩ := bind_ok.mp stepped
      cases same
      exact .release index part cache call found ((perform_quiet part system.cache).of_ok performed)
    | case2 found =>
      cases stepped
      exact .leave index found
    | case3 => cases stepped
  | case4 index outcome =>
    revert stepped
    fun_cases System.proceed system index outcome with intro stepped
    | case1 old found =>
      obtain ⟨⟨cache, call⟩, proceeded, same⟩ := bind_ok.mp stepped
      cases same
      obtain ⟨quiet, ends⟩ := proceed_cases proceeded
      exact .proceed index outcome old call cache found quiet ends
    | case2 => cases stepped

/-- A step gives a token away for each call that enters, and takes one back for each that leaves. -/
theorem step_tokens (stepped : step system event = .ok next) :
    next.mutex + next.inside + system.returned = system.mutex + system.inside + next.returned := by
  unfold System.inside System.returned
  cases step_moves stepped with
  | start request part => simp [List.countP_append, Call.isInside, Call.isReturned]
  | hold index part found free =>
    have inside := countP_exchange found (.inside part) Call.isInside
    have returned := countP_exchange found (.inside part) Call.isReturned
    simp only [Call.isInside, Call.isReturned, Bool.false_eq_true, if_true, if_false] at inside returned
    simp only
    omega
  | release index part cache call found quiet =>
    have inside := countP_exchange found call Call.isInside
    have returned := countP_exchange found call Call.isReturned
    rw [quiet_not_inside quiet] at inside
    rw [quiet_not_returned quiet] at returned
    simp only [Call.isInside, Call.isReturned, Bool.false_eq_true, if_true, if_false] at inside returned
    simp only
    omega
  | leave index found =>
    have inside := countP_exchange found .returned Call.isInside
    have returned := countP_exchange found .returned Call.isReturned
    simp only [Call.isInside, Call.isReturned, Bool.false_eq_true, if_true, if_false] at inside returned
    simp only
    omega
  | proceed index outcome old call cache found quiet ends =>
    have outside : call.isInside = false ∧ call.isReturned = false := by
      rcases ends with ⟨still, _⟩ | ⟨leaves, _⟩
      · exact ⟨quiet_not_inside still, quiet_not_returned still⟩
      · rw [leaves]
        exact ⟨rfl, rfl⟩
    have inside := countP_exchange found call Call.isInside
    have returned := countP_exchange found call Call.isReturned
    rw [quiet_not_inside quiet, outside.1] at inside
    rw [quiet_not_returned quiet, outside.2] at returned
    simp only
    omega

/-- In every run there is one token more for each page that was returned. -/
theorem tokens {allowed : System → Event → Prop} (reached : Reaches step allowed initial system) :
    system.mutex + system.inside = 1 + system.returned := by
  apply Reaches.keeps (fun system => system.mutex + system.inside = 1 + system.returned) _ reached rfl
  intro before event after law _ stepped
  have changed := step_tokens stepped
  omega

/-- No call is about to return a page or has returned one. -/
def System.Unserved (system : System) : Prop := ∀ call ∈ system.calls, call ≠ .leave ∧ call ≠ .returned

theorem quiet_unserved {call : Call} (quiet : call.isQuiet = true) : call ≠ .leave ∧ call ≠ .returned := by
  constructor
  all_goals
    intro same
    rw [same] at quiet
    cases quiet

theorem step_unserved (unserved : system.Unserved) (fruitless : Fruitless system event)
    (stepped : step system event = .ok next) : next.Unserved := by
  cases step_moves stepped with
  | start request part => exact forall_added unserved (quiet_unserved rfl)
  | hold index part found free => exact forall_exchange unserved ⟨by simp, by simp⟩
  | release index part cache call found quiet => exact forall_exchange unserved (quiet_unserved quiet)
  | leave index found => exact absurd rfl (unserved .leave (List.mem_of_getElem? found)).1
  | proceed index outcome old call cache found quiet ends =>
    rcases ends with ⟨still, _⟩ | ⟨_, served⟩
    · exact forall_exchange unserved (quiet_unserved still)
    · exact absurd (fruitless old found) served

theorem unserved_returned (unserved : system.Unserved) : system.returned = 0 := by
  apply List.countP_eq_zero.mpr
  intro call member returned
  apply (unserved call member).2
  cases call <;> first | rfl | cases returned

theorem reached_unserved (reached : Reaches step Fruitless initial system) : system.Unserved :=
  reached.keeps System.Unserved (fun _ _ _ unserved fruitless stepped => step_unserved unserved fruitless stepped)
    (fun _ member => absurd member List.not_mem_nil)

/-- The last release of `vmmcache_getpage` adds a token. -/
theorem leave_adds {index : Nat} (found : system.calls[index]? = some .leave) :
    ∃ final, step system (.release index) = .ok final ∧
      final.mutex + final.inside = system.mutex + system.inside + 1 := by
  have inside := countP_exchange found .returned Call.isInside
  simp only [Call.isInside, Bool.false_eq_true, if_false] at inside
  refine ⟨{ system with mutex := system.mutex + 1, calls := system.calls.set index .returned }, ?_, ?_⟩
  · simp only [step, System.release, found]
  · simp only [System.inside]
    omega

/-- A call that gets its page puts back a token that it does not have. -/
theorem served_unbalanced (law : system.mutex + system.inside = 1) (stepped : step system event = .ok next)
    (served : ¬ Fruitless system event) :
    ∃ final, Reaches step (fun _ _ => True) next final ∧ final.mutex + final.inside = 2 := by
  cases step_moves stepped with
  | start | hold | release | leave => exact absurd trivial served
  | proceed index outcome old call cache found quiet ends =>
    rcases ends with ⟨_, fruitless⟩ | ⟨leaves, _⟩
    · apply absurd _ served
      intro call here
      rw [found] at here
      cases here
      exact fruitless
    subst leaves
    have inside := countP_exchange found .leave Call.isInside
    rw [quiet_not_inside quiet] at inside
    have here : ({ system with cache, calls := system.calls.set index .leave } : System).calls[index]? = some .leave :=
      List.getElem?_set_self (List.getElem?_eq_some_iff.mp found).1
    obtain ⟨final, released, more⟩ := leave_adds here
    refine ⟨final, Relation.ReflTransGen.single ⟨.release index, trivial, released⟩, ?_⟩
    simp only [System.inside, Call.isInside, Bool.false_eq_true, if_false] at law inside more ⊢
    omega

/-- The lock is balanced in a run if and only if no call of `vmmcache_getpage` returns a page. -/
theorem page_cache_lock_balanced (reached : Reaches step Fruitless initial system) :
    (system.mutex + system.inside = 1 ∧ system.mutex ≤ 1 ∧ system.inside ≤ 1) ∧
      ∀ event next, step system event = .ok next → ¬ Fruitless system event →
        ∃ final, Reaches step (fun _ _ => True) next final ∧ final.mutex + final.inside = 2 := by
  have law := tokens reached
  rw [unserved_returned (reached_unserved reached)] at law
  refine ⟨⟨law, by omega, by omega⟩, ?_⟩
  intro event next stepped served
  exact served_unbalanced law stepped served

/-- A call loads a page. -/
def loading : List Event :=
  [.start (.getpage 0 0), .hold 0, .release 0, .proceed 0 ⟨some 7, false⟩, .hold 0, .release 0,
    .proceed 0 ⟨none, false⟩, .release 0]

/-- Two calls ask for a sync at the same time. -/
def syncing : List Event := [.start .sync, .start .sync, .hold 1, .hold 2]

/-- After a page was loaded, two calls hold the lock at the same time. -/
theorem loaded_page_unlocks : ∃ system, Reaches step (fun _ _ => True) initial system ∧
    system.mutex = 2 ∧ ∃ later, Reaches step (fun _ _ => True) system later ∧ later.inside = 2 := by
  refine ⟨_, Reaches.of_foldlM loading (fun _ _ _ => trivial) rfl, rfl, _,
    Reaches.of_foldlM syncing (fun _ _ _ => trivial) rfl, rfl⟩

/-- A load that fails keeps the lock balanced. -/
theorem failed_load_balanced : ∃ system, Reaches step Fruitless initial system ∧ system.inside = 1 ∧
    system.mutex + system.inside = 1 := by
  have wanted : Reaches step Fruitless initial _ :=
    .next .refl (show Fruitless _ (.start (.getpage 0 0)) from trivial) rfl
  have held := wanted.next (show Fruitless _ (.hold 0) from trivial) rfl
  have missed := held.next (show Fruitless _ (.release 0) from trivial) rfl
  have allocated := missed.next (show Fruitless _ (.proceed 0 ⟨some 7, false⟩) from fun call here => by
    cases here
    exact trivial) rfl
  have again := allocated.next (show Fruitless _ (.hold 0) from trivial) rfl
  have added := again.next (show Fruitless _ (.release 0) from trivial) rfl
  have failed := added.next (show Fruitless _ (.proceed 0 ⟨none, true⟩) from fun call here => by
    cases here
    rfl) rfl
  have inside := failed.next (show Fruitless _ (.hold 0) from trivial) rfl
  exact ⟨_, inside, rfl, (page_cache_lock_balanced inside).1.1⟩

end Lock

end Astral.Vmmcache
