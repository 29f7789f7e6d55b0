import Astral.Construction.Timeout
import Astral.Library.Run
import Mathlib.Tactic

namespace Astral.Net.Timeout

open Library

variable {tcb next : Tcb}

/-- The seconds and the nanoseconds do not differ in opposite directions. -/
def Timespec.Level (one two : Timespec) : Prop :=
  (one.s < two.s → one.ns ≤ two.ns) ∧ (two.s < one.s → two.ns ≤ one.ns)

/-- The differences are the distances between level times and no others, and do not overflow below 2 ^ 40 seconds. -/
theorem timespecDiff_distance_iff (one two : Timespec) :
    (timespecDiffus one two = distance one.total two.total / 1000 ↔ one.Level two) ∧
      (timespecDiffms one two = distance one.total two.total / 1000000 ↔ one.Level two) ∧
      (one.s < 2 ^ 40 → two.s < 2 ^ 40 → timespecDiffus one two < 2 ^ 63 ∧ timespecDiffms one two < 2 ^ 63) := by
  have one_small := one.small
  have two_small := two.small
  unfold timespecDiffus timespecDiffms Timespec.Level Timespec.total nanoseconds distance at *
  refine ⟨?_, ?_, ?_⟩
  all_goals omega

/-- One nanosecond over the boundary of a second is taken for more than a whole second is. -/
theorem nanosecond_outlasts_second :
    (distance (Timespec.total ⟨1, 0, by decide⟩) (Timespec.total ⟨0, 999999999, by decide⟩) = 1 ∧
      timespecDiffus ⟨1, 0, by decide⟩ ⟨0, 999999999, by decide⟩ = 1999999 ∧
      timespecDiffms ⟨1, 0, by decide⟩ ⟨0, 999999999, by decide⟩ = 1999) ∧
    distance (Timespec.total ⟨1, 0, by decide⟩) (Timespec.total ⟨0, 0, by decide⟩) = 1000000000 ∧
      timespecDiffus ⟨1, 0, by decide⟩ ⟨0, 0, by decide⟩ = 1000000 ∧
      timespecDiffms ⟨1, 0, by decide⟩ ⟨0, 0, by decide⟩ = 1000 := by
  decide

namespace Tcb

variable (tcb : Tcb)

/-- The time when the last segment is due. -/
def due : Nat := tcb.lastsend.total + tcb.currentrto * nanoseconds

/-- No segment waits in TIME-WAIT, which a timeout ends. In other states a timeout that comes early sets the timer to
the time when the segment is due, and any other one does not wait. -/
def Right : Prop :=
  ∃ outcome next, tcb.tcpHandletimeout = .ok (outcome, next) ∧
    if tcb.state = .timewait then outcome = .reset
    else if tcb.now.total < tcb.due then outcome = .rearmed ∧ next.itimer = some tcb.due
    else outcome ≠ .rearmed

/-- One half of the time to wait is over. When the nanoseconds went back since the last segment, the seconds alone make
the half, and the nanoseconds went back by whole milliseconds. -/
def Halfway : Prop :=
  if tcb.lastsend.ns ≤ tcb.now.ns then 2 * (tcb.now.total - tcb.lastsend.total) = tcb.currentrto * nanoseconds
  else 2 * (tcb.now.s - tcb.lastsend.s) = tcb.currentrto ∧ 1000000 ∣ tcb.lastsend.ns - tcb.now.ns

/-- A timeout ends TIME-WAIT, or it is due, or it comes at half of the time to wait of a segment that has retries left. -/
def Timely : Prop :=
  tcb.state = .timewait ∨ tcb.due ≤ tcb.now.total ∨ tcb.currentrto ≠ rtoMaxSec ∧ tcb.Halfway

/-- A running timer ends when the last segment is due. -/
def OnTime : Prop := tcb.state = .open_ → ∀ time ∈ tcb.itimer, time = tcb.due

end Tcb

/-- The clock is not behind the last segment, and there is a time to wait. -/
structure Tcb.Sane (tcb : Tcb) : Prop where
  past : tcb.lastsend.total ≤ tcb.now.total
  positive : 0 < tcb.currentrto

/-- What the source takes for the time since the last segment is not less than the full seconds since then. -/
theorem diffms_late (late : tcb.due ≤ tcb.now.total) : timespecDiffms tcb.now tcb.lastsend / 1000 ≥ tcb.currentrto := by
  have small := tcb.now.small
  have seconds : tcb.currentrto ≤ distance tcb.now.s tcb.lastsend.s := by
    unfold Tcb.due Timespec.total nanoseconds at *
    unfold distance
    omega
  unfold timespecDiffms
  omega

/-- The time that the source sets the timer to is the time that is left at half of the time to wait only, and there it
does not take the time for all of the time to wait. -/
theorem Tcb.Sane.halfway_iff (sane : tcb.Sane) :
    tcb.Halfway ↔ tcb.now.total + timespecDiffms tcb.now tcb.lastsend * 1000000 = tcb.due ∧
      timespecDiffms tcb.now tcb.lastsend / 1000 < tcb.currentrto := by
  have past := sane.past
  have positive := sane.positive
  have now_small := tcb.now.small
  have last_small := tcb.lastsend.small
  unfold Tcb.Halfway Tcb.due timespecDiffms Timespec.total nanoseconds distance at *
  split <;> omega

section Handle

theorem handle_reset (ends : tcb.currentrto = rtoMaxSec ∨ tcb.state = .timewait) :
    tcb.tcpHandletimeout = .ok (.reset, tcb.itimerPause.tcpReset) := if_pos ends

variable (goes : ¬ (tcb.currentrto = rtoMaxSec ∨ tcb.state = .timewait))
include goes

theorem handle_late (positive : 0 < tcb.currentrto)
    (late : timespecDiffms tcb.now tcb.lastsend / 1000 ≥ tcb.currentrto) :
    ∃ next, tcb.tcpHandletimeout = .ok (.retransmitted, next) ∧ next.Sane ∧ next.OnTime := by
  have wait : tcb.currentrto * 2 * 1000000 ≠ 0 := by omega
  rw [Tcb.tcpHandletimeout, if_neg goes, if_pos late]
  dsimp only [Tcb.itimerResume]
  rw [if_pos ⟨rfl, wait⟩]
  refine ⟨_, rfl, ⟨le_refl _, Nat.mul_pos positive (by decide)⟩, fun _ time running => ?_⟩
  cases running
  simp only [Tcb.due, Tcb.itimerPause, nanoseconds, Nat.mul_assoc]

theorem handle_early (early : ¬ timespecDiffms tcb.now tcb.lastsend / 1000 ≥ tcb.currentrto) :
    tcb.tcpHandletimeout =
      if timespecDiffms tcb.now tcb.lastsend = 0 then .error .assertion
      else .ok (.rearmed, { tcb with
        itimer := some (tcb.now.total + timespecDiffms tcb.now tcb.lastsend * 1000000) }) := by
  rw [Tcb.tcpHandletimeout, if_neg goes, if_neg early]
  by_cases zero : timespecDiffms tcb.now tcb.lastsend = 0
  · rw [zero]
    rfl
  · rw [Tcb.itimerResume, if_pos ⟨rfl, by omega⟩, if_neg zero, Nat.mul_assoc]
    rfl

end Handle

/-- The part of the state of a control block that its timer depends on. -/
def State.of : TcbState → State
  | .timewait => .timewait
  | .abort => .abort
  | _ => .open_

/-- The timer of a control block counts microseconds from now on. -/
structure Tcb.Views (tcb : Tcb) (endpoint : Endpoint) : Prop where
  state : tcb.state = .of endpoint.tcb.state
  currentrto : tcb.currentrto = endpoint.tcb.currentrto
  itimer : tcb.itimer = endpoint.tcb.itimer.map (tcb.now.total + · * 1000)

/-- A timeout that fails no assertion is handled here as in the control block, which is told the measured time. -/
theorem Tcb.Views.handle {endpoint : Endpoint} (views : tcb.Views endpoint) {outcome : Tcb.Outcome}
    (ran : tcb.tcpHandletimeout = .ok (outcome, next)) :
    next.Views (endpoint.tcpHandletimeout (timespecDiffms tcb.now tcb.lastsend)) := by
  have ended : endpoint.tcb.state = .timewait ↔ tcb.state = .timewait := by
    rw [views.state]
    cases endpoint.tcb.state <;> decide
  unfold Endpoint.tcpHandletimeout
  simp only [← views.currentrto, ended]
  by_cases ends : tcb.currentrto = rtoMaxSec ∨ tcb.state = .timewait
  · rw [handle_reset ends] at ran
    cases ran
    rw [if_pos ends]
    exact ⟨rfl, views.currentrto, rfl⟩
  · rw [if_neg ends]
    rw [Tcb.tcpHandletimeout, if_neg ends] at ran
    split_ifs at ran ⊢ with late
    all_goals
      obtain ⟨after, resumed, same⟩ := map_ok.1 ran
      cases same
      unfold Tcb.itimerResume at resumed
      split_ifs at resumed
      cases resumed
    all_goals exact ⟨views.state, rfl, rfl⟩

/-- A timeout is handled rightly when it is timely. -/
theorem Tcb.Sane.right_iff (sane : tcb.Sane) : tcb.Right ↔ tcb.Timely := by
  have positive := sane.positive
  unfold Tcb.Right Tcb.Timely
  by_cases ended : tcb.state = .timewait
  · exact iff_of_true ⟨_, _, handle_reset (.inr ended), by rw [if_pos ended]⟩ (.inl ended)
  simp only [ended, if_false, false_or]
  by_cases late : tcb.due ≤ tcb.now.total
  · simp only [if_neg (Nat.not_lt.2 late)]
    refine iff_of_true ?_ (.inl late)
    by_cases ends : tcb.currentrto = rtoMaxSec ∨ tcb.state = .timewait
    · exact ⟨_, _, handle_reset ends, nofun⟩
    · obtain ⟨next, ran, -⟩ := handle_late ends positive (diffms_late late)
      exact ⟨_, next, ran, nofun⟩
  · simp only [if_pos (Nat.lt_of_not_le late), late, false_or]
    by_cases last : tcb.currentrto = rtoMaxSec
    · refine iff_of_false ?_ fun left => left.1 last
      rw [handle_reset (.inl last)]
      rintro ⟨outcome, next, ran, rfl, -⟩
      cases ran
    · have goes : ¬ (tcb.currentrto = rtoMaxSec ∨ tcb.state = .timewait) := not_or.2 ⟨last, ended⟩
      rw [sane.halfway_iff]
      by_cases soon : timespecDiffms tcb.now tcb.lastsend / 1000 ≥ tcb.currentrto
      · refine iff_of_false ?_ fun waits => absurd waits.2.2 (Nat.not_lt.2 soon)
        obtain ⟨after, again, -⟩ := handle_late goes positive soon
        rw [again]
        rintro ⟨outcome, next, ran, rfl, -⟩
        cases ran
      · rw [handle_early goes soon]
        constructor
        · rintro ⟨outcome, next, ran, -, due⟩
          split_ifs at ran
          cases ran
          exact ⟨last, Option.some.inj due, Nat.lt_of_not_le soon⟩
        · rintro ⟨-, waits, -⟩
          rw [if_neg (by omega)]
          exact ⟨_, _, rfl, rfl, congrArg some waits⟩

/-- A timeout that is handled leaves the connection sane, and on time if it is timely. -/
theorem Tcb.Sane.handle (sane : tcb.Sane) {outcome : Tcb.Outcome} (ran : tcb.tcpHandletimeout = .ok (outcome, next)) :
    next.Sane ∧ (tcb.Timely → next.OnTime) := by
  by_cases ends : tcb.currentrto = rtoMaxSec ∨ tcb.state = .timewait
  · rw [handle_reset ends] at ran
    cases ran
    exact ⟨⟨sane.past, sane.positive⟩, fun _ _ _ running => by cases running⟩
  · by_cases late : timespecDiffms tcb.now tcb.lastsend / 1000 ≥ tcb.currentrto
    · obtain ⟨after, again, kept, onTime⟩ := handle_late ends sane.positive late
      cases again.symm.trans ran
      exact ⟨kept, fun _ => onTime⟩
    · rw [handle_early ends late] at ran
      split_ifs at ran
      cases ran
      refine ⟨⟨sane.past, sane.positive⟩, fun timely _ time running => ?_⟩
      cases running
      obtain ended | passed | ⟨-, halfway⟩ := timely
      · exact absurd (.inr ended) ends
      · exact absurd (diffms_late passed) late
      · exact (sane.halfway_iff.1 halfway).1

/-- Each step leaves the connection sane, and on time if its timeouts are timely. -/
theorem Tcb.Sane.step (sane : tcb.Sane) {event : Tcb.Event} (moved : tcb.step event = .ok next) :
    next.Sane ∧ (tcb.OnTime → (event = .handle → tcb.Timely) → next.OnTime) := by
  rw [Tcb.step] at moved
  split_ifs at moved with ready
  cases event with
  | wait time =>
    cases moved
    exact ⟨⟨sane.past.trans (of_decide_eq_true ready), sane.positive⟩, fun onTime _ => onTime⟩
  | send =>
    cases moved
    refine ⟨⟨le_refl _, Nat.one_pos⟩, fun _ _ _ time running => ?_⟩
    cases running
    simp only [Tcb.due, Tcb.itimerPause, nanoseconds, Nat.mul_assoc]
  | timewait =>
    cases moved
    exact ⟨⟨sane.past, sane.positive⟩, fun _ _ opened => by cases opened⟩
  | ack | expire =>
    cases moved
    exact ⟨⟨sane.past, sane.positive⟩, fun _ _ _ _ running => by cases running⟩
  | handle =>
    obtain ⟨⟨outcome, after⟩, ran, rfl⟩ := map_ok.1 moved
    have handled := @Tcb.Sane.handle { tcb with tasks := tcb.tasks - 1 } _ ⟨sane.past, sane.positive⟩ _ ran
    exact ⟨handled.1, fun _ timely => handled.2 (timely rfl)⟩

theorem sane_start (now : Timespec) : (start now).Sane := ⟨le_refl _, Nat.one_pos⟩

/-- A timeout in any run is handled rightly when it is timely, and as long as all of them are the timer ends when the
segment is due. -/
theorem timeouts_right_iff (now : Timespec) :
    (∀ tcb, Reaches Tcb.step (fun _ _ => True) (start now) tcb → (tcb.Right ↔ tcb.Timely)) ∧
      ∀ tcb, Reaches Tcb.step (fun tcb event => event = .handle → tcb.Timely) (start now) tcb → tcb.OnTime := by
  constructor
  · intro tcb reached
    have sane : tcb.Sane := reached.keeps _ (fun _ _ _ sane _ moved => (sane.step moved).1) (sane_start now)
    exact sane.right_iff
  · intro tcb reached
    have kept : tcb.Sane ∧ tcb.OnTime := reached.keeps (fun tcb => tcb.Sane ∧ tcb.OnTime)
        (fun _ _ _ held timely moved => ⟨(held.1.step moved).1, (held.1.step moved).2 held.2 timely⟩)
        ⟨sane_start now, fun _ time running => (Option.some.inj running).symm⟩
    exact kept.2

/-- The timer expires, an acknowledgement lets a new segment out, and only then the timeout is handled. -/
theorem lateTask_asserts : ([.wait ⟨1, 0, by decide⟩, .expire, .ack, .send].foldlM Tcb.step (start ⟨0, 0, by decide⟩)).map
    (fun tcb => (tcb.tasks, tcb.tcpHandletimeout)) = .ok (1, .error .assertion) := by
  decide +kernel

end Astral.Net.Timeout
