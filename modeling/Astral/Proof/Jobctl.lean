import Astral.Construction.Jobctl
import Astral.Library.Run

namespace Astral.Jobctl

open Function Library

variable {P : Type} {jobs : Jobs P} {members : P → List P}

/-- The list of a leader starts in the field that links the other processes. -/
def Jobs.chains (jobs : Jobs P) : Chains P P where
  head proc := if jobs.leader proc = none then jobs.nextmember proc else none
  next := jobs.nextmember
  prev := jobs.previousmember

/-- The list of each leader holds exactly the processes that it leads. -/
structure Lists (jobs : Jobs P) (members : P → List P) : Prop where
  holds : jobs.chains.Holds members
  exact : ∀ leader proc, proc ∈ members leader ↔ jobs.leader proc = some leader

/-- The lists are right, and a signal to a group reaches its leader and each member once. -/
structure Grouped (jobs : Jobs P) : Prop where
  lists : ∃ members, Lists jobs members
  signals : ∀ leader, jobs.leader leader = none → ∃ reached enough, reached.Nodup ∧
    (∀ proc, proc ∈ reached ↔ proc = leader ∨ jobs.leader proc = some leader) ∧
    ∀ fuel ≥ enough, ∀ current, jobs.signal (some leader) current fuel = .ok (some reached) ∧
      (current ∈ reached → jobs.signal none current fuel = .ok (some reached))

@[simp] theorem removefromlist_leader [DecidableEq P] (jobs : Jobs P) (leader proc : P) :
    (jobs.removefromlist leader proc).leader = jobs.leader := rfl

@[simp] theorem addtolist_leader [DecidableEq P] (jobs : Jobs P) (leader proc : P) :
    (jobs.addtolist leader proc).leader = jobs.leader := rfl

/-- The links of a process are written again when it joins a list. -/
theorem addtolist_clearGroup [DecidableEq P] (jobs : Jobs P) {group proc : P} (different : proc ≠ group) :
    { jobs.clearGroup proc with
        leader := update (jobs.clearGroup proc).leader proc (some group) }.addtolist group proc =
      { jobs with leader := update jobs.leader proc (some group) }.addtolist group proc := by
  simp [Jobs.addtolist, Jobs.clearGroup, update_of_ne different.symm]

/-- A process that is led does not lead. -/
theorem ne_of_led {proc leader other : P} (led : jobs.leader proc = some leader) (free : jobs.leader other = none) :
    proc ≠ other := by
  intro same
  rw [same, free] at led
  cases led

section Lists

variable {before after : List P} (lists : Lists jobs members) {proc leader group : P}
include lists

theorem Lists.leads (led : jobs.leader proc = some leader) : jobs.leader leader = none := by
  by_contra other
  have inside := (lists.exact leader proc).mpr led
  have head := lists.holds.head leader
  simp only [Jobs.chains, other, if_false] at head
  rw [List.head?_eq_none_iff.mp head.symm] at inside
  cases inside

section

variable (split : members leader = before ++ proc :: after)
include split

theorem Lists.led : jobs.leader proc = some leader :=
  (lists.exact leader proc).mp (by rw [split]; simp)

theorem Lists.next : jobs.nextmember proc = after.head? :=
  lists.holds.next split

theorem Lists.previous : jobs.previousmember proc = before.getLast? :=
  lists.holds.prev split

end

theorem Lists.head (free : jobs.leader leader = none) : jobs.nextmember leader = (members leader).head? := by
  have head := lists.holds.head leader
  simpa only [Jobs.chains, free, if_true] using head

theorem Lists.collect_all (free : jobs.leader leader = none) {fuel : Nat}
    (enough : (members leader).length + 1 ≤ fuel) :
    Chains.collect jobs.nextmember fuel (some leader) = some (leader :: members leader) := by
  obtain ⟨fuel, rfl⟩ : ∃ less, fuel = less + 1 := ⟨fuel - 1, by omega⟩
  have collected := lists.holds.collect_from [] (members leader) rfl (Nat.le_of_succ_le_succ enough)
  rw [Chains.collect, lists.head free]
  exact congrArg (Option.map (leader :: ·)) collected

theorem Lists.grouped : Grouped jobs where
  lists := ⟨members, lists⟩
  signals leader free := by
    have exact (proc : P) : proc ∈ leader :: members leader ↔ proc = leader ∨ jobs.leader proc = some leader := by
      rw [List.mem_cons, lists.exact]
    refine ⟨leader :: members leader, (members leader).length + 1, ?_, exact, ?_⟩
    · rw [List.nodup_cons, lists.exact, free]
      exact ⟨nofun, lists.holds.distinct leader⟩
    · intro fuel enough current
      have collected := lists.collect_all free enough
      refine ⟨by simp only [Jobs.signal, free, collected], fun inside => ?_⟩
      rcases (exact current).mp inside with rfl | led
      · simp only [Jobs.signal, free, Option.getD_none, collected]
      · simp only [Jobs.signal, led, Option.getD_some, collected]

theorem Lists.session (session : P → Option P) : Lists { jobs with session := session } members :=
  ⟨lists.holds, lists.exact⟩

/-- The list of a leader is lost when the first of several members leaves. -/
theorem Lists.lost (split : members leader = before ++ proc :: after) {later : Jobs P} {other : P} {rest : List P}
    (first : before = []) (several : after = other :: rest)
    (leader_same : ∀ next, next ≠ proc → later.leader next = jobs.leader next)
    (broken : later.nextmember leader = none ∨ later.nextmember leader = some proc ∧ later.nextmember proc = none) :
    ¬ ∃ members, Lists later members := by
  rintro ⟨members', lists'⟩
  have distinct := (split ▸ lists.holds.distinct leader : (before ++ proc :: after).Nodup)
  have leads := lists.leads (lists.led split)
  have different : other ≠ proc := by
    rintro rfl
    simp [several, first] at distinct
  have member : other ∈ members' leader := by
    rw [lists'.exact, leader_same other different]
    exact (lists.exact leader other).mp (by rw [split]; simp [several])
  have self := ne_of_led (lists.led split) leads
  have head := lists'.head ((leader_same leader self.symm).trans leads)
  cases found : members' leader with
  | nil =>
    rw [found] at member
    cases member
  | cons top more =>
    rw [found, List.head?_cons] at head
    rcases broken with gone | ⟨back, ends⟩
    · rw [gone] at head
      cases head
    · rw [back] at head
      cases head
      have next := lists'.holds.next (show members' leader = [] ++ proc :: more from found)
      have empty := List.head?_eq_none_iff.mp (next.symm.trans ends)
      rw [found, empty, List.mem_singleton] at member
      exact different member

variable [DecidableEq P]

/-- A process without members joins a group. -/
theorem Lists.join (alone : jobs.leader proc = none) (empty : ∀ other, jobs.leader other ≠ some proc)
    (leads : jobs.leader group = none) (different : proc ≠ group) :
    Lists ({ jobs with leader := update jobs.leader proc (some group) }.addtolist group proc)
      (update members group (proc :: members group)) := by
  have outside (list : P) : proc ∉ members list := by
    rw [lists.exact, alone]
    exact nofun
  have none_led : members proc = [] := List.eq_nil_iff_forall_not_mem.mpr fun other => by
      rw [lists.exact]
      exact empty other
  have first : update (update jobs.nextmember proc (jobs.nextmember group)) group (some proc) proc =
      jobs.nextmember group := by
    rw [update_of_ne different, update_self]
  refine ⟨(lists.holds.push outside group).congr ?_ ?_ ?_, ?_⟩
  · funext list
    simp only [Jobs.chains, Jobs.addtolist, Chains.push]
    by_cases here : list = group
    · simp [here, update_of_ne (Ne.symm different), leads]
    · by_cases mine : list = proc
      · have head := lists.head alone
        rw [none_led] at head
        simp [mine, update_of_ne different, alone, head]
      · simp [update_of_ne here, update_of_ne mine]
  · intro list other inside
    have member : other ≠ group := by
      intro same
      by_cases here : list = group
      · rw [here, update_self, List.mem_cons, lists.exact, same, leads] at inside
        exact inside.elim (fun wrong => different wrong.symm) nofun
      · rw [update_of_ne here, lists.exact, same, leads] at inside
        cases inside
    simp only [Jobs.chains, Jobs.addtolist, Chains.push, leads, if_true]
    rw [update_of_ne member]
  · intro list other _
    simp only [Jobs.chains, Jobs.addtolist, Chains.push, first, leads, if_true]
    cases jobs.nextmember group <;> rfl
  · intro list other
    by_cases here : list = group
    · by_cases mine : other = proc
      · simp [here, mine, Jobs.addtolist]
      · simp [here, mine, Jobs.addtolist, lists.exact]
    · by_cases mine : other = proc
      · simp [here, mine, Jobs.addtolist, outside, Ne.symm here]
      · simp [here, mine, Jobs.addtolist, lists.exact]

section Removal

variable (split : members leader = before ++ proc :: after)
include split

theorem Lists.removed_next (other : P) : (jobs.removefromlist leader proc).nextmember other =
    if before.getLast? = some other then after.head?
    else if before = [] ∧ other = leader then none else jobs.nextmember other := by
  have previous := lists.previous split
  have next := lists.next split
  simp only [Jobs.removefromlist, previous, next]
  cases last : before.getLast? with
  | none => simp [List.getLast?_eq_none_iff.mp last, update_apply]
  | some last =>
    have some_before : before ≠ [] := by
      rintro rfl
      cases last
    simp [update_apply, some_before, eq_comm]

/-- The process keeps its own link. -/
theorem Lists.removed_own : (jobs.removefromlist leader proc).nextmember proc = after.head? := by
  have next := lists.next split
  have distinct := (split ▸ lists.holds.distinct leader : (before ++ proc :: after).Nodup)
  rw [lists.removed_next split, if_neg, if_neg, next]
  · rintro ⟨-, same⟩
    exact ne_of_led (lists.led split) (lists.leads (lists.led split)) same
  · intro last
    exact (List.nodup_middle.mp distinct).notMem (List.mem_append_left _ (List.mem_of_getLast? last))

theorem Lists.removed_previous (other : P) : (jobs.removefromlist leader proc).previousmember other =
    if after.head? = some other then before.getLast? else jobs.previousmember other := by
  have own := lists.removed_own split
  have previous := lists.previous split
  unfold Jobs.removefromlist at own ⊢
  simp only [previous] at own ⊢
  rw [own]
  cases after.head? with
  | none => simp
  | some following => simp [update_apply, eq_comm]

/-- A member leaves its group, unless it is the first one of several. -/
theorem Lists.leave (kept : before = [] → after = []) :
    Lists ((jobs.removefromlist leader proc).clearGroup proc) (update members leader (before ++ after)) := by
  have leads := lists.leads (lists.led split)
  have outside := lists.holds.cut_outside split
  have inner (list other : P) : other ∈ update members leader (before ++ after) list ↔
      other ≠ proc ∧ other ∈ members list := by
    have apart := outside list
    by_cases here : list = leader
    · subst here
      rw [update_self] at apart ⊢
      rw [split]
      grind
    · rw [update_of_ne here] at apart ⊢
      grind
  refine ⟨(lists.holds.cut split).congr ?_ ?_ ?_, ?_⟩
  · funext list
    have previous := lists.previous split
    have next := lists.next split
    have last_led : ∀ last ∈ before.getLast?, jobs.leader last = some leader := fun last inside =>
      (lists.exact leader last).mp (by rw [split]; simp [List.mem_of_getLast? inside])
    have removed := lists.removed_next split list
    have led := lists.led split
    have same : (jobs.removefromlist leader proc).leader = jobs.leader := rfl
    simp only [Jobs.chains, Jobs.clearGroup, update_apply, Chains.cut, same, removed, previous, next]
    cases ending : before.getLast? with
    | none =>
      have nothing := List.getLast?_eq_none_iff.mp ending
      rw [kept nothing]
      simp only [update_apply]
      grind
    | some last =>
      grind
  · intro list other inside
    obtain ⟨different, member⟩ := (inner list other).mp inside
    have follower := ne_of_led ((lists.exact list other).mp member) leads
    rw [lists.holds.cut_next split]
    simp [Jobs.chains, Jobs.clearGroup, update_of_ne different, lists.removed_next split, follower]
  · intro list other inside
    obtain ⟨different, member⟩ := (inner list other).mp inside
    rw [lists.holds.cut_prev split]
    simp [Jobs.chains, Jobs.clearGroup, update_of_ne different, lists.removed_previous split]
  · intro list other
    rw [inner, lists.exact]
    by_cases mine : other = proc
    · simp [mine, Jobs.clearGroup]
    · simp [mine, Jobs.clearGroup, Jobs.removefromlist]

end Removal

end Lists

/-- Taking the process off its list does not drop others: it is not the first of several members. -/
def Leaves (jobs : Jobs P) (proc : P) : Prop :=
  jobs.leader proc = none ∨ jobs.previousmember proc ≠ none ∨ jobs.nextmember proc = none

/-- The call does not lose a member, mix two groups or leave a link behind. -/
def Call.Safe (jobs : Jobs P) : Call P → Prop
  | .addproc _ _ => True
  | .newgroup proc | .newsession proc => Leaves jobs proc
  | .changegroup proc group => jobs.leader proc = none ∨ Leaves jobs proc ∧ jobs.leader group = none
  | .detach proc => jobs.leader proc = none ∨ jobs.nextmember proc = none

/-- Only a new process is added, which nobody has joined yet. -/
def Call.Legal (jobs : Jobs P) : Call P → Prop
  | .addproc parent proc => proc ≠ parent ∧ jobs.leader proc = none ∧ ∀ other, jobs.leader other ≠ some proc
  | _ => True

theorem lists_zeroed : Lists (Jobs.zeroed : Jobs P) fun _ => [] := by
  refine ⟨Chains.holds_empty.congr ?_ (by simp) (by simp), by simp [Jobs.zeroed]⟩
  funext leader
  simp [Jobs.chains, Jobs.zeroed, Chains.empty]

section Calls

variable (lists : Lists jobs members) {proc leader group : P} {before after : List P}
include lists

theorem Lists.leaves_iff (split : members leader = before ++ proc :: after) :
    Leaves jobs proc ↔ (before = [] → after = []) := by
  have previous := lists.previous split
  have next := lists.next split
  simp only [Leaves, lists.led split, previous, next, reduceCtorEq, false_or, ne_eq, List.getLast?_eq_none_iff,
    List.head?_eq_none_iff]
  tauto

variable [DecidableEq P]

theorem Lists.leave_iff {later : Jobs P} (split : members leader = before ++ proc :: after)
    (leader_same : ∀ next, next ≠ proc → later.leader next = jobs.leader next) (broken : before = [] →
      later.nextmember leader = none ∨ later.nextmember leader = some proc ∧ later.nextmember proc = none)
    (kept : ∀ rest, Lists ((jobs.removefromlist leader proc).clearGroup proc) rest → ∃ members, Lists later members) :
    (∃ members, Lists later members) ↔ Leaves jobs proc := by
  rw [lists.leaves_iff split]
  refine ⟨fun found first => ?_, fun stays => kept _ (lists.leave split stays)⟩
  cases several : after with
  | nil => rfl
  | cons other rest => exact absurd found (lists.lost split first several leader_same (broken first))

theorem Lists.newgroup_iff (proc : P) : (∃ members, Lists (jobs.newgroup proc).1 members) ↔ Leaves jobs proc := by
  unfold Jobs.newgroup
  cases led : jobs.leader proc with
  | none => exact iff_of_true ⟨members, lists⟩ (.inl led)
  | some leader =>
    obtain ⟨before, after, split⟩ := List.append_of_mem ((lists.exact leader proc).mpr led)
    apply lists.leave_iff split
    · intro next different
      simp [Jobs.clearGroup, Jobs.removefromlist, different]
    · intro first
      simp [Jobs.clearGroup, update_apply, lists.removed_next split, first]
    · exact fun _ kept => ⟨_, kept⟩

theorem Lists.newsession_iff (proc : P) : (∃ members, Lists (jobs.newsession proc).1 members) ↔ Leaves jobs proc := by
  rw [← lists.newgroup_iff proc]
  unfold Jobs.newsession Jobs.newgroup
  cases jobs.leader proc with
  | none => exact Iff.rfl
  | some leader => exact ⟨fun ⟨_, found⟩ => ⟨_, found.session _⟩, fun ⟨_, found⟩ => ⟨_, found.session _⟩⟩

theorem Lists.changegroup_iff (proc group : P) : (∃ members, Lists (jobs.changegroup proc group).1 members) ↔
    jobs.leader proc = none ∨ Leaves jobs proc ∧ jobs.leader group = none := by
  unfold Jobs.changegroup
  cases led : jobs.leader proc with
  | none => exact iff_of_true ⟨members, lists⟩ (.inl rfl)
  | some leader =>
    obtain ⟨before, after, split⟩ := List.append_of_mem ((lists.exact leader proc).mpr led)
    have self := (ne_of_led led (lists.leads led)).symm
    simp only [reduceCtorEq, false_or]
    by_cases target : proc ≠ group ∧ jobs.leader group = none
    · obtain ⟨different, free⟩ := target
      rw [and_iff_left free]
      apply lists.leave_iff split
      · intro next other
        simp [Jobs.addtolist, Jobs.removefromlist, other]
      · intro first
        have gone := lists.removed_next split leader
        by_cases same : leader = group
        · subst same
          simp [Jobs.addtolist, gone, first, different]
        · simp [Jobs.addtolist, gone, first, same, self]
      · intro rest kept
        let cleared := (jobs.removefromlist leader proc).clearGroup proc
        have alone : cleared.leader proc = none := by simp [cleared, Jobs.clearGroup]
        have empty (other : P) : cleared.leader other ≠ some proc := by
          intro wrong
          by_cases mine : other = proc
          · rw [mine, alone] at wrong
            cases wrong
          · have before_too : jobs.leader other = some proc := by
              simpa [cleared, Jobs.clearGroup, Jobs.removefromlist, mine] using wrong
            rw [lists.leads before_too] at led
            cases led
        have leads : cleared.leader group = none := by
          simpa [cleared, Jobs.clearGroup, update_of_ne different.symm] using free
        have joined := kept.join alone empty leads different
        rw [addtolist_clearGroup _ different] at joined
        exact ⟨_, joined⟩
    · refine iff_of_false ?_ fun ⟨_, free⟩ => target ⟨ne_of_led led free, free⟩
      rintro ⟨members', lists'⟩
      apply target
      have led' : (update jobs.leader proc (some group)) proc = some group := update_self ..
      have free := lists'.leads led'
      have apart := ne_of_led led' free
      exact ⟨apart, by simpa [apart.symm] using free⟩

theorem Lists.detach_iff (proc : P) : (∃ members, Lists (jobs.detach proc) members) ↔
    jobs.leader proc = none ∨ jobs.nextmember proc = none := by
  unfold Jobs.detach
  cases led : jobs.leader proc with
  | none => exact iff_of_true ⟨members, lists.session _⟩ (.inl rfl)
  | some leader =>
    obtain ⟨before, after, split⟩ := List.append_of_mem ((lists.exact leader proc).mpr led)
    have own := lists.removed_own split
    have next := lists.next split
    simp only [reduceCtorEq, false_or, next]
    constructor
    · rintro ⟨members', lists'⟩
      cases later : after with
      | nil => rfl
      | cons other rest =>
        have free : update jobs.leader proc none proc = none := update_self ..
        have head := lists'.head free
        have first : other ∈ members' proc := by
          rw [own, later, List.head?_cons] at head
          exact List.mem_of_mem_head? head.symm
        have led' := (lists'.exact proc other).mp first
        have different : other ≠ proc := by
          rintro rfl
          simp at led'
        rw [lists.leads (by simpa [different] using led')] at led
        cases led
    · intro last
      have empty := List.head?_eq_none_iff.mp last
      have kept := lists.leave split fun _ => empty
      have unlinked : update (jobs.removefromlist leader proc).nextmember proc none =
          (jobs.removefromlist leader proc).nextmember := by
        rw [← last, ← own, update_eq_self]
      refine ⟨_, ⟨kept.holds.congr ?_ ?_ ?_, kept.exact⟩⟩
      · funext list
        simp only [Jobs.chains, Jobs.clearGroup, unlinked]
      · intro list other _
        simp only [Jobs.chains, Jobs.clearGroup, unlinked]
      · intro list other inside
        have different : other ≠ proc := fun same => lists.holds.cut_outside split list (same ▸ inside)
        simp only [Jobs.chains, Jobs.clearGroup, update_of_ne different]

theorem Lists.addproc {parent : P} (legal : (Call.addproc parent proc).Legal jobs) :
    ∃ members, Lists (jobs.addproc parent proc) members := by
  obtain ⟨different, alone, empty⟩ := legal
  unfold Jobs.addproc
  cases led : jobs.leader parent with
  | none => exact ⟨_, (lists.session _).join alone empty led different⟩
  | some leader => exact ⟨_, (lists.session _).join alone empty (lists.leads led) fun same => empty parent (same ▸ led)⟩

theorem Lists.call_iff (call : Call P) (legal : call.Legal jobs) :
    (∃ members, Lists (call.run jobs) members) ↔ call.Safe jobs := by
  cases call with
  | addproc parent proc => exact iff_of_true (lists.addproc legal) trivial
  | newgroup proc => exact lists.newgroup_iff proc
  | newsession proc => exact lists.newsession_iff proc
  | changegroup proc group => exact lists.changegroup_iff proc group
  | detach proc => exact lists.detach_iff proc

end Calls

variable [DecidableEq P]

def step (jobs : Jobs P) (call : Call P) : Except Unit (Jobs P) := .ok (call.run jobs)

def Call.Allowed (jobs : Jobs P) (call : Call P) : Prop := call.Legal jobs ∧ call.Safe jobs

theorem reached_lists (reached : Reaches step Call.Allowed Jobs.zeroed jobs) : ∃ members, Lists jobs members := by
  apply reached.keeps
  · rintro jobs call next ⟨members, lists⟩ ⟨legal, safe⟩ moved
    cases moved
    exact (lists.call_iff call legal).mpr safe
  · exact ⟨_, lists_zeroed⟩

/-- After safe calls, the next call keeps the groups exactly when it is safe too. -/
theorem call_keeps_groups_iff (reached : Reaches step Call.Allowed Jobs.zeroed jobs)
    (call : Call P) (legal : call.Legal jobs) : Grouped (call.run jobs) ↔ call.Safe jobs := by
  obtain ⟨members, lists⟩ := reached_lists reached
  rw [← lists.call_iff call legal]
  exact ⟨fun grouped => grouped.lists, fun ⟨_, found⟩ => found.grouped⟩

/-- The elder of two children leaves the group. -/
theorem elderChild_leaves :
    Grouped ([Call.addproc 0 1, .addproc 0 2, .newgroup 1].foldl Call.run (Jobs.zeroed : Jobs Nat)) := by
  have start : Reaches step Call.Allowed (Jobs.zeroed : Jobs Nat) Jobs.zeroed := .refl
  have first := start.next (show Call.Allowed _ (.addproc 0 1) from ⟨⟨by decide, rfl, nofun⟩, trivial⟩) rfl
  have second := first.next (show Call.Allowed _ (.addproc 0 2) from ⟨⟨by decide, rfl, fun other => by
    simp [Call.run, Jobs.addproc, Jobs.zeroed, update_apply]⟩, trivial⟩) rfl
  exact (call_keeps_groups_iff second (.newgroup 1) trivial).mpr (.inr (.inl (by decide)))

/-- The younger of two children leaves the group, and its leader no longer finds the other one. -/
theorem youngerChild_dropsOther :
    ¬ Grouped ([Call.addproc 0 1, .addproc 0 2, .newgroup 2].foldl Call.run (Jobs.zeroed : Jobs Nat)) := by
  rintro ⟨⟨members, lists⟩, -⟩
  have other : 1 ∈ members 0 := (lists.exact 0 1).mpr rfl
  have head : none = (members 0).head? := lists.holds.head 0
  rw [List.head?_eq_none_iff.mp head.symm] at other
  cases other

end Astral.Jobctl
