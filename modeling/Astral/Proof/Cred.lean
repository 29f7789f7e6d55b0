import Astral.Construction.Cred
import Mathlib.Tactic

namespace Astral.Auth

variable {failure : Errno} {ids : Ids} {id eid : Int} {result : Cred × Option Errno}

/-- The identities after a change are some of those before. -/
def Cred.Shrinks (cred next : Cred) : Prop := ∀ kind, (next.ids kind).values ⊆ (cred.ids kind).values

theorem Cred.Shrinks.refl (cred : Cred) : cred.Shrinks cred := fun _ => List.Subset.refl _

theorem Cred.Shrinks.trans {first second third : Cred} (one : first.Shrinks second) (two : second.Shrinks third) :
    first.Shrinks third := fun kind => List.Subset.trans (two kind) (one kind)

theorem ids_setIds (cred : Cred) (ids : Ids) (kind other : Kind) :
    (cred.setIds ids kind).ids other = if other = kind then ids else cred.ids other := by
  cases kind <;> cases other <;> rfl

/-- A change of one kind of identities to identities that the process has. -/
theorem Cred.Shrinks.setIds {cred : Cred} {kind : Kind} (known : ids.values ⊆ (cred.ids kind).values) :
    cred.Shrinks (cred.setIds ids kind) := by
  intro other
  rw [ids_setIds]
  split
  · next same =>
    rw [same]
    exact known
  · exact List.Subset.refl _

variable {cred : Cred} {error : Option Errno} {change : Cred}

theorem checked_shrinks (shrinks : error = none → cred.Shrinks change) :
    cred.Shrinks (checked cred error change).1 := by
  cases error with
  | none => exact shrinks rfl
  | some error => exact .refl cred

theorem checked_failed (failed : (checked cred error change).2 = some failure) :
    (checked cred error change).1 = cred := by
  cases error with
  | none => cases failed
  | some error => rfl

/-- The only listener decides. -/
theorem authCheck_none {action : Action} {sid : Int} (passed : authCheck cred action id eid sid = none) :
    credlistener cred ⟨id, eid, sid⟩ action = .allow := by
  unfold authCheck ask at passed
  split at passed
  · cases passed
  · next allowed => exact allowed
  · cases passed

theorem nonnegative_shrinks (shrinks : cred.Shrinks result.1) : cred.Shrinks (nonnegative cred id result).1 := by
  unfold nonnegative
  split
  · exact .refl cred
  · exact shrinks

theorem nonnegative_failed (same : result.2 = some failure → result.1 = cred)
    (failed : (nonnegative cred id result).2 = some failure) : (nonnegative cred id result).1 = cred := by
  unfold nonnegative at failed ⊢
  by_cases negative : id < 0
  · rw [if_pos negative]
  · rw [if_neg negative] at failed ⊢
    exact same failed

/-- A call that fails changes nothing. -/
theorem apply_failed (op : Op) (failed : (cred.apply op).2 = some failure) : (cred.apply op).1 = cred := by
  cases op with
  | setuids | setgids => exact checked_failed failed
  | setuid | setgid | seteuid | setegid => exact nonnegative_failed checked_failed failed
  | exec => cases failed

section Unprivileged

variable (unprivileged : cred.isEsu = false)
include unprivileged

theorem setres_shrinks (kind : Kind) (id eid sid : Int) : cred.Shrinks (setres kind cred id eid sid).1 := by
  refine checked_shrinks fun passed => .setIds ?_
  have allowed := authCheck_none passed
  have kept (new old : Int) (inside : old ∈ (cred.ids kind).values)
      (may : new ≠ -1 → new ∈ (cred.ids kind).values) : keep new old ∈ (cred.ids kind).values := by
    unfold keep
    split
    · exact inside
    · next other => exact may other
  have given : ∀ new ∈ Ids.values ⟨id, eid, sid⟩, new ≠ -1 → new ∈ (cred.ids kind).values := by
    simpa [credlistener, unprivileged] using allowed
  simp only [Ids.values, List.forall_mem_cons] at given
  simp only [Ids.values, List.cons_subset, List.nil_subset, and_true]
  exact ⟨kept _ _ (by simp [Ids.values]) given.1, kept _ _ (by simp [Ids.values]) given.2.1,
    kept _ _ (by simp [Ids.values]) given.2.2.1⟩

omit unprivileged in
theorem setEid_subset (known : ¬ (eid ≠ ids.id ∧ eid ≠ ids.sid)) : Ids.values { ids with eid } ⊆ ids.values := by
  simp only [Ids.values, List.cons_subset, List.nil_subset, and_true, List.mem_cons, List.not_mem_nil, or_false]
  tauto

theorem setid_shrinks (kind : Kind) (id : Int) : cred.Shrinks (setid kind cred id).1 := by
  refine nonnegative_shrinks (checked_shrinks fun passed => .setIds ?_)
  have allowed := authCheck_none passed
  simp only [credlistener, unprivileged, Bool.false_eq_true, if_false, ite_eq_right_iff, reduceCtorEq,
    imp_false] at allowed ⊢
  exact setEid_subset allowed

theorem seteid_shrinks (kind : Kind) (eid : Int) : cred.Shrinks (seteid kind cred eid).1 := by
  refine nonnegative_shrinks (checked_shrinks fun passed => .setIds ?_)
  have allowed := authCheck_none passed
  simp only [credlistener, unprivileged, Bool.false_eq_true, if_false, ite_eq_right_iff, reduceCtorEq,
    imp_false] at allowed
  exact setEid_subset allowed

theorem apply_shrinks (op : Op) : cred.Shrinks (cred.apply op).1 := by
  cases op with
  | setuids uid euid suid => exact setres_shrinks unprivileged .user uid euid suid
  | setgids gid egid sgid => exact setres_shrinks unprivileged .group gid egid sgid
  | setuid uid => exact setid_shrinks unprivileged .user uid
  | setgid gid => exact setid_shrinks unprivileged .group gid
  | seteuid euid => exact seteid_shrinks unprivileged .user euid
  | setegid egid => exact seteid_shrinks unprivileged .group egid
  | exec =>
    intro kind
    cases kind <;> simp [Cred.apply, credDoexec, Cred.ids, Ids.values]

end Unprivileged

theorem run_shrinks {cred : Cred} (unprivileged : superuser ∉ cred.uids.values) (ops : List Op) :
    cred.Shrinks (cred.run ops) := by
  induction ops generalizing cred with
  | nil => exact .refl cred
  | cons op rest ih =>
    have plain : cred.isEsu = false := by
      have other : cred.uids.eid ≠ superuser := fun same => unprivileged (by simp [Ids.values, same])
      simp [Cred.isEsu, other]
    have shrinks := apply_shrinks plain op
    -- the superuser is not among the identities that are left
    have still : superuser ∉ (cred.apply op).1.uids.values := fun gained => unprivileged (shrinks .user gained)
    exact shrinks.trans (ih still)

/-- A process that is not the superuser only keeps identities that it had, and a call that fails changes nothing. -/
theorem run_gains_nothing (cred : Cred) (unprivileged : superuser ∉ cred.uids.values) (ops : List Op) :
    cred.Shrinks (cred.run ops) ∧ ∀ op failure, ((cred.run ops).apply op).2 = some failure →
      ((cred.run ops).apply op).1 = cred.run ops :=
  ⟨run_shrinks unprivileged ops, fun op _ => apply_failed op⟩

theorem plainUser_gains_nothing : Cred.Shrinks ⟨⟨1000, 1000, 1001⟩, ⟨100, 100, 100⟩⟩
    (Cred.run ⟨⟨1000, 1000, 1001⟩, ⟨100, 100, 100⟩⟩ [.seteuid 1001, .setuid 0, .exec, .setuids (-1) 1000 (-1)]) :=
  (run_gains_nothing _ (by decide) _).1

theorem run_keeps_user {cred : Cred} {uid : Int} (user : 0 < uid) (same : cred.uids = ⟨uid, uid, uid⟩) (ops : List Op) :
    (cred.run ops).uids = ⟨uid, uid, uid⟩ := by
  have unprivileged : superuser ∉ cred.uids.values := by simp [Ids.values, superuser, same, user.ne]
  have kept := run_shrinks unprivileged ops .user
  cases left : (cred.run ops).uids
  simpa [Cred.ids, Ids.values, same, left] using kept

/-- A superuser that becomes a user with `setuid` stays that user. -/
theorem setuid_drops_for_good {cred : Cred} (root : cred.isEsu = true) {uid : Int} (user : 0 < uid) (ops : List Op) :
    ((credSetuid cred uid).1.run ops).uids = ⟨uid, uid, uid⟩ := by
  apply run_keeps_user user
  simp [credSetuid, setid, nonnegative, checked, authCheck, ask, credlistener, root, Cred.setIds, user.not_gt]

theorem daemon_drops_for_good :
    ((credSetuid ⟨⟨0, 0, 0⟩, ⟨0, 0, 0⟩⟩ 33).1.run [.setuid 0, .seteuid 0, .exec]).uids = ⟨33, 33, 33⟩ :=
  setuid_drops_for_good rfl (by decide) _

end Astral.Auth
