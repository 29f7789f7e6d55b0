/-
This file models the credentials of a process and the checks on changes of its identities.
-/

import Astral.Construction.Machine

namespace Astral.Auth

/-- The real, the effective and the saved identity. -/
structure Ids where
  id : Int
  eid : Int
  sid : Int
  deriving DecidableEq

def Ids.values (ids : Ids) : List Int := [ids.id, ids.eid, ids.sid]

inductive Kind where
  | user
  | group
  deriving DecidableEq

/-- The fields `uid`, `euid` and `suid`, and `gid`, `egid` and `sgid`. -/
structure Cred where
  uids : Ids
  gids : Ids
  deriving DecidableEq

def superuser : Int := 0

namespace Cred

variable (cred : Cred)

def ids : Kind → Ids
  | .user => cred.uids
  | .group => cred.gids

def setIds (ids : Ids) : Kind → Cred
  | .user => { cred with uids := ids }
  | .group => { cred with gids := ids }

def isEsu : Bool := cred.uids.eid = superuser

end Cred

/-- The callers ask for one action at a time. -/
inductive Action where
  | setres (kind : Kind)
  | setid (kind : Kind)
  | seteid (kind : Kind)

inductive Decision where
  | allow
  | defer
  | deny
  deriving DecidableEq

def credlistener (cred : Cred) (args : Ids) : Action → Decision
  | .setres kind =>
    if cred.isEsu then .allow
    else if args.values.all fun id => id = -1 || id ∈ (cred.ids kind).values then .allow
    else .deny
  | .setid kind =>
    if cred.isEsu then .allow
    else if args.id ≠ (cred.ids kind).id ∧ args.id ≠ (cred.ids kind).sid then .deny
    else .allow
  | .seteid kind =>
    if cred.isEsu then .allow
    else if args.eid ≠ (cred.ids kind).id ∧ args.eid ≠ (cred.ids kind).sid then .deny
    else .allow

/-- The walk over the listeners with the number of those that allowed the action. -/
def ask (cred : Cred) (args : Ids) (action : Action) (allow : Nat) :
    List (Cred → Ids → Action → Decision) → Option Errno
  | [] => if allow = 0 then some .eperm else none
  | listener :: rest =>
    match listener cred args action with
    | .deny => some .eperm
    | .allow => ask cred args action (allow + 1) rest
    | .defer => ask cred args action allow rest

def authCheck (cred : Cred) (action : Action) (id eid sid : Int) : Option Errno :=
  ask cred ⟨id, eid, sid⟩ action 0 [credlistener]

/-- A change that is made when its check does not fail. -/
def checked (cred : Cred) (error : Option Errno) (change : Cred) : Cred × Option Errno :=
  match error with
  | some error => (cred, some error)
  | none => (change, none)

/-- A call that takes no negative identity. -/
def nonnegative (cred : Cred) (id : Int) (result : Cred × Option Errno) : Cred × Option Errno :=
  if id < 0 then (cred, some .einval) else result

def keep (new old : Int) : Int := if new = -1 then old else new

def setres (kind : Kind) (cred : Cred) (id eid sid : Int) : Cred × Option Errno :=
  let old := cred.ids kind
  checked cred (authCheck cred (.setres kind) id eid sid)
    (cred.setIds ⟨keep id old.id, keep eid old.eid, keep sid old.sid⟩ kind)

def setid (kind : Kind) (cred : Cred) (id : Int) : Cred × Option Errno :=
  nonnegative cred id (checked cred (authCheck cred (.setid kind) id (-1) (-1))
    (cred.setIds (if cred.isEsu then ⟨id, id, id⟩ else { cred.ids kind with eid := id }) kind))

def seteid (kind : Kind) (cred : Cred) (eid : Int) : Cred × Option Errno :=
  nonnegative cred eid (checked cred (authCheck cred (.seteid kind) (-1) eid (-1))
    (cred.setIds { cred.ids kind with eid } kind))

def credSetuids : Cred → Int → Int → Int → Cred × Option Errno := setres .user

def credSetgids : Cred → Int → Int → Int → Cred × Option Errno := setres .group

def credSetuid : Cred → Int → Cred × Option Errno := setid .user

def credSetgid : Cred → Int → Cred × Option Errno := setid .group

def credSeteuid : Cred → Int → Cred × Option Errno := seteid .user

def credSetegid : Cred → Int → Cred × Option Errno := seteid .group

def credDoexec (cred : Cred) (suid sgid : Int) : Cred :=
  let euid := if suid > -1 then suid else cred.uids.eid
  let egid := if sgid > -1 then sgid else cred.gids.eid
  ⟨⟨cred.uids.id, euid, euid⟩, ⟨cred.gids.id, egid, egid⟩⟩

inductive Op where
  | setuids (uid euid suid : Int)
  | setgids (gid egid sgid : Int)
  | setuid (uid : Int)
  | seteuid (euid : Int)
  | setgid (gid : Int)
  | setegid (egid : Int)
  /-- A file without set-id bits is executed. -/
  | exec

def Cred.apply (cred : Cred) : Op → Cred × Option Errno
  | .setuids uid euid suid => credSetuids cred uid euid suid
  | .setgids gid egid sgid => credSetgids cred gid egid sgid
  | .setuid uid => credSetuid cred uid
  | .seteuid euid => credSeteuid cred euid
  | .setgid gid => credSetgid cred gid
  | .setegid egid => credSetegid cred egid
  | .exec => (credDoexec cred (-1) (-1), none)

def Cred.run (cred : Cred) (ops : List Op) : Cred := ops.foldl (fun cred op => (cred.apply op).1) cred

end Astral.Auth
