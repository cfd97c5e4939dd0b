import Boardwalk.Lib.Machine
import Boardwalk.Server.Identity

/-!
# Registrations at the same time

Calls of `resolve_or_create_resource_identity` over one redb store, as a machine whose steps are
redb transactions.  `RedbRepositories` begins a transaction of its own for every read and for every
write, so that the calls take their steps in any order.
-/

namespace Boardwalk

/-- Where a call is: before the transaction that it begins next, or at its end. -/
inductive RegistrationPhase where
  /-- Before the read of the record of an explicit id. -/
  | get (id : String)
  /-- Before the search for the identity keys. -/
  | find
  /-- In `put`, before its scan of the records. -/
  | scan (id : String) (nowMs : Int)
  /-- In `put`, before its write. -/
  | write (id : String) (nowMs : Int)
  | returned (result : Except ResourceIdentityError String)
  deriving DecidableEq

/-- A call of `resolve_or_create_resource_identity`. -/
structure Registration where
  spec : ResourceSpec
  explicit : Option String
  phase : RegistrationPhase
  deriving DecidableEq

namespace Registration

/-- A call before its first transaction. -/
def start (spec : ResourceSpec) (explicit : Option String) : Registration where
  spec := spec
  explicit := explicit
  phase := match explicit with
    | some id => .get id
    | none => .find

/-- What a call goes on with once it has searched for the keys: an explicit id has to be that of the
record found, and without one that record is the answer. -/
def found (reg : Registration) (minted : Uuid) (nowMs : Int)
    (existing : Option ResourceIdentityRecord) : RegistrationPhase :=
  match reg.explicit with
  | some id =>
    if existing.any fun existing => existing.id != id then
      .returned (.error (identityRegistered reg.spec))
    else .scan id nowMs
  | none =>
    match existing with
    | some existing => .returned (.ok existing.id)
    | none => .scan minted.toText nowMs

/-- The next transaction of a call, and what it does up to the one after.  With a fault the
transaction fails.  `resource_identity_keys` gives one key, so the search reads once. -/
def advance (reg : Registration) (t : RedbIdentities) (fault : Option StorageError) (minted : Uuid)
    (nowMs : Int) : Option (RedbIdentities × RegistrationPhase) :=
  match reg.phase with
  | .get id =>
    match t.getJson fault id with
    | .error err => some (t, .returned (.error (resourceIdentityStorageError err)))
    | .ok (some existing) =>
      if resourceIdentityRecordMatches existing reg.spec then some (t, .returned (.ok id))
      else some (t, .returned (.error (idRegistered id)))
    | .ok none => some (t, .find)
  | .find =>
    match findResourceIdentity (RedbResourceIdentityRepository { find := fault }) t
      (resourceIdentityKeys reg.spec) with
    | .error err => some (t, .returned (.error err))
    | .ok existing => some (t, reg.found minted nowMs existing)
  | .scan id nowMs =>
    match t.listJson fault with
    | .error err => some (t, .returned (.error (resourceIdentityStorageError err)))
    | .ok records =>
      match RedbIdentities.otherOwner records (identityRecord reg.spec id nowMs) with
      | some existing =>
        some (t, .returned (.error (resourceIdentityStorageError (alreadyAssigned existing.id))))
      | none => some (t, .write id nowMs)
  | .write id nowMs =>
    let (t, result) := t.putJson fault (identityRecord reg.spec id nowMs)
    some (t, .returned ((result.mapError resourceIdentityStorageError).map fun _ => id))
  | .returned _ => none

end Registration

/-- The store and the calls. -/
structure Registrations where
  identities : RedbIdentities
  calls : List Registration := []

inductive RegistrationsAction where
  | start (spec : ResourceSpec) (explicit : Option String)
  /-- The next transaction of call `k`. -/
  | advance (k : ℕ) (fault : Option StorageError) (minted : Uuid) (nowMs : Int)

namespace Registrations

def step (s : Registrations) : RegistrationsAction → Option Registrations
  | .start spec explicit => some { s with calls := s.calls ++ [.start spec explicit] }
  | .advance k fault minted nowMs => do
    let reg ← s.calls[k]?
    let (identities, phase) ← reg.advance s.identities fault minted nowMs
    some { identities, calls := s.calls.set k { reg with phase } }

/-- The calls on an empty store.  What an earlier process left is what calls left that do not go
on. -/
def machine : Machine Registrations RegistrationsAction where
  init := { identities := .empty }
  step := step

end Registrations

end Boardwalk
