import Boardwalk.Peer.Capabilities
import Boardwalk.Persistence.Identity
import Boardwalk.Runtime.Resource

/-!
# Identities

`Boardwalk::build` of `server.rs`, as far as the two names of a server go: the display name, which
addresses it in URLs, and the node id, which addresses it in envelopes.  And
`resolve_or_create_resource_identity`: the id of an actor's resource, looked up by its kind and name
or minted, and persisted in the identity repository.
-/

namespace Boardwalk

/-! ### The names of a server -/

/-- `resolve_node_id`; `generated` is the UUID of a first start with persistence. -/
def resolveNodeId (explicit persisted : Option String) (persistenceEnabled : Bool) (name : String)
    (generated : Uuid) : String :=
  (explicit.or persisted).getD (if persistenceEnabled then generated.toText else name)

/-- The builder's settings that `build` names the server with. -/
structure ServerBuilder where
  name : String
  nodeId : Option String := none
  deriving Repr, DecidableEq

/-- What `build` reads from the opened store: the node id of the local record, if there is one. -/
structure PersistedConfig where
  nodeId : Option String
  deriving Repr, DecidableEq

/-- A built server. -/
structure Built where
  /-- `core.name`. -/
  coreName : String
  /-- The id of the node. -/
  nodeId : String
  deriving Repr, DecidableEq

/-- `Boardwalk::build`; without a persistence path there are no repositories. -/
def ServerBuilder.build (b : ServerBuilder) (repositories : Option PersistedConfig)
    (generated : Uuid) : Built where
  coreName := b.name
  nodeId :=
    resolveNodeId b.nodeId (repositories.bind (·.nodeId)) repositories.isSome b.name generated

/-! ### The identities of its resources -/

/-- The fields of an actor's spec that name its resource. -/
structure ResourceSpec where
  kind : String
  name : Option String := none
  deriving Repr, DecidableEq

inductive ResourceIdentityError where
  | storage
  | conflict (msg : String)
  deriving Repr, DecidableEq

/-- `resource_identity_storage_error`. -/
def resourceIdentityStorageError : StorageError → ResourceIdentityError
  | .conflict msg => .conflict msg
  | .unavailable _ | .corrupt _ | .internal _ => .storage

/-- `resource_identity_keys`. -/
def resourceIdentityKeys (spec : ResourceSpec) : List IdentityKey :=
  match spec.name with
  | some name => [.staticName spec.kind name]
  | none => [.staticUnnamed spec.kind]

/-- `resource_identity_label`. -/
def resourceIdentityLabel (spec : ResourceSpec) : String :=
  match spec.name with
  | some name => spec.kind ++ ":" ++ name
  | none => spec.kind

/-- `resource_identity_record_matches`. -/
def resourceIdentityRecordMatches (record : ResourceIdentityRecord) (spec : ResourceSpec) : Bool :=
  record.kind == spec.kind && record.name == spec.name

/-- The conflict of an explicit id that a record of another identity has. -/
def idRegistered (id : String) : ResourceIdentityError :=
  .conflict ("resource id `" ++ id ++ "` is already registered")

/-- The conflict of an identity that another id has, or whose id is no UUID. -/
def identityRegistered (spec : ResourceSpec) : ResourceIdentityError :=
  .conflict ("resource identity `" ++ resourceIdentityLabel spec ++ "` is already registered")

section Repository

variable {σ : Type} (identities : ResourceIdentityRepository σ) (s : σ)

/-- `find_resource_identity`. -/
def findResourceIdentity : List IdentityKey →
    Except ResourceIdentityError (Option ResourceIdentityRecord)
  | [] => .ok none
  | key :: keys =>
    match identities.findByIdentityKey s key with
    | .error err => .error (resourceIdentityStorageError err)
    | .ok (some record) => .ok (some record)
    | .ok none => findResourceIdentity keys

/-- The record of `put_resource_identity`. -/
def identityRecord (spec : ResourceSpec) (id : String) (nowMs : Int) : ResourceIdentityRecord where
  id := id
  kind := spec.kind
  name := spec.name
  identityKeys := resourceIdentityKeys spec
  labels := []
  createdMs := nowMs
  updatedMs := nowMs

/-- `put_resource_identity`. -/
def putResourceIdentity (spec : ResourceSpec) (id : String) (nowMs : Int) :
    σ × Except ResourceIdentityError Unit :=
  let (s, result) := identities.put s (identityRecord spec id nowMs)
  (s, result.mapError resourceIdentityStorageError)

end Repository

section Resolve

variable {σ : Type} (repositories : Option (ResourceIdentityRepository σ)) (s : σ)

/-- `resolve_or_create_resource_identity`; `minted` is the UUID that it generates when it has to,
`nowMs` the clock. -/
def resolveOrCreateResourceIdentity (spec : ResourceSpec) (explicit : Option String)
    (minted : Uuid) (nowMs : Int) : σ × Except ResourceIdentityError String :=
  match repositories with
  | none => (s, .ok (explicit.getD minted.toText))
  | some identities =>
    match explicit with
    | some id =>
      match identities.get s id with
      | .error err => (s, .error (resourceIdentityStorageError err))
      | .ok (some existing) =>
        if resourceIdentityRecordMatches existing spec then (s, .ok id)
        else (s, .error (idRegistered id))
      | .ok none =>
        match findResourceIdentity identities s (resourceIdentityKeys spec) with
        | .error err => (s, .error err)
        | .ok existing =>
          if existing.any fun existing => existing.id != id then
            (s, .error (identityRegistered spec))
          else
            let (s, result) := putResourceIdentity identities s spec id nowMs
            (s, result.map fun _ => id)
    | none =>
      match findResourceIdentity identities s (resourceIdentityKeys spec) with
      | .error err => (s, .error err)
      | .ok (some existing) => (s, .ok existing.id)
      | .ok none =>
        let (s, result) := putResourceIdentity identities s spec minted.toText nowMs
        (s, result.map fun _ => minted.toText)

/-- `resolve_or_create_resource_identity_uuid`; `parseStr` is `Uuid::parse_str`. -/
def resolveOrCreateResourceIdentityUuid (parseStr : String → Option Uuid) (spec : ResourceSpec)
    (explicit : Option Uuid) (minted : Uuid) (nowMs : Int) :
    σ × Except ResourceIdentityError Uuid :=
  match resolveOrCreateResourceIdentity repositories s spec (explicit.map Uuid.toText) minted
    nowMs with
  | (s, .error err) => (s, .error err)
  | (s, .ok id) =>
    match parseStr id with
    | some id => (s, .ok id)
    | none => (s, .error (identityRegistered spec))

end Resolve

end Boardwalk
