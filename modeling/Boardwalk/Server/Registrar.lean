import Boardwalk.Http.Core
import Boardwalk.Runtime.Directory
import Boardwalk.Server.Identity

/-!
# Registering resources at run time

The registrar of `build_resource_registrar` in `server.rs`: a factory makes the actor of a request,
its identity is resolved and persisted, and the actor goes into the directory of the node; at the
end the first snapshot of the resource is persisted.
-/

namespace Boardwalk

/-- The parsed inputs of a registration. -/
structure ResourceRegistration where
  kind : String
  name : Option String := none
  id : Option Uuid := none
  fields : List (String × String) := []
  deriving DecidableEq

inductive ResourceRegistrationError where
  | invalid (msg : String)
  | conflict (msg : String)
  | internal (msg : String)
  deriving Repr, DecidableEq

/-- `registration_identity_error`. -/
def registrationIdentityError : ResourceIdentityError → ResourceRegistrationError
  | .storage => .internal "storage unavailable"
  | .conflict msg => .conflict msg

/-- `registration_resource_error`. -/
def registrationResourceError : ResourceError → ResourceRegistrationError
  | .notFound id => .invalid ("unknown resource `" ++ id ++ "`")
  | .unavailable msg => .internal msg
  | .internal msg =>
    if msg.startsWith "duplicate resource id: " then .conflict msg else .internal msg

/-- What a factory makes: an actor with its spec and the streams in it. -/
structure FactoryActor where
  spec : ResourceSpec
  streams : List String := []
  deriving DecidableEq

abbrev ActorFactory := ResourceRegistration → Except ResourceRegistrationError FactoryActor

/-- `Node::register_with_id`, with the entry of `spawn_actor_entry`. -/
def ResourceDirectory.registerWithId (dir : ResourceDirectory) (id : String)
    (actor : FactoryActor) : ResourceDirectory × Except ResourceError Unit :=
  if dir.containsId id then (dir, .error (duplicateResourceId id))
  else dir.insert { id := id, kind := actor.spec.kind, streams := actor.streams }

section Registrar

variable {δ : Type}

/-- What the registrar reads and writes: the directory of the node and the two stores. -/
structure RegistrarState (δ : Type) where
  directory : ResourceDirectory
  /-- Repositories are configured. -/
  persistent : Bool
  identities : RedbIdentities
  snapshots : SnapshotStore δ

/-- What a registration meets: the id and the clock of the process, the failures of the storage,
and the answer of the new actor to its first read. -/
structure RegistrarEnv (δ : Type) where
  /-- `Uuid::parse_str`. -/
  parseStr : String → Option Uuid
  /-- The id of the node. -/
  node : String
  minted : Uuid
  nowMs : Int
  io : IoFaults
  /-- `upsert_latest` works. -/
  upserts : Bool
  reply : Except ResourceError (Snapshot δ)

/-- `persist_latest_resource_snapshot` on the answer of the new actor; a failure is only logged. -/
def RegistrarState.persistLatest (s : RegistrarState δ) (env : RegistrarEnv δ) (id : String) :
    SnapshotStore δ :=
  match s.directory.getById id, env.reply with
  | some entry, .ok reply =>
    if s.persistent && env.upserts then
      s.snapshots.upsertLatest
        { toResourceSnapshot := entry.snapshot reply.toResourceSnapshot env.node
          report := reply.report }
    else s.snapshots
  | _, _ => s.snapshots

/-- A request to the registrar of `build_resource_registrar`. -/
def RegistrarState.register (s : RegistrarState δ) (factories : Table String ActorFactory)
    (env : RegistrarEnv δ) (registration : ResourceRegistration) :
    RegistrarState δ × Except ResourceRegistrationError String :=
  match factories.get? registration.kind with
  | none => (s, .error (.invalid ("unknown resource kind `" ++ registration.kind ++ "`")))
  | some factory =>
    match factory registration with
    | .error err => (s, .error err)
    | .ok actor =>
      let repositories :=
        if s.persistent then some (RedbResourceIdentityRepository env.io) else none
      match resolveOrCreateResourceIdentityUuid repositories s.identities env.parseStr actor.spec
        registration.id env.minted env.nowMs with
      | (identities, .error err) =>
        ({ s with identities }, .error (registrationIdentityError err))
      | (identities, .ok id) =>
        match s.directory.registerWithId id.toText actor with
        | (directory, .error err) =>
          ({ s with identities, directory }, .error (registrationResourceError err))
        | (directory, .ok ()) =>
          let s := { s with identities, directory }
          ({ s with snapshots := s.persistLatest env id.toText }, .ok id.toText)

end Registrar

end Boardwalk
