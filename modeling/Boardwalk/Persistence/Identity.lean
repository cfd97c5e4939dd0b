import Boardwalk.Lib.Table

/-!
# Identity repositories

The two implementations of `ResourceIdentityRepository`: the in-memory store of `persistence/mod.rs`,
which keeps an index from identity keys to ids, and the redb store of `persistence/redb.rs`, which
has records by id and scans them.  A redb table is a finite map in the order of its keys; the records
in it are read back as they were written.
-/

namespace Boardwalk

inductive StorageError where
  | unavailable (msg : String)
  | conflict (msg : String)
  | corrupt (msg : String)
  | internal (msg : String)
  deriving Repr, DecidableEq

/-- The variants of `StorageError`. -/
inductive StorageErrorKind where
  | unavailable
  | conflict
  | corrupt
  | internal
  deriving Repr, DecidableEq

def StorageError.kind : StorageError → StorageErrorKind
  | .unavailable _ => .unavailable
  | .conflict _ => .conflict
  | .corrupt _ => .corrupt
  | .internal _ => .internal

structure IdentityKey where
  «namespace» : String
  kind : String
  key : String
  deriving Repr, DecidableEq

def IdentityKey.staticName (kind name : String) : IdentityKey where
  «namespace» := "static"
  kind := kind
  key := name

def IdentityKey.staticUnnamed (kind : String) : IdentityKey where
  «namespace» := "static"
  kind := kind
  key := ""

structure ResourceIdentityRecord where
  id : String
  kind : String
  name : Option String
  identityKeys : List IdentityKey
  /-- In the order of the names. -/
  labels : List (String × String) := []
  createdMs : Int := 0
  updatedMs : Int := 0
  deriving Repr, DecidableEq

/-- The trait, over the state of a store. -/
structure ResourceIdentityRepository (σ : Type) where
  get : σ → String → Except StorageError (Option ResourceIdentityRecord)
  put : σ → ResourceIdentityRecord → σ × Except StorageError Unit
  findByIdentityKey : σ → IdentityKey → Except StorageError (Option ResourceIdentityRecord)

/-- The error of both stores for a key of the record `existingId`. -/
def alreadyAssigned (existingId : String) : StorageError :=
  .conflict ("identity key is already assigned to `" ++ existingId ++ "`")

/-! ### The in-memory store -/

/-- What the state behind a `ResourceIdentityStore` has for identities. -/
structure RepositoryState where
  identities : Table String ResourceIdentityRecord := .empty
  identityKeys : Table IdentityKey String := .empty

namespace RepositoryState

def get (s : RepositoryState) (id : String) :
    Except StorageError (Option ResourceIdentityRecord) :=
  .ok (s.identities.get? id)

/-- The first loop of `put`: the owner of the first key that another record has. -/
def otherOwner (s : RepositoryState) (id : String) : List IdentityKey → Option String
  | [] => none
  | key :: keys =>
    match s.identityKeys.get? key with
    | some existingId => if existingId ≠ id then some existingId else s.otherOwner id keys
    | none => s.otherOwner id keys

/-- The keys that a record with the id has before a `put`. -/
def previousKeys (s : RepositoryState) (id : String) : List IdentityKey :=
  match s.identities.get? id with
  | some previous => previous.identityKeys
  | none => []

def put (s : RepositoryState) (record : ResourceIdentityRecord) :
    RepositoryState × Except StorageError Unit :=
  match s.otherOwner record.id record.identityKeys with
  | some existingId => (s, .error (alreadyAssigned existingId))
  | none =>
    ({ identities := s.identities.insert record.id record
       identityKeys := record.identityKeys.foldl (fun m key => m.insert key record.id)
        ((s.previousKeys record.id).foldl Table.remove s.identityKeys) }, .ok ())

def findByIdentityKey (s : RepositoryState) (key : IdentityKey) :
    Except StorageError (Option ResourceIdentityRecord) :=
  match s.identityKeys.get? key with
  | none => .ok none
  | some id => .ok (s.identities.get? id)

end RepositoryState

def ResourceIdentityStore : ResourceIdentityRepository RepositoryState where
  get := RepositoryState.get
  put := RepositoryState.put
  findByIdentityKey := RepositoryState.findByIdentityKey

/-! ### The redb store -/

/-- Which operations of one call fail: reading one record, listing all of them for a search or for
the check of a `put`, and its write transaction. -/
structure IoFaults where
  get : Option StorageError := none
  find : Option StorageError := none
  scan : Option StorageError := none
  write : Option StorageError := none

/-- The table `resource_identities_v1`; every record is stored under its id. -/
structure RedbIdentities where
  table : Std.ExtTreeMap String ResourceIdentityRecord
  keyed : ∀ (id : String) (record : ResourceIdentityRecord),
    table[id]? = some record → record.id = id

namespace RedbIdentities

def empty : RedbIdentities where
  table := ∅
  keyed := by simp

/-- `table.insert` of `put_json`. -/
def insert (t : RedbIdentities) (record : ResourceIdentityRecord) : RedbIdentities where
  table := t.table.insert record.id record
  keyed id r hr := by
    rw [Std.ExtTreeMap.getElem?_insert] at hr
    split at hr
    · rename_i hid
      rw [← Option.some.inj hr]
      exact Std.LawfulEqCmp.eq_of_compare hid
    · exact t.keyed id r hr

/-- `get_json`. -/
def getJson (fault : Option StorageError) (t : RedbIdentities) (id : String) :
    Except StorageError (Option ResourceIdentityRecord) :=
  match fault with
  | some err => .error err
  | none => .ok t.table[id]?

/-- The records of the table. -/
def records (t : RedbIdentities) : List ResourceIdentityRecord := t.table.toList.map (·.2)

/-- `list_json`. -/
def listJson (fault : Option StorageError) (t : RedbIdentities) :
    Except StorageError (List ResourceIdentityRecord) :=
  match fault with
  | some err => .error err
  | none => .ok t.records

/-- `put_json`. -/
def putJson (fault : Option StorageError) (t : RedbIdentities) (record : ResourceIdentityRecord) :
    RedbIdentities × Except StorageError Unit :=
  match fault with
  | some err => (t, .error err)
  | none => (t.insert record, .ok ())

/-- `identity_keys_overlap`. -/
def identityKeysOverlap (left right : List IdentityKey) : Bool :=
  left.any fun key => right.any fun other => other == key

/-- The loop of `put`: the first other record that has one of the keys. -/
def otherOwner (records : List ResourceIdentityRecord) (record : ResourceIdentityRecord) :
    Option ResourceIdentityRecord :=
  records.find? fun existing =>
    existing.id != record.id && identityKeysOverlap existing.identityKeys record.identityKeys

def put (io : IoFaults) (t : RedbIdentities) (record : ResourceIdentityRecord) :
    RedbIdentities × Except StorageError Unit :=
  match t.listJson io.scan with
  | .error err => (t, .error err)
  | .ok records =>
    match otherOwner records record with
    | some existing => (t, .error (alreadyAssigned existing.id))
    | none => t.putJson io.write record

/-- The loop of `find_by_identity_key`. -/
def holder (records : List ResourceIdentityRecord) (key : IdentityKey) :
    Option ResourceIdentityRecord :=
  records.find? fun record => record.identityKeys.any (· == key)

def findByIdentityKey (io : IoFaults) (t : RedbIdentities) (key : IdentityKey) :
    Except StorageError (Option ResourceIdentityRecord) :=
  (t.listJson io.find).map fun records => holder records key

end RedbIdentities

def RedbResourceIdentityRepository (io : IoFaults) : ResourceIdentityRepository RedbIdentities where
  get := RedbIdentities.getJson io.get
  put := RedbIdentities.put io
  findByIdentityKey := RedbIdentities.findByIdentityKey io

end Boardwalk
