import Boardwalk.Persistence.Identity
import Mathlib.Data.List.AList

/-!
# Node config repositories

The two implementations of `NodeConfigRepository`: `NodeConfigStore` of `persistence/mod.rs`, a hash
map behind a lock, and `RedbNodeConfigRepository` of `persistence/redb.rs`, a table of JSON rows.
Both store a record under its node id and under `LOCAL_NODE_SENTINEL_KEY`.  The hash map is written
to under one lock, the table in two transactions.
-/

namespace Boardwalk

structure NodeConfigRecord where
  nodeId : String
  displayName : String
  routeName : String
  updatedMs : Int
  deriving Repr, DecidableEq

/-- Reserved: `\0` is never a byte of a node id. -/
def LOCAL_NODE_SENTINEL_KEY : String := "\x00local"

/-- The trait, over the state of a store. -/
structure NodeConfigRepository (σ : Type) where
  put : σ → NodeConfigRecord → σ × Except StorageError Unit
  get : σ → String → Except StorageError (Option NodeConfigRecord)
  getLocal : σ → Except StorageError (Option NodeConfigRecord)

/-- `Iterator::max_by_key`: of several largest ones the last. -/
def maxByKey {α : Type} (f : α → Int) : List α → Option α
  | [] => none
  | a :: l => some (l.foldl (fun best b => if f best ≤ f b then b else best) a)

/-! ### The in-memory store -/

/-- `node_configs` of the state behind a `NodeConfigStore`. -/
abbrev NodeConfigs := AList fun _ : String => NodeConfigRecord

/-- The order in which a hash map gives its entries. -/
structure IterationOrder where
  of : List (Sigma fun _ : String => NodeConfigRecord) →
    List (Sigma fun _ : String => NodeConfigRecord)
  perm : ∀ entries, (of entries).Perm entries

namespace NodeConfigs

def put (s : NodeConfigs) (record : NodeConfigRecord) : NodeConfigs × Except StorageError Unit :=
  ((s.insert LOCAL_NODE_SENTINEL_KEY record).insert record.nodeId record, .ok ())

def get (s : NodeConfigs) (nodeId : String) : Except StorageError (Option NodeConfigRecord) :=
  .ok (s.lookup nodeId)

/-- The records that the fallback of `get_local` looks at. -/
def unmarked (order : IterationOrder) (s : NodeConfigs) : List NodeConfigRecord :=
  ((order.of s.entries).filter fun e => e.1 != LOCAL_NODE_SENTINEL_KEY).map (·.2)

def getLocal (order : IterationOrder) (s : NodeConfigs) :
    Except StorageError (Option NodeConfigRecord) :=
  match s.lookup LOCAL_NODE_SENTINEL_KEY with
  | some record => .ok (some record)
  | none => .ok (maxByKey (·.updatedMs) (s.unmarked order))

end NodeConfigs

def NodeConfigStore (order : IterationOrder) : NodeConfigRepository NodeConfigs where
  put := NodeConfigs.put
  get := NodeConfigs.get
  getLocal := NodeConfigs.getLocal order

/-! ### The redb store -/

/-- What `serde_json` makes of the bytes of a row: the record, or the text of its error. -/
abbrev NodeConfigRow := Except String NodeConfigRecord

/-- The table `node_configs_v1`, in the order of its keys. -/
abbrev RedbNodeConfigs := Std.ExtTreeMap String NodeConfigRow

/-- Which operations of one call fail: reading one row, listing all of them, and the two write
transactions of a `put`. -/
structure NodeConfigFaults where
  get : Option StorageError := none
  list : Option StorageError := none
  writeSentinel : Option StorageError := none
  writeNode : Option StorageError := none

namespace RedbNodeConfigs

/-- `put_json`: one transaction, which leaves the table when it fails. -/
def putJson (fault : Option StorageError) (t : RedbNodeConfigs) (key : String)
    (record : NodeConfigRecord) : RedbNodeConfigs × Except StorageError Unit :=
  match fault with
  | some err => (t, .error err)
  | none => (t.insert key (.ok record), .ok ())

/-- `get_json`. -/
def getJson (fault : Option StorageError) (t : RedbNodeConfigs) (key : String) :
    Except StorageError (Option NodeConfigRecord) :=
  match fault with
  | some err => .error err
  | none =>
    match t[key]? with
    | some row => (row.mapError .corrupt).map some
    | none => .ok none

/-- `list_json`. -/
def listJson (fault : Option StorageError) (t : RedbNodeConfigs) :
    Except StorageError (List NodeConfigRecord) :=
  match fault with
  | some err => .error err
  | none => t.toList.mapM fun (_, row) => row.mapError .corrupt

def put (io : NodeConfigFaults) (t : RedbNodeConfigs) (record : NodeConfigRecord) :
    RedbNodeConfigs × Except StorageError Unit :=
  match t.putJson io.writeSentinel LOCAL_NODE_SENTINEL_KEY record with
  | (t, .error err) => (t, .error err)
  | (t, .ok ()) => t.putJson io.writeNode record.nodeId record

def get (io : NodeConfigFaults) (t : RedbNodeConfigs) (nodeId : String) :
    Except StorageError (Option NodeConfigRecord) :=
  t.getJson io.get nodeId

def getLocal (io : NodeConfigFaults) (t : RedbNodeConfigs) :
    Except StorageError (Option NodeConfigRecord) :=
  match t.getJson io.get LOCAL_NODE_SENTINEL_KEY with
  | .error err => .error err
  | .ok (some record) => .ok (some record)
  | .ok none => (t.listJson io.list).map (maxByKey (·.updatedMs))

end RedbNodeConfigs

def RedbNodeConfigRepository (io : NodeConfigFaults) : NodeConfigRepository RedbNodeConfigs where
  put := RedbNodeConfigs.put io
  get := RedbNodeConfigs.get io
  getLocal := RedbNodeConfigs.getLocal io

end Boardwalk
