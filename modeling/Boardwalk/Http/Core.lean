import Mathlib.Logic.Function.Basic
import Boardwalk.Runtime.Executor
import Boardwalk.Runtime.Resource

/-!
# Reads, transitions and shutdown of a node's resources

`Core` of `http/core.rs` with the parts of `runtime/node.rs` and `runtime/directory.rs` it calls.
Each call of `list_resources`, `get_resource`, `run_resource_transition` or `Node::shutdown` is an
operation that makes calls of the actors' handles one after the other and reads and writes the
stored snapshots; the machine interleaves any number of operations with the steps of the actors and
with other callers of their handles.  An access of the storage fails or not as the step says.

`δ` is what a snapshot reports beside its identity and the names of its streams: name, state,
properties, labels, transitions, stream kinds, revision and metadata, which are only compared.  What
the spec of a resource puts into the reports is in its `SpecReports`.
-/

namespace Boardwalk

/-- A `ResourceSnapshot` with all it reports. -/
structure Snapshot (δ : Type*) extends ResourceSnapshot where
  report : δ
  deriving DecidableEq

inductive ResourceReadError where
  | notFound
  | unavailable (message : String)
  | internal (message : String)
  deriving Repr, DecidableEq

inductive ResourceTransitionError where
  | notFound
  | invalidInput (message : String)
  | notAllowed (message : String)
  | conflict (message : String)
  | busy
  | backpressureRequired
  | timeout
  | unavailable (message : String)
  | internal (message : String)
  deriving Repr, DecidableEq

def resourceReadError : ResourceError → ResourceReadError
  | .notFound _ => .notFound
  | .unavailable message => .unavailable message
  | .internal message => .internal message

def resourceErrorToTransition : ResourceError → ResourceTransitionError
  | .notFound _ => .notFound
  | .unavailable message => .unavailable message
  | .internal message => .internal message

def resourceTransitionError : TransitionError → ResourceTransitionError
  | .invalidInput message => .invalidInput message
  | .notAllowed message => .notAllowed message
  | .conflict message => .conflict message
  | .busy => .busy
  | .backpressureRequired => .backpressureRequired
  | .timeout => .timeout
  | .resourceNotFound _ => .notFound
  | .internal message => .internal message

/-- The `RESOURCE_SNAPSHOTS` table: a record is stored under the id of its snapshot. -/
structure SnapshotStore (δ : Type*) where
  latest : String → Option (Snapshot δ)
  keyed : ∀ id snapshot, latest id = some snapshot → snapshot.id = id

namespace SnapshotStore

variable {δ : Type*}

def empty : SnapshotStore δ where
  latest _ := none
  keyed _ _ h := by cases h

/-- `upsert_latest`. -/
def upsertLatest (store : SnapshotStore δ) (snapshot : Snapshot δ) : SnapshotStore δ where
  latest := Function.update store.latest snapshot.id (some snapshot)
  keyed id snapshot' h := by
    by_cases hid : id = snapshot.id
    · subst hid
      rw [Function.update_self] at h
      cases h
      rfl
    · rw [Function.update_of_ne hid] at h
      exact store.keyed id snapshot' h

end SnapshotStore

namespace Core

variable {ι ο δ : Type*}

/-- What a resource's spec puts into reports. -/
structure SpecReports (δ : Type*) where
  /-- The report of an unavailable snapshot. -/
  unavailable : δ
  /-- A report with the kinds of the streams of the spec. -/
  withStreams : δ → δ

/-- A directory entry with its actor. -/
structure Registered (ι ο δ : Type*) where
  entry : Entry
  spec : SpecReports δ
  actor : Executor ι ο (Snapshot δ)
  /-- The join handle of the task is still there. -/
  task : Bool := true
  /-- The mutex of the join handle is held. -/
  locked : Bool := false

/-- `Entry::snapshot` on the actor's reply. -/
def Registered.identify (n : Registered ι ο δ) (node : String) (reply : Snapshot δ) : Snapshot δ where
  toResourceSnapshot := n.entry.snapshot reply.toResourceSnapshot node
  report := if reply.streams.isEmpty then n.spec.withStreams reply.report else reply.report

/-- `Entry::unavailable_snapshot`. -/
def Registered.unavailableSnapshot (n : Registered ι ο δ) (node : String) : Snapshot δ where
  id := n.entry.id
  kind := n.entry.kind
  node := node
  streams := n.entry.streams
  report := n.spec.unavailable

/-- A snapshot with the call of the entry's actor it came from. -/
structure Produced (δ : Type*) where
  entry : ℕ
  call : ℕ
  snapshot : Snapshot δ
  deriving DecidableEq

inductive SnapshotRead (δ : Type*) where
  | available (p : Produced δ)
  | unavailable (resourceId : String) (placeholder : Snapshot δ)
  | failed
  deriving DecidableEq

/-- `Node::resource_snapshot_reads` on the answer of one entry. -/
def Registered.read (n : Registered ι ο δ) (node : String) (i k : ℕ) :
    Except ResourceError (Snapshot δ) → SnapshotRead δ
  | .ok reply => .available { entry := i, call := k, snapshot := n.identify node reply }
  | .error (.unavailable _) => .unavailable n.entry.id (n.unavailableSnapshot node)
  | .error _ => .failed

inductive Request (ι : Type*) where
  | listResources
  | getResource (id : String)
  | runResourceTransition (id name : String) (input : ι)
  /-- `Node::shutdown`. -/
  | shutdown
  deriving Repr, DecidableEq

/-- The variables of an operation. -/
inductive Frame (ι ο δ : Type*) where
  /-- `seen` entries were there; those of `todo` have still to be read. -/
  | listResources (seen : ℕ) (todo : List ℕ) (reads : List (SnapshotRead δ))
      (out : List (Snapshot δ))
  | getResource (id : String) (entry : Option ℕ)
  /-- `invoked` is the call of the transition, `output` that of a completed one. -/
  | runResourceTransition (id name : String) (input : ι) (invoked : Option (ℕ × ℕ))
      (output : Option ο)
  | shutdown (todo : List ℕ)

def Request.frame : Request ι → Frame ι ο δ
  | listResources => .listResources 0 [] [] []
  | getResource id => .getResource id none
  | runResourceTransition id name input => .runResourceTransition id name input none none
  | shutdown => .shutdown []

inductive Result (ο δ : Type*) where
  | listed (out : List (Snapshot δ))
  | got (result : Except ResourceReadError (Option (Snapshot δ)))
  | transitioned (result : Except ResourceTransitionError (TransitionOutcome ο (Snapshot δ)))
  | stopped
  deriving DecidableEq

/-- Where an operation stands. -/
inductive Pc (ο δ : Type*) where
  | start
  /-- Awaiting call `k` of the handle of entry `i`. -/
  | await (i k : ℕ)
  /-- In the `filter_map` of `list_resources`. -/
  | collect
  /-- The stored snapshot differs, before `upsert_latest`. -/
  | write (p : Produced δ)
  /-- Awaiting the mutex of the join handle of entry `i`. -/
  | lock (i : ℕ)
  /-- Awaiting the task of entry `i`. -/
  | join (i : ℕ)
  | done (result : Result ο δ)
  /-- The caller dropped the future; `taken` is the entry whose task it awaited. -/
  | abandoned (taken : Option ℕ)

structure Op (ι ο δ : Type*) where
  frame : Frame ι ο δ
  pc : Pc ο δ := .start

/-- What an operation does once the snapshot is persisted. -/
def Frame.afterPersist : Frame ι ο δ → Snapshot δ → Option (Op ι ο δ)
  | .listResources seen todo reads out, snapshot =>
    some { frame := .listResources seen todo reads (out ++ [snapshot]), pc := .collect }
  | .getResource id entry, snapshot =>
    some { frame := .getResource id entry, pc := .done (.got (.ok (some snapshot))) }
  | .runResourceTransition id name input invoked (some output), snapshot =>
    some { frame := .runResourceTransition id name input invoked (some output)
           pc := .done (.transitioned (.ok (.completed output snapshot))) }
  | _, _ => none

end Core

structure Core (ι ο δ : Type*) where
  node : String
  actorQueueCapacity : ℕ
  /-- Repositories are configured. -/
  persistent : Bool
  store : SnapshotStore δ
  entries : List (Core.Registered ι ο δ) := []
  ops : List (Core.Op ι ο δ) := []
  /-- The calls of the operations, by entry and number (history). -/
  asked : List (ℕ × ℕ) := []
  /-- The snapshots that were stored, or found to be stored already (history). -/
  persisted : List (Core.Produced δ) := []
  /-- The snapshots that were stored (history). -/
  writes : List (Core.Produced δ) := []

namespace Core

variable {ι ο δ : Type*}

/-- `ResourceDirectory::get_by_id`. -/
def getById (s : Core ι ο δ) (id : String) : Option ℕ :=
  s.entries.findIdx? fun n => n.entry.id == id

def setOp (s : Core ι ο δ) (j : ℕ) (op : Op ι ο δ) : Core ι ο δ := { s with ops := s.ops.set j op }

/-- The number of the next call of entry `i`. -/
def nextCall (s : Core ι ο δ) (i : ℕ) : ℕ :=
  (s.entries[i]?.map fun n => n.actor.calls.length).getD 0

/-- Operation `j` calls the handle of entry `i` and awaits the answer. -/
def await (s : Core ι ο δ) (j : ℕ) (frame : Frame ι ο δ) (i : ℕ) (r : Executor.Request ι) :
    Core ι ο δ :=
  { s with
    entries := s.entries.modify i fun n => { n with actor := n.actor.call r }
    ops := s.ops.set j { frame, pc := .await i (s.nextCall i) }
    asked := s.asked ++ [(i, s.nextCall i)] }

/-- The next round of the loop of `resource_snapshot_reads`. -/
def nextRead (s : Core ι ο δ) (j seen : ℕ) (todo : List ℕ) (reads : List (SnapshotRead δ)) :
    Core ι ο δ :=
  match todo with
  | [] => s.setOp j { frame := .listResources seen [] reads [], pc := .collect }
  | i :: todo => s.await j (.listResources seen todo reads []) i .snapshot

/-- The next round of the loop of `Node::shutdown`. -/
def nextStop (s : Core ι ο δ) (j : ℕ) (todo : List ℕ) : Core ι ο δ :=
  match todo with
  | [] => s.setOp j { frame := .shutdown [], pc := .done .stopped }
  | i :: todo => s.await j (.shutdown todo) i .shutdown

/-- The end of `persist_latest_resource_snapshot`. -/
def afterPersist (s : Core ι ο δ) (j : ℕ) (frame : Frame ι ο δ) (p : Produced δ) :
    Option (Core ι ο δ) :=
  (frame.afterPersist p.snapshot).map fun op =>
    { s with ops := s.ops.set j op, persisted := s.persisted ++ [p] }

/-- `persist_latest_resource_snapshot` up to the write. -/
def persistLatest [DecidableEq δ] (s : Core ι ο δ) (j : ℕ) (frame : Frame ι ο δ) (p : Produced δ)
    (ok : Bool) : Option (Core ι ο δ) :=
  if s.persistent && !(ok && s.store.latest p.snapshot.id = some p.snapshot) then
    some (s.setOp j { frame, pc := .write p })
  else s.afterPersist j frame p

/-- `upsert_latest` of operation `j`, and the end of the persist. -/
def upsert (s : Core ι ο δ) (j : ℕ) (frame : Frame ι ο δ) (p : Produced δ) (ok : Bool) :
    Option (Core ι ο δ) :=
  if ok then
    { s with store := s.store.upsertLatest p.snapshot, writes := s.writes ++ [p] }.afterPersist j
      frame p
  else s.afterPersist j frame p

def latestResourceSnapshot (s : Core ι ο δ) (id : String) (ok : Bool) :
    Except String (Option (Snapshot δ)) :=
  if !s.persistent then .ok none
  else if ok then .ok (s.store.latest id)
  else .error "storage unavailable"

def snapshotFromRepositoryOrUnavailable (s : Core ι ο δ) (id message : String) (ok : Bool) :
    Except ResourceReadError (Option (Snapshot δ)) :=
  match s.latestResourceSnapshot id ok with
  | .ok (some snapshot) => .ok (some snapshot)
  | .ok none => .error (.unavailable message)
  | .error err => .error (.internal err)

/-- The directory is read. -/
def start (s : Core ι ο δ) (j : ℕ) : Frame ι ο δ → Core ι ο δ
  | .listResources _ _ _ _ => s.nextRead j s.entries.length (List.range s.entries.length) []
  | .getResource id _ =>
    match s.getById id with
    | none => s.setOp j { frame := .getResource id none, pc := .done (.got (.ok none)) }
    | some i => s.await j (.getResource id (some i)) i .snapshot
  | .runResourceTransition id name input _ _ =>
    match s.getById id with
    | none =>
      s.setOp j { frame := .runResourceTransition id name input none none
                  pc := .done (.transitioned (.error .notFound)) }
    | some i =>
      s.await j (.runResourceTransition id name input (some (i, s.nextCall i)) none) i
        (.transitionWithCtx name input)
  | .shutdown _ => s.nextStop j (List.range s.entries.length)

/-- Operation `j` has the answer of call `k` of entry `i`. -/
def resume [DecidableEq δ] (s : Core ι ο δ) (j : ℕ) (frame : Frame ι ο δ) (n : Registered ι ο δ)
    (i k : ℕ) (ok : Bool) (ans : Executor.Answer ο (Snapshot δ)) : Option (Core ι ο δ) :=
  match frame, ans with
  | .listResources seen todo reads _, .snapshot result =>
    -- `snapshot_from_entry` in the loop of `list_resources`
    some (s.nextRead j seen todo (reads ++ [n.read s.node i k result]))
  | .getResource id entry, .snapshot (.ok reply) =>
    -- the answer is persisted before it is returned
    s.persistLatest j (.getResource id entry)
      { entry := i, call := k, snapshot := n.identify s.node reply } ok
  | .getResource id entry, .snapshot (.error (.unavailable message)) =>
    -- an actor that is gone: the repository may have the last state
    some (s.setOp j { frame := .getResource id entry
                      pc := .done (.got (s.snapshotFromRepositoryOrUnavailable id message ok)) })
  | .getResource id entry, .snapshot (.error err) =>
    some (s.setOp j { frame := .getResource id entry
                      pc := .done (.got (.error (resourceReadError err))) })
  | .runResourceTransition id name input invoked none, .transition (.error err) =>
    some (s.setOp j { frame := .runResourceTransition id name input invoked none
                      pc := .done (.transitioned (.error (resourceTransitionError err))) })
  | .runResourceTransition id name input invoked none, .transition (.ok (.accepted job output)) =>
    -- `Accepted`: no snapshot follows
    some (s.setOp j { frame := .runResourceTransition id name input invoked none
                      pc := .done (.transitioned (.ok (.accepted job output))) })
  | .runResourceTransition id name input invoked none, .transition (.ok (.completed output _)) =>
    -- `Completed`: the new state is read and persisted
    some (s.await j (.runResourceTransition id name input invoked (some output)) i .snapshot)
  | .runResourceTransition id name input invoked (some output), .snapshot (.ok reply) =>
    s.persistLatest j (.runResourceTransition id name input invoked (some output))
      { entry := i, call := k, snapshot := n.identify s.node reply } ok
  | .runResourceTransition id name input invoked (some output), .snapshot (.error err) =>
    some (s.setOp j { frame := .runResourceTransition id name input invoked (some output)
                      pc := .done (.transitioned (.error (resourceErrorToTransition err))) })
  -- the actor has stopped or timed out; its join handle is next
  | .shutdown todo, .shutdown _ => some (s.setOp j { frame := .shutdown todo, pc := .lock i })
  | _, _ => none

/-- The next round of the `filter_map` of `list_resources`. -/
def collect [DecidableEq δ] (s : Core ι ο δ) (j seen : ℕ) (todo : List ℕ) (ok : Bool) :
    List (SnapshotRead δ) → List (Snapshot δ) → Option (Core ι ο δ)
  | [], out =>
    some (s.setOp j { frame := .listResources seen todo [] out, pc := .done (.listed out) })
  | .available p :: reads, out => s.persistLatest j (.listResources seen todo reads out) p ok
  | .unavailable id placeholder :: reads, out =>
    let snapshot := ((s.latestResourceSnapshot id ok).toOption.join).getD placeholder
    some (s.setOp j { frame := .listResources seen todo reads (out ++ [snapshot]), pc := .collect })
  | .failed :: reads, out =>
    some (s.setOp j { frame := .listResources seen todo reads out, pc := .collect })

/-- The join handle of entry `i` is taken, if it is still there. -/
def lock (s : Core ι ο δ) (j i : ℕ) (todo : List ℕ) (n : Registered ι ο δ) :
    Option (Core ι ο δ) :=
  if n.locked then none
  else if n.task then
    some ({ s with entries := s.entries.set i { n with task := false, locked := true } }.setOp j
      { frame := .shutdown todo, pc := .join i })
  else some (s.nextStop j todo)

/-- The task of entry `i` has ended, or the time limit passes and it is aborted. -/
def join (s : Core ι ο δ) (j i : ℕ) (todo : List ℕ) (n : Registered ι ο δ) : Core ι ο δ :=
  let actor := if n.actor.task matches .ended then n.actor else { n.actor with aborted := true }
  { s with entries := s.entries.set i { n with actor, locked := false } }.nextStop j todo

/-- The caller drops the future of operation `j`, which awaits the directory, the mutex of a join
handle or a task.  One that awaits a call is left with the call. -/
def abandon (s : Core ι ο δ) (j : ℕ) (op : Op ι ο δ) : Option (Core ι ο δ) :=
  match op.pc with
  | .start | .lock _ => some (s.setOp j { op with pc := .abandoned none })
  -- the guard of the mutex and the handle go with the future: nobody aborts the task
  | .join i => s.entries[i]?.map fun n =>
    { s with entries := s.entries.set i { n with locked := false } }.setOp j
      { op with pc := .abandoned (some i) }
  | _ => none

/-- A step of operation `j`. -/
def stepOp [DecidableEq δ] (s : Core ι ο δ) (j : ℕ) (op : Op ι ο δ) (ok : Bool) :
    Option (Core ι ο δ) :=
  match op.pc, op.frame with
  | .start, frame => some (s.start j frame)
  | .await i k, frame =>
    s.entries[i]?.bind fun n => n.actor.calls[k]?.bind fun c =>
      match c.phase with
      | .returned ans => s.resume j frame n i k ok ans
      | _ => none
  | .collect, .listResources seen todo reads out => s.collect j seen todo ok reads out
  | .write p, frame => s.upsert j frame p ok
  | .lock i, .shutdown todo => s.entries[i]?.bind fun n => s.lock j i todo n
  | .join i, .shutdown todo => s.entries[i]?.map fun n => s.join j i todo n
  | _, _ => none

/-- The steps of an actor that no operation takes: all but those of `Node::shutdown`, and the
directory keeps its handle. -/
def external : Executor.Action ι ο (Snapshot δ) → Bool
  | .call .shutdown | .abort | .release => false
  | _ => true

inductive Action (ι ο δ : Type*) where
  | register (entry : Entry) (spec : SpecReports δ)
  | begin (r : Request ι)
  /-- The task of entry `i`, or a caller of its handle, takes a step. -/
  | actor (i : ℕ) (a : Executor.Action ι ο (Snapshot δ))
  /-- Operation `j` takes a step; an access of the storage it makes succeeds or not. -/
  | op (j : ℕ) (ok : Bool)
  | abandon (j : ℕ)

def step [DecidableEq δ] (s : Core ι ο δ) : Action ι ο δ → Option (Core ι ο δ)
  | .register entry spec =>
    if (s.getById entry.id).isSome then none
    else
      let actor := Executor.spawn ι ο (Snapshot δ) s.actorQueueCapacity
      some { s with entries := s.entries ++ [{ entry, spec, actor }] }
  | .begin r => some { s with ops := s.ops ++ [{ frame := r.frame }] }
  | .actor i a =>
    if external a then
      s.entries[i]?.bind fun n => (n.actor.step a).map fun actor =>
        { s with entries := s.entries.set i { n with actor } }
    else none
  | .op j ok => s.ops[j]?.bind fun op => s.stepOp j op ok
  | .abandon j => s.ops[j]?.bind fun op => s.abandon j op

/-- All runs of a node's operations, with the snapshots of an earlier run in the storage. -/
def machine (ι ο : Type*) {δ : Type*} [DecidableEq δ] (node : String) (actorQueueCapacity : ℕ)
    (persistent : Bool) (store : SnapshotStore δ) : Machine (Core ι ο δ) (Action ι ο δ) where
  init := { node, actorQueueCapacity, persistent, store }
  step := step

end Core

end Boardwalk
