import Boardwalk.Events.Replay
import Boardwalk.Lib.Machine
import Boardwalk.Lib.Table
import Boardwalk.Runtime.Resource

/-!
# Sequence numbers

`StreamRegistry::allocate` of `events/sequencer.rs`, which gives `publish_envelope` the event id and
the sequence number of the next envelope of a stream: first in one piece (`StreamSequences`), with the
counters kept apart from the reverse index, which the bus holds; and then as a machine.  There a call
takes three steps, and nothing joins them: it looks up the state of its stream under one mutex, takes
a sequence number from the atomic counter there, and enters the event id into the reverse index under
another mutex.  `evict` is a step of its own.
-/

namespace Boardwalk

/-! ### One allocation at a time -/

/-- The counters of `StreamRegistry`, one for each stream; a new one starts at one. -/
structure StreamSequences where
  nextSequence : StreamId → UInt64 := fun _ => 1

/-- `StreamRegistry::allocate` on the counters; `fetch_add` wraps. -/
def StreamSequences.allocate (s : StreamSequences) (streamId : StreamId) :
    StreamSequences × Allocated :=
  let sequence := s.nextSequence streamId
  ({ s with nextSequence := Function.update s.nextSequence streamId (sequence + 1) },
    { eventId := ⟨streamId.raw ++ "-" ++ toString sequence⟩, sequence })

/-- `StreamRegistry::allocate` on the reverse index. -/
def StreamRegistry.insert (r : StreamRegistry) (id : EventId) (streamId : StreamId) :
    StreamRegistry :=
  { r with byEventId := Function.update r.byEventId id (some streamId) }

/-- The stream that `publish_envelope` allocates on. -/
def EnvelopePlan.streamId (plan : EnvelopePlan) : StreamId :=
  .forResource plan.nodeId plan.resourceId plan.stream

/-! ### Allocations side by side -/

/-- What `allocate` returns for a sequence number. -/
def Allocated.numbered (streamId : StreamId) (sequence : UInt64) : Allocated where
  eventId := ⟨streamId.raw ++ "-" ++ toString sequence⟩
  sequence := sequence

/-- Where a call of `allocate` stands. -/
inductive AllocatePhase where
  /-- Before the mutex of `per_stream` is taken. -/
  | lookup
  /-- The call holds this `StreamState`. -/
  | fetchAdd (state : ℕ)
  /-- The number is taken, before the mutex of `by_event_id` is. -/
  | insert (allocated : Allocated)
  | returned (allocated : Allocated)
  deriving Repr, DecidableEq

structure AllocateCall where
  streamId : StreamId
  phase : AllocatePhase := .lookup
  deriving Repr, DecidableEq

/-- What the call has taken. -/
def AllocateCall.allocated (c : AllocateCall) : Option Allocated :=
  match c.phase with
  | .lookup | .fetchAdd _ => none
  | .insert a | .returned a => some a

/-- What the call has returned. -/
def AllocateCall.result (c : AllocateCall) : Option Allocated :=
  match c.phase with
  | .returned a => some a
  | _ => none

/-- `per_stream` and the calls in progress.  A `StreamState` is shared by reference: the map and the
calls have its index in `states`. -/
structure Sequencer where
  perStream : Table StreamId ℕ := .empty
  /-- The counter of each `StreamState`. -/
  states : List UInt64 := []
  calls : List AllocateCall := []

namespace Sequencer

def setPhase (s : Sequencer) (k : ℕ) (c : AllocateCall) (phase : AllocatePhase) : Sequencer :=
  { s with calls := s.calls.set k { c with phase } }

/-- A caller starts `allocate`. -/
def allocate (s : Sequencer) (streamId : StreamId) : Sequencer :=
  { s with calls := s.calls ++ [{ streamId }] }

/-- The next operation of call `k`, with the reverse index it shares. -/
def advance (s : Sequencer) (registry : StreamRegistry) (k : ℕ) :
    Option (Sequencer × StreamRegistry) :=
  match s.calls[k]? with
  | none => none
  | some c =>
    match c.phase with
    | .lookup =>
      match s.perStream.get? c.streamId with
      | some state => some (s.setPhase k c (.fetchAdd state), registry)
      | none =>
        -- `or_insert_with`: a new counter starts at one
        some ({ s with
          perStream := s.perStream.insert c.streamId s.states.length
          states := s.states ++ [1] }.setPhase k c (.fetchAdd s.states.length), registry)
    | .fetchAdd state =>
      match s.states[state]? with
      | none => none
      | some sequence =>
        some ({ s with states := s.states.set state (sequence + 1) }.setPhase k c
          (.insert (.numbered c.streamId sequence)), registry)
    | .insert a => some (s.setPhase k c (.returned a), registry.insert a.eventId c.streamId)
    | .returned _ => none

end Sequencer

inductive SequencerAction where
  | allocate (streamId : StreamId)
  | advance (k : ℕ)
  | evict (id : EventId)
  deriving Repr, DecidableEq

namespace Sequencer

def step (s : Sequencer × StreamRegistry) : SequencerAction → Option (Sequencer × StreamRegistry)
  | .allocate streamId => some (s.1.allocate streamId, s.2)
  | .advance k => s.1.advance s.2 k
  | .evict id => some (s.1, s.2.evict id)

/-- The registry as a machine, from `StreamRegistry::new`. -/
def machine : Machine (Sequencer × StreamRegistry) SequencerAction where
  init := ({}, {})
  step := step

end Sequencer

/-- `StreamRegistry::stream_for`. -/
def StreamRegistry.streamFor (r : StreamRegistry) (id : EventId) : Option StreamId :=
  r.byEventId id

end Boardwalk
