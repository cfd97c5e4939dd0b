import Boardwalk.Events.Envelope
import Mathlib.Logic.Function.Basic

/-!
# The stream registry's reverse index and the replay ring

`StreamReplayCache` keeps the last envelopes of every stream (`events/replay.rs`), and
`StreamRegistry` maps event ids back to their streams (`events/sequencer.rs`).  `record` returns the
id it evicted from the ring; removing that id from the registry is a step of its own, taken under
another lock.
-/

namespace Boardwalk

/-- The reverse index of `StreamRegistry`. -/
structure StreamRegistry where
  byEventId : EventId → Option StreamId := fun _ => none

/-- `StreamRegistry::evict`. -/
def StreamRegistry.evict (r : StreamRegistry) (id : EventId) : StreamRegistry :=
  { r with byEventId := Function.update r.byEventId id none }

/-- `DEFAULT_REPLAY_CAPACITY`. -/
def DEFAULT_REPLAY_CAPACITY : ℕ := 1000

/-- The rings, one per stream; a stream without a ring has the empty one. -/
structure StreamReplayCache (δ : Type) where
  perStream : StreamId → List (EventEnvelope δ) := fun _ => []
  capacityPerStream : ℕ := DEFAULT_REPLAY_CAPACITY

namespace StreamReplayCache

variable {δ : Type}

/-- `StreamReplayCache::record`: pops the oldest envelope of a full ring, appends, and returns the
id of what it popped. -/
def record (c : StreamReplayCache δ) (env : EventEnvelope δ) :
    StreamReplayCache δ × Option EventId :=
  let q := c.perStream env.streamId
  let full := decide (c.capacityPerStream ≤ q.length)
  let kept := if full then q.tail else q
  let evicted := if full then q.head?.map (·.eventId) else none
  ({ c with perStream := Function.update c.perStream env.streamId (kept ++ [env]) }, evicted)

/-- `StreamReplayCache::events_after`. -/
def eventsAfter (c : StreamReplayCache δ) (streamId : StreamId) (afterSequence : UInt64) :
    List (EventEnvelope δ) :=
  (c.perStream streamId).filter fun e => decide (afterSequence < e.sequence)

end StreamReplayCache

end Boardwalk
