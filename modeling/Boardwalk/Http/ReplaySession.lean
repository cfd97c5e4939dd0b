import Boardwalk.Http.EventsStream
import Boardwalk.Runtime.Sequencer

/-!
# An event stream and its publishers

The NDJSON stream of `Http.EventsStream`, on a bus whose envelopes all come from `publish_envelope`.
A publisher first takes a sequence number (`mint`) and then calls `publish`; whatever the other
parties do may happen in between.

Two history variables say what the stream should show: the ring when the handler read it, and the
envelopes that were fanned out after the handler had subscribed.
-/

namespace Boardwalk

structure ReplaySession (τ : Type) where
  stream : EventsStream Json τ := {}
  sequences : StreamSequences := {}
  /-- The envelopes that have a sequence number, before `publish` is called. -/
  minted : List (EventEnvelope Json) := []
  /-- The ring at the read of the cache. -/
  ringAtRead : List (EventEnvelope Json) := []
  /-- The envelopes whose loop took the `subs` mutex after the subscribe. -/
  offered : List (EventEnvelope Json) := []

inductive SessionAction (τ : Type) where
  /-- A publisher addresses an envelope and takes its sequence number. -/
  | mint (plan : EnvelopePlan) (ctx : EmissionContext) (now : OffsetDateTime)
  /-- The publisher of a minted envelope calls `publish`. -/
  | publish (n : ℕ)
  | stream (a : StreamAction Json τ)

namespace ReplaySession

variable {τ κ : Type} [DecidableEq κ]

/-- Envelopes are published through `publish_envelope` only, and only the stream knows the id of its
subscription. -/
def may (s : ReplaySession τ) : StreamAction Json τ → Bool
  | .bus (.publish _) | .bus (.tryPublish _) => false
  | .bus (.unsubscribe j) => !s.stream.active || decide (j ≠ s.stream.sub)
  | _ => true

/-- The ring at the read of the cache, after the action. -/
def noteRead (s : ReplaySession τ) : StreamAction Json τ → List (EventEnvelope Json)
  | .poll _ =>
    match s.stream.phase with
    | .subscribed (some id) => s.stream.bus.replayCache.perStream id
    | _ => s.ringAtRead
  | _ => s.ringAtRead

/-- The envelopes fanned out after the subscribe, after the action. -/
def noteOffer (s : ReplaySession τ) : StreamAction Json τ → List (EventEnvelope Json)
  | .bus (.advance k) =>
    match s.stream.bus.calls[k]? with
    | some c => if s.stream.active ∧ c.phase = .acquire then s.offered ++ [c.envelope] else s.offered
    | none => s.offered
  | _ => s.offered

def step (ops : BusOps Json τ κ) (rfc3339 : OffsetDateTime → Option String) (s : ReplaySession τ) :
    SessionAction τ → Option (ReplaySession τ)
  | .mint plan ctx now =>
    let (sequences, allocated) := s.sequences.allocate plan.streamId
    let registry := s.stream.bus.registry.insert allocated.eventId plan.streamId
    let bus := { s.stream.bus with registry }
    some { s with
      stream := { s.stream with bus }, sequences
      minted := s.minted ++ [plan.envelope ctx allocated now] }
  | .publish n =>
    match s.minted[n]? with
    | none => none
    | some env =>
      (s.stream.step ops rfc3339 (.bus (.publish env))).map fun stream =>
        { s with stream, minted := s.minted.eraseIdx n }
  | .stream a =>
    if s.may a then
      (s.stream.step ops rfc3339 a).map fun stream =>
        { s with stream, ringAtRead := s.noteRead a, offered := s.noteOffer a }
    else none

def machine (ops : BusOps Json τ κ) (rfc3339 : OffsetDateTime → Option String) (replayCapacity : ℕ) :
    Machine (ReplaySession τ) (SessionAction τ) where
  init := { stream := (EventsStream.machine ops rfc3339 replayCapacity).init }
  step := step ops rfc3339

end ReplaySession

end Boardwalk
