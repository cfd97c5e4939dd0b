import Boardwalk.Events.Bus
import Boardwalk.Runtime.Sequencer

/-!
# Publishing actors

`publish_envelope` of `runtime/context.rs` over the registry and the bus of a node, as a machine.  A
publisher allocates on its stream, in the steps of `allocate`, and then calls `publish`; its future
can be dropped at the send await there.  The bus and the registry's counters share one reverse
index, which is the bus's.
-/

namespace Boardwalk

/-- A call of `publish_envelope`. -/
structure EnvelopePublisher where
  plan : EnvelopePlan
  ctx : EmissionContext
  /-- It has called `publish`. -/
  published : Bool := false

/-- The registry, the bus and the publishers; publisher `k` makes the allocation `k`. -/
structure Publishing (τ : Type) where
  sequencer : Sequencer := {}
  bus : Bus Json τ
  publishers : List EnvelopePublisher := []

inductive PublishingAction (τ : Type) where
  /-- A caller starts `publish_envelope`. -/
  | publishEnvelope (plan : EnvelopePlan) (ctx : EmissionContext)
  /-- The next operation of the allocation of publisher `k`. -/
  | allocate (k : ℕ)
  /-- Publisher `k` builds its envelope, with the clock at `now`, and calls `publish`. -/
  | publish (k : ℕ) (now : OffsetDateTime)
  /-- The bus, its subscribers and the calls of `publish` go on. -/
  | bus (action : BusAction Json τ)

namespace Publishing

variable {τ κ : Type} [DecidableEq κ]

def step (ops : BusOps Json τ κ) (s : Publishing τ) : PublishingAction τ → Option (Publishing τ)
  | .publishEnvelope plan ctx =>
    some { s with
      sequencer := s.sequencer.allocate plan.streamId
      publishers := s.publishers ++ [{ plan, ctx }] }
  | .allocate k =>
    (s.sequencer.advance s.bus.registry k).map fun (sequencer, registry) =>
      { s with sequencer, bus := { s.bus with registry } }
  | .publish k now =>
    match s.publishers[k]?, s.sequencer.calls[k]?.bind (·.result) with
    | some p, some allocated =>
      if p.published then none
      else
        (Bus.step ops s.bus (.publish (p.plan.envelope p.ctx allocated now))).map fun bus =>
          { s with bus, publishers := s.publishers.set k { p with published := true } }
    | _, _ => none
  -- envelopes come onto the bus of a node through `publish_envelope`
  | .bus (.publish _) | .bus (.tryPublish _) => none
  | .bus action => (Bus.step ops s.bus action).map fun bus => { s with bus }

/-- A node as a machine, with rings of any capacity. -/
def machine (ops : BusOps Json τ κ) (replayCapacity : ℕ) :
    Machine (Publishing τ) (PublishingAction τ) where
  init := { bus := (Bus.machine ops replayCapacity).init }
  step := step ops

end Publishing

end Boardwalk
