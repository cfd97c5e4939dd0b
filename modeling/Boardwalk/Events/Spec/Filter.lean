import Boardwalk.Events.Spec.Offered
import Boardwalk.Events.Topic

/-!
# What an event filter sees

Both loops of the bus hand the topic and the payload of an envelope to the matcher, and the evaluator
starts every path at the root of what it is handed.  So the paths of a filter are paths into the
payload: in every run of the bus the filter is asked about the payload at each visit of its entry,
and only what it selects reaches the consumer (`filter_sees_payload`).  On the view with the two
fields `topic` and `data` the same filter has every path below `data` (`Predicate.under`).
-/

namespace Boardwalk

/-! ### The root of the paths -/

def FieldPath.under (key : String) (p : FieldPath) : FieldPath := ⟨key :: p.segments⟩

mutual

/-- The predicate with every path below `key`. -/
def Predicate.under (key : String) : Predicate → Predicate
  | .true => .true
  | .false => .false
  | .and items => .and (Predicate.underAll key items)
  | .or items => .or (Predicate.underAll key items)
  | .not inner => .not (inner.under key)
  | .compare left op right => .compare (left.under key) op right
  | .contains path value => .contains (path.under key) value
  | .exists path => .exists (path.under key)

def Predicate.underAll (key : String) : List Predicate → List Predicate
  | [] => []
  | p :: ps => p.under key :: Predicate.underAll key ps

end

def Query.under (key : String) (q : Query) : Query := { q with predicate := q.predicate.under key }

theorem lookup_under {key : String} {v t : Json} (h : v.get key = some t) (p : FieldPath) :
    lookup (p.under key) v = lookup p t := by
  simp [lookup, FieldPath.under, lookupPath, h]

mutual

/-- **Below a key the evaluator sees the value of the key.** -/
theorem evalPred_under {key : String} {v t : Json} (h : v.get key = some t) :
    ∀ p : Predicate, evalPred v (p.under key) = evalPred t p
  | .true => rfl
  | .false => rfl
  | .and items => by
    rw [Predicate.under, evalPred, evalPred]
    exact evalAnd_under h items
  | .or items => by
    rw [Predicate.under, evalPred, evalPred]
    exact evalOr_under h items
  | .not inner => by
    rw [Predicate.under, evalPred, evalPred, evalPred_under h inner]
  | .compare left op right => by
    rw [Predicate.under, evalPred, evalPred, lookup_under h]
  | .contains path value => by
    rw [Predicate.under, evalPred, evalPred, lookup_under h]
  | .exists path => by
    rw [Predicate.under, evalPred, evalPred, lookup_under h]

theorem evalAnd_under {key : String} {v t : Json} (h : v.get key = some t) :
    ∀ items : List Predicate, evalAnd v (Predicate.underAll key items) = evalAnd t items
  | [] => rfl
  | p :: ps => by
    rw [Predicate.underAll, evalAnd, evalAnd, evalPred_under h p, evalAnd_under h ps]

theorem evalOr_under {key : String} {v t : Json} (h : v.get key = some t) :
    ∀ items : List Predicate, evalOr v (Predicate.underAll key items) = evalOr t items
  | [] => rfl
  | p :: ps => by
    rw [Predicate.underAll, evalOr, evalOr, evalPred_under h p, evalOr_under h ps]

end

/-! ### The decision of the bus -/

/-- The two fields of an event that a filter could be rooted at. -/
def EventEnvelope.eventView (e : EventEnvelope Json) : Json :=
  .object [("topic", .string e.topic), ("data", e.data)]

namespace TopicPattern

variable {ρ : Type}

/-- The decision with the filter evaluated on the view of the event. -/
def matchesView (ops : TopicOps ρ) (p : TopicPattern ρ) (e : EventEnvelope Json) : Bool :=
  p.matchesTopic ops e.topic && match p.filter with
    | none => true
    | some q => match q.matches e.eventView with
      | .ok b => b
      | .error _ => false

/-- The segments match the topic of the event, and the filter is true of its payload. -/
def Selects (ops : TopicOps ρ) (p : TopicPattern ρ) (q : Query) (e : EventEnvelope Json) : Prop :=
  p.matchesTopic ops e.topic = true ∧ q.matches e.data = .ok true

section Decision

variable {κ : Type} (ops : TopicOps ρ) (extractKey : EventEnvelope Json → FieldPath → Option κ)
  (serializedSize : EventEnvelope Json → ℕ)

/-- The matcher asks the filter about the payload that the loops hand over. -/
theorem busOps_matches_iff {p : TopicPattern ρ} {q : Query} (hq : p.filter = some q)
    (e : EventEnvelope Json) :
    (busOps ops extractKey serializedSize).Matches p e ↔ p.Selects ops q e := by
  show p.matchesEvent ops e.topic e.data = true ↔ _
  unfold matchesEvent
  rw [hq, Bool.and_eq_true]
  refine and_congr_right fun _ => ?_
  dsimp only
  -- a filter that fails to evaluate selects nothing
  cases q.matches e.data with
  | error err => simp
  | ok b => simp

/-- The payload of an event is below `data` on its view. -/
theorem matches_eventView (q : Query) (e : EventEnvelope Json) :
    q.matches e.data = (q.under "data").matches e.eventView := by
  have hdata : e.eventView.get "data" = some e.data := rfl
  exact (evalPred_under hdata q.predicate).symm

/-- **A filter sees the payload.**  A bus creates a subscription with a filter, and goes on.  In every
state after that, a call of `publish` or `try_publish` that visits the entry offers its envelope to
the subscription when the segments match the topic of the envelope and the filter is true of its
payload, and passes the entry over when not; and all that the consumer receives was selected so.  To
evaluate a filter on the payload is to evaluate it below `data` on the view of the event. -/
theorem filter_sees_payload [DecidableEq κ] (replayCapacity : ℕ) {p : TopicPattern ρ} {q : Query}
    (hq : p.filter = some q) {opts : SubscribeOpts} {b b₁ b₂ : Bus Json (TopicPattern ρ)}
    {as : List (BusAction Json (TopicPattern ρ))}
    (hb : (Bus.machine (busOps ops extractKey serializedSize) replayCapacity).Reachable b)
    (hsub : b.step (busOps ops extractKey serializedSize) (.subscribe p opts) = some b₁)
    (hsome : (b₁.subs b.nextId).isSome = true)
    (hrun : (Bus.machine (busOps ops extractKey serializedSize) replayCapacity).run b₁ as =
      some b₂) :
    (∀ k c sub, b₂.calls[k]? = some c → c.phase = .fanout → b.nextId ∈ c.todo →
      b₂.subs b.nextId = some sub →
      (p.Selects ops q c.envelope →
        b₂.visit (busOps ops extractKey serializedSize) k b.nextId =
          some (b₂.offerStep (busOps ops extractKey serializedSize) k c b.nextId sub)) ∧
      (¬ p.Selects ops q c.envelope →
        b₂.visit (busOps ops extractKey serializedSize) k b.nextId =
          some (b₂.passOver k c b.nextId))) ∧
    (∀ env b', b₂.recv b.nextId = some (env, b') → p.Selects ops q env) ∧
    ∀ e : EventEnvelope Json, q.matches e.data = (q.under "data").matches e.eventView := by
  -- the entry keeps its pattern, and nothing came into its queue but by a visit
  have honTopic := (Bus.onTopic_subscribe (Bus.wellFormed_of_reachable hb)
    (Bus.freshQueues_of_reachable hb) hsub hsome).run hrun
  refine ⟨fun k c sub hk hphase hi hentry => ?_, fun env b' hrecv => ?_, matches_eventView q⟩
  · have hmatches := busOps_matches_iff ops extractKey serializedSize hq c.envelope
    rw [← hmatches, ← honTopic.entry sub hentry]
    exact ⟨Bus.visit_of_match hk hphase hi hentry, Bus.visit_of_not_match hk hphase hi hentry⟩
  · exact (busOps_matches_iff ops extractKey serializedSize hq env).mp (honTopic.recv hrecv)

end Decision

/-- An event of a sensor. -/
def sensorEvent (data : Json) : EventEnvelope Json where
  eventId := ⟨"1"⟩
  nodeId := ⟨"hub"⟩
  resourceId := "abc"
  resourceKind := "sensor"
  streamId := .forResource ⟨"hub"⟩ "abc" "temp"
  stream := "temp"
  sequence := 1
  payloadKind := "temp"
  data := data

/-- What a topic parses to, once the parse is known to give a pattern with a property. -/
theorem parse_of_check (ops : TopicOps ρ) (topic : String) (check : TopicPattern ρ → Bool)
    (h : (match TopicPattern.parse ops topic with
      | .ok p => check p
      | .error _ => false) = true) :
    ∃ p, TopicPattern.parse ops topic = .ok p ∧ check p = true := by
  split at h
  · rename_i p hp
    exact ⟨p, hp, h⟩
  · cases h

/-- The payload of the test of the bus: an object with the field that the filter names. -/
def hotSensor : EventEnvelope Json := sensorEvent (.object [("data", .number (.posInt 90))])

/-- The bus of the test. -/
def sensorBus : BusOps Json (TopicPattern Empty) ℕ := busOps .plain (fun _ _ => none) fun _ => 0

/-- A `try_publish` that is about to visit the entries. -/
def sensorRun : List (BusAction Json (TopicPattern Empty)) :=
  [.tryPublish hotSensor, .advance 0, .advance 0, .advance 0]

/-- The filter selects the event, the visit offers it, and the consumer has it. -/
theorem filter_sees_payload_object : ∃ p q b₁ b₂ b₃ c sub,
    TopicPattern.parse .plain "hub/sensor/*/temp?ql=where data > 85" = .ok p ∧
    p.filter = some q ∧ (q.under "data").matches hotSensor.eventView = .ok true ∧
    (Bus.machine sensorBus 10).init.step sensorBus (.subscribe p {}) = some b₁ ∧
    (Bus.machine sensorBus 10).run b₁ sensorRun = some b₂ ∧
    b₂.calls[0]? = some c ∧ c.envelope = hotSensor ∧ b₂.subs 1 = some sub ∧
    b₂.visit sensorBus 0 1 = some b₃ ∧ b₃ = b₂.offerStep sensorBus 0 c 1 sub ∧
    (b₃.recv 1).map Prod.fst = some hotSensor := by
  obtain ⟨p, hparse, hcheck⟩ := parse_of_check .plain
    "hub/sensor/*/temp?ql=where data > 85" (fun p => p.filter.isSome &&
      p.matchesEvent .plain hotSensor.topic hotSensor.data)
    (by decide +kernel)
  rw [Bool.and_eq_true] at hcheck
  obtain ⟨q, hq⟩ := Option.isSome_iff_exists.mp hcheck.1
  have hselects : p.Selects .plain q hotSensor :=
    (busOps_matches_iff (κ := ℕ) .plain (fun _ _ => none) (fun _ => 0) hq hotSensor).mp hcheck.2
  -- up to the loop nothing looks at the pattern
  have hrun : ∃ b₁ b₂ c sub,
      (Bus.machine sensorBus 10).init.step sensorBus (.subscribe p {}) = some b₁ ∧
      (b₁.subs 1).isSome = true ∧ (Bus.machine sensorBus 10).run b₁ sensorRun = some b₂ ∧
      b₂.calls[0]? = some c ∧ c.phase = .fanout ∧ c.todo = [1] ∧ c.envelope = hotSensor ∧
      b₂.subs 1 = some sub ∧
      ((b₂.offerStep sensorBus 0 c 1 sub).recv 1).map Prod.fst = some hotSensor :=
    ⟨_, _, _, _, rfl, rfl, rfl, rfl, rfl, rfl, rfl, rfl, rfl⟩
  obtain ⟨b₁, b₂, c, sub, hsub, hsome, hrun, hk, hphase, htodo, henv, hentry, hrecv⟩ := hrun
  have hsees := filter_sees_payload .plain (fun _ _ => none) (fun _ => 0) 10 hq ⟨[], rfl⟩ hsub
    hsome hrun
  have hvisit := (hsees.1 0 c sub hk hphase (by rw [htodo]; exact List.mem_singleton_self 1)
    hentry).1 (henv ▸ hselects)
  exact ⟨p, q, b₁, b₂, _, c, sub, hparse, hq, (hsees.2.2 hotSensor).symm.trans hselects.2, hsub,
    hrun, hk, henv, hentry, hvisit, rfl, hrecv⟩

/-- The filter of the documentation does not see a payload that is the number itself. -/
theorem filter_misses_scalar_payload : ∃ p,
    TopicPattern.parse .plain "hub/sensor/abc/temp?ql=where data > 80" = .ok p ∧
    p.matchesView .plain (sensorEvent (.number (.posInt 90))) = true ∧
    p.matchesEvent .plain (sensorEvent (.number (.posInt 90))).topic
      (sensorEvent (.number (.posInt 90))).data = false := by
  obtain ⟨p, hparse, hcheck⟩ := parse_of_check .plain
    "hub/sensor/abc/temp?ql=where data > 80"
    (fun p => p.matchesView .plain (sensorEvent (.number (.posInt 90))) &&
      !p.matchesEvent .plain "hub/sensor/abc/temp" (.number (.posInt 90)))
    (by decide +kernel)
  rw [Bool.and_eq_true, Bool.not_eq_true'] at hcheck
  exact ⟨p, hparse, hcheck⟩

end TopicPattern

end Boardwalk
