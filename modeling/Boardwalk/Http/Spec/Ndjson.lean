import Boardwalk.Http.Ndjson
import Boardwalk.Http.Socket
import Boardwalk.Http.Spec.Replay

/-!
# Events that come through a peer

A gateway reads the lines of a hub's event stream back with `render_peer_event`.  For the line of
an envelope this gives what `render_event_for_ws` gives for the envelope itself
(`renderPeerEvent_toJson`), because every member of the object is read under the name and in the
type it was written in.

`emitted_of_reachable` says which lines a stream can have: those of envelopes, and after them at
most one `stream-gap`.
-/

namespace Boardwalk

/-- What `time::OffsetDateTime` holds: a local time in the years -9999 to 9999, and an offset of
less than 26 hours. -/
structure OffsetDateTime.Representable (t : OffsetDateTime) : Prop where
  notBefore : -377705116800 * 1000000000 ≤ t.unixTimestampNanos + t.offsetSeconds * 1000000000
  before : t.unixTimestampNanos + t.offsetSeconds * 1000000000 < 253402300800 * 1000000000
  offset : -93600 < t.offsetSeconds ∧ t.offsetSeconds < 93600

/-- The milliseconds fit an `i64`. -/
theorem EventEnvelope.timestampMs_bounds {δ : Type} {e : EventEnvelope δ}
    (h : e.timestamp.Representable) : -2 ^ 63 ≤ e.timestampMs ∧ e.timestampMs < 2 ^ 63 := by
  obtain ⟨hmin, hmax, hoff⟩ := h
  have hlo : -2 ^ 63 * 1000000 < e.timestamp.unixTimestampNanos := by omega
  have hhi : e.timestamp.unixTimestampNanos < 2 ^ 63 * 1000000 := by omega
  unfold EventEnvelope.timestampMs
  generalize e.timestamp.unixTimestampNanos = nanos at hlo hhi
  -- the division rounds toward zero, so the two signs are taken apart
  rcases Int.le_total 0 nanos with hpos | hneg
  · rw [Int.tdiv_eq_ediv_of_nonneg hpos]
    omega
  · obtain ⟨m, rfl⟩ : ∃ m, nanos = -m := ⟨-nanos, by omega⟩
    rw [Int.neg_tdiv, Int.tdiv_eq_ediv_of_nonneg (by omega)]
    omega

/-! ### The lines of a stream -/

/-- The line of a notice, at the time `now`. -/
def NdjsonLine.ofNotice {δ : Type} (now : ℤ) (n : SlowConsumerNotice) : NdjsonLine δ :=
  .streamGap now (n.streamId.map (·.raw)) n.lastDeliveredSequence n.reason true

/-- The lines of the envelopes `evs`, and after them at most one `stream-gap`. -/
def Emitted {δ : Type} (rfc3339 : OffsetDateTime → Option String) (evs : List (EventEnvelope δ))
    (lines : List (NdjsonLine δ)) : Prop :=
  ∃ gap : Option (ℤ × SlowConsumerNotice),
    lines = evs.filterMap (ndjsonEventLine rfc3339) ++
      (gap.map fun (now, n) => NdjsonLine.ofNotice now n).toList

namespace EventsStream

variable {δ τ κ : Type} [DecidableEq κ] {ops : BusOps δ τ κ}
  {rfc3339 : OffsetDateTime → Option String} {t t' : EventsStream δ τ}

/-- The stream is over and does not go back. -/
def closing (t : EventsStream δ τ) : Bool :=
  match t.phase with
  | .unsubscribing | .dropping | .done => true
  | _ => false

/-- While the stream is not over, all its lines are of envelopes. -/
structure BodyEmitted (rfc3339 : OffsetDateTime → Option String) (t : EventsStream δ τ) :
    Prop where
  emitted : Emitted rfc3339 t.handed t.body
  events : t.closing = false → t.body = t.handed.filterMap (ndjsonEventLine rfc3339)

theorem BodyEmitted.of_eq (h : BodyEmitted rfc3339 t) (hbody : t'.body = t.body)
    (hhanded : t'.handed = t.handed) (hover : t.closing = true → t'.closing = true) :
    BodyEmitted rfc3339 t' := by
  refine ⟨by rw [hbody, hhanded]; exact h.emitted, fun hnot => ?_⟩
  rw [hbody, hhanded]
  cases hold : t.closing with
  | false => exact h.events hold
  | true =>
    rw [hover hold] at hnot
    cases hnot

/-- A line of an envelope is yielded. -/
theorem BodyEmitted.event (h : BodyEmitted rfc3339 t) (hover : t.closing = false)
    {ev : EventEnvelope δ} {line : NdjsonLine δ} (hline : ndjsonEventLine rfc3339 ev = some line)
    (hbody : t'.body = t.body ++ [line]) (hhanded : t'.handed = t.handed ++ [ev]) :
    BodyEmitted rfc3339 t' := by
  have hevents : t'.body = t'.handed.filterMap (ndjsonEventLine rfc3339) := by
    rw [hbody, hhanded, h.events hover, List.filterMap_append, List.filterMap_cons_some hline,
      List.filterMap_nil]
  exact ⟨⟨none, by rw [hevents]; simp⟩, fun _ => hevents⟩

/-- A poll of the body emits what the stream has emitted. -/
theorem BodyEmitted.poll {now : ℤ} (h : BodyEmitted rfc3339 t)
    (hs : t.poll ops rfc3339 now = some t') : BodyEmitted rfc3339 t' := by
  -- a poll yields an event line, the gap line, or nothing
  cases polled_of_poll hs with
  | read _ hp hn => subst hn; exact h.of_eq rfl rfl fun ho => by simp [closing, hp] at ho
  | replay ev rest line hp hl hn =>
    subst hn
    exact h.event (by simp [closing, hp]) hl rfl rfl
  | replayed hp hn => subst hn; exact h.of_eq rfl rfl fun ho => by simp [closing, hp] at ho
  | quiet hp _ hn => subst hn; exact h.of_eq rfl rfl fun ho => by simp [closing, hp] at ho
  | gap n hp _ hn =>
    subst hn
    -- the gap comes after every event line, and closes the body
    refine ⟨⟨some (now, n), ?_⟩, fun ho => by cases ho⟩
    have hevents := h.events (by simp [closing, hp])
    simp only [yieldGap, hevents]
    rfl
  | gone _ _ hn => subst hn; exact h.of_eq rfl rfl fun _ => rfl
  | skip ev bus hp _ _ hn => subst hn; exact h.of_eq rfl rfl fun ho => by simp [closing, hp] at ho
  | yield ev bus line hp _ _ hl hn =>
    subst hn
    exact h.event (by simp [closing, hp]) hl rfl rfl
  | empty hp _ hn => subst hn; exact h.of_eq rfl rfl fun ho => by simp [closing, hp] at ho
  | ended _ _ hn => subst hn; exact h.of_eq rfl rfl fun _ => rfl
  | unsubscribe bus _ _ hn => subst hn; exact h.of_eq rfl rfl fun _ => rfl
  | dropRx _ hn => subst hn; exact h.of_eq rfl rfl fun _ => rfl

/-- Every step of the stream keeps the body equal to what it has emitted. -/
theorem BodyEmitted.step {a : StreamAction δ τ} (h : BodyEmitted rfc3339 t)
    (hs : t.step ops rfc3339 a = some t') : BodyEmitted rfc3339 t' := by
  cases a with
  | bus a =>
    simp only [EventsStream.step] at hs
    split at hs
    · obtain ⟨bus, -, rfl⟩ := Option.map_eq_some_iff.mp hs
      exact h.of_eq rfl rfl fun ho => ho
    · cases hs
  | subscribe topic outboundCapacity policy replayStreamId =>
    simp only [EventsStream.step] at hs
    split at hs
    · rename_i hp
      obtain ⟨bus, -, rfl⟩ := Option.map_eq_some_iff.mp hs
      have hnot : t.closing ≠ true := by simp [closing, hp]
      split
      · exact h.of_eq rfl rfl fun ho => absurd ho hnot
      · exact h.of_eq rfl rfl fun ho => absurd ho hnot
    · cases hs
  | poll now => exact h.poll hs
  | disconnect =>
    -- a dropped body emits no more
    obtain ⟨-, -, -, phase, hphase, rfl⟩ := step_disconnect hs
    refine h.of_eq rfl rfl fun _ => ?_
    rcases hphase with rfl | rfl <;> rfl

/-- **What a stream emits**: the lines of the envelopes it was handed, and at most one
`stream-gap`, which is its last line. -/
theorem emitted_of_reachable {replayCapacity : ℕ}
    (h : (machine ops rfc3339 replayCapacity).Reachable t) : Emitted rfc3339 t.handed t.body := by
  have hinit : BodyEmitted rfc3339 (machine ops rfc3339 replayCapacity).init :=
    ⟨⟨none, rfl⟩, fun _ => rfl⟩
  exact (h.inv hinit fun s a s' hs hstep => hs.step hstep).emitted

end EventsStream

/-! ### Members that are read back -/

namespace Json

/-- A number in range is read back as it was written. -/
theorem asI64_i64 {z : ℤ} (hmin : -2 ^ 63 ≤ z) (hmax : z < 2 ^ 63) : (i64 z).asI64 = some z := by
  have htoInt : (Int64.ofInt z).toInt = z := Int64.toInt_ofInt_of_le hmin hmax
  unfold i64 Number.ofI64
  split
  · simp only [asI64, Number.asI64, htoInt]
  · rename_i hneg
    have hle : 0 ≤ Int64.ofInt z := Int64.not_lt.mp hneg
    have hz : 0 ≤ z := by
      rw [Int64.le_iff_toInt_le, htoInt] at hle
      exact hle
    have hnat : (Int64.ofInt z).toUInt64.toNat = z.toNat := by
      rw [Int64.toNat_toUInt64_of_le hle, ← Int64.toNat_toInt, htoInt]
    have hlt : z.toNat < 2 ^ 63 := by omega
    simp only [asI64, Number.asI64, hnat, if_pos hlt]
    exact congrArg some (Int.toNat_of_nonneg hz)

@[simp] theorem asU64_u64 (n : UInt64) : (u64 n).asU64 = some n := rfl

@[simp] theorem asStr_string (s : String) : (string s).asStr = some s := rfl

@[simp] theorem asStr_option (x : Option String) : (option string x).asStr = x := by
  cases x <;> rfl

end Json

/-- The members of an event line are read back. -/
theorem renderPeerEvent_toJson {rfc3339 : OffsetDateTime → Option String} {e : EventEnvelope Json}
    {line : NdjsonLine Json} (hline : ndjsonEventLine rfc3339 e = some line)
    (hrep : e.timestamp.Representable) (now : ℤ) (appId : UInt64) (fallbackTopic : String) :
    renderPeerEvent now appId fallbackTopic line.toJson = renderEventForWs rfc3339 appId e := by
  obtain rfl := Option.some.inj hline
  obtain ⟨hmin, hmax⟩ := EventEnvelope.timestampMs_bounds hrep
  simp [renderPeerEvent, renderEventForWs, NdjsonLine.toJson, Json.get, Json.lookupKey,
    Json.asI64_i64 hmin hmax]

/-- **An event looks the same when it comes through a peer.**  `toVec` and `fromSlice` are the
writer and the reader of `serde_json`, which reads the text of the line back to its object. -/
theorem peer_event_eq_local (toVec : Json → List UInt8) (fromSlice : List UInt8 → Option Json)
    (rfc3339 : OffsetDateTime → Option String) (e : EventEnvelope Json)
    (hrep : e.timestamp.Representable)
    (hserde : ∀ line, ndjsonEventLine rfc3339 e = some line →
      fromSlice (toVec line.toJson) = some line.toJson)
    (now : ℤ) (appId : UInt64) (fallbackTopic : String) :
    ∃ line, ndjsonEventLine rfc3339 e = some line ∧
      (fromSlice (toVec line.toJson)).map (renderPeerEvent now appId fallbackTopic) =
        some (renderEventForWs rfc3339 appId e) := by
  refine ⟨_, rfl, ?_⟩
  rw [hserde _ rfl, Option.map_some]
  exact congrArg some (renderPeerEvent_toJson rfl hrep now appId fallbackTopic)

/-- The first event of a lamp. -/
def lampOn : EventEnvelope Json where
  eventId := ⟨"e1"⟩
  nodeId := ⟨"hub"⟩
  resourceId := "r1"
  resourceKind := "led"
  streamId := ⟨"bw://hub/resources/r1/streams/state"⟩
  stream := "state"
  sequence := 1
  payloadKind := "state-change"
  data := .bool true

/-- Its line. -/
def lampOnText : String :=
  "\x7b\"data\":true,\"envelopeVersion\":1,\"eventId\":\"e1\"," ++
  "\"isoTimestamp\":\"1970-01-01T00:00:00Z\",\"nodeId\":\"hub\"," ++
  "\"payloadKind\":\"state-change\",\"payloadVersion\":1,\"resourceId\":\"r1\"," ++
  "\"resourceKind\":\"led\",\"sequence\":1,\"stream\":\"state\"," ++
  "\"streamId\":\"bw://hub/resources/r1/streams/state\",\"timestamp\":0," ++
  "\"topic\":\"hub/led/r1/state\"\x7d"

/-- The event of a lamp switched on reads the same from a peer as at home. -/
theorem peer_event_lampOn :
    let rfc3339 := fun _ => some "1970-01-01T00:00:00Z"
    let toVec : Json → List UInt8 := fun _ => lampOnText.toUTF8.data.toList
    let fromSlice := fun bytes =>
      if bytes = lampOnText.toUTF8.data.toList then (ndjsonEventLine rfc3339 lampOn).map (·.toJson)
      else none
    ∃ line, ndjsonEventLine rfc3339 lampOn = some line ∧
      (fromSlice (toVec line.toJson)).map (renderPeerEvent 5 1 "hub/led/*/state") =
        some (renderEventForWs rfc3339 1 lampOn) := by
  intro rfc3339 toVec fromSlice
  refine peer_event_eq_local toVec fromSlice rfc3339 lampOn ⟨by decide, by decide, by decide⟩
    (fun line hline => ?_) 5 1 "hub/led/*/state"
  show (if _ then _ else _) = _
  rw [if_pos rfl, hline, Option.map_some]

end Boardwalk
