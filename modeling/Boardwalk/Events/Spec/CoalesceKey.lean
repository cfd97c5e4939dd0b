import Boardwalk.Events.CoalesceKey

/-!
# The two ways to a coalesce key

A path below `data` is looked up in the payload without the envelope around it.  In the JSON of the
envelope the payload is the value of `data`, whatever fields are left out and whatever the payload
is, so that both ways lead to the same value (`extractKey_eq_lookup`).
-/

namespace Boardwalk

open Json

/-- Members with other keys do not matter. -/
theorem lookupKey_append_of_ne {ms ms' : List (String × Json)} {key : String}
    (h : ∀ m ∈ ms, m.1 ≠ key) : lookupKey (ms ++ ms') key = lookupKey ms' key := by
  unfold lookupKey
  rw [List.find?_append, List.find?_eq_none.mpr ?_, Option.none_or]
  intro m hm
  simpa using h m hm

theorem key_of_mem_member {α : Type} {key : String} {f : α → Json} {x : Option α}
    {m : String × Json} (h : m ∈ Json.member key f x) : m.1 = key := by
  cases x with
  | none => cases h
  | some x =>
    rw [member_some, List.mem_singleton] at h
    rw [h]

/-- The payload is the value of `data` in the JSON of its envelope. -/
theorem get_data_toJson {rfc3339 : OffsetDateTime → Option String} {env : EventEnvelope Json}
    {v : Json} (h : env.toJson rfc3339 = some v) : v.get "data" = some env.data := by
  obtain ⟨timestamp, -, rfl⟩ := Option.map_eq_some_iff.mp h
  refine (lookupKey_append_of_ne ?_).trans rfl
  intro m hm
  simp only [List.mem_append] at hm
  rcases hm with (((hm | hm) | hm) | hm) | hm
  · simp only [List.mem_cons, List.not_mem_nil, or_false] at hm
    rcases hm with rfl | rfl | rfl | rfl | rfl | rfl | rfl | rfl | rfl | rfl | rfl | rfl <;> simp
  · rw [key_of_mem_member hm]
    decide
  · rw [key_of_mem_member hm]
    decide
  · rw [key_of_mem_member hm]
    decide
  · rw [key_of_mem_member hm]
    decide

/-- **A coalesce key is the value at its path in the JSON of the envelope.** -/
theorem extractKey_eq_lookup {rfc3339 : OffsetDateTime → Option String} {env : EventEnvelope Json}
    {v : Json} (h : env.toJson rfc3339 = some v) (path : FieldPath) :
    extractKey rfc3339 env path = lookup path v := by
  unfold extractKey lookup
  split
  · rename_i segs hsegs
    rw [hsegs, lookupPath, get_data_toJson h]
    rfl
  · rw [h]
    rfl

/-- An event at the epoch whose payload has a `data` of its own. -/
def jobEvent : EventEnvelope Json where
  eventId := ⟨"a-10"⟩
  nodeId := ⟨"hub"⟩
  resourceId := "q"
  resourceKind := "job"
  streamId := .forResource ⟨"hub"⟩ "q" "progress"
  stream := "progress"
  sequence := 10
  payloadKind := "job.progress"
  traceContext := some { traceparent := "00" }
  data := .object [("jobId", .string "a"), ("data", .null)]

theorem extractKey_eq_lookup_job : ∃ rfc3339 v, jobEvent.toJson rfc3339 = some v ∧
    extractKey rfc3339 jobEvent ⟨["data", "jobId"]⟩ = lookup ⟨["data", "jobId"]⟩ v ∧
    extractKey rfc3339 jobEvent ⟨["traceContext", "traceparent"]⟩ =
      lookup ⟨["traceContext", "traceparent"]⟩ v :=
  ⟨fun t => if t = {} then some "1970-01-01T00:00:00Z" else none, _, rfl,
    extractKey_eq_lookup rfl _, extractKey_eq_lookup rfl _⟩

end Boardwalk
