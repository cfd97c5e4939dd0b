import Boardwalk.Http.Spec.PeerStreams
import Boardwalk.Lib.Str

/-!
# The reader of a peer's events

`run_stream` appends the frames of the response body to a buffer and takes lines off it.  The lines
that are still to be broadcast are those of the buffer and of the bytes to come (`Accounts`), so what
it has broadcast at an await, or after its end, depends on the bytes that came and not on how they
were cut into frames (`run_stream_broadcasts`).
-/

namespace Boardwalk

/-! ### Lines and bytes -/

namespace RunStream

variable {buf line rest : List UInt8}

theorem nextLine_append (h : 10 ∉ line) : nextLine (line ++ 10 :: rest) = some (line, rest) := by
  have hall : ∀ b ∈ line, (b != 10) = true := by
    intro b hb
    simp only [bne_iff_ne]
    rintro rfl
    exact h hb
  unfold nextLine
  rw [List.dropWhile_append_of_pos hall, List.takeWhile_append_of_pos hall]
  simp

/-- There is no next line exactly when there is no newline. -/
theorem nextLine_eq_none : nextLine buf = none ↔ 10 ∉ buf := by
  unfold nextLine
  split
  · rename_i h
    rw [List.dropWhile_eq_nil_iff] at h
    simp only [true_iff]
    intro hmem
    simpa using h 10 hmem
  · rename_i b rest h
    simp only [reduceCtorEq, false_iff, not_not]
    by_contra hmem
    have hnil : buf.dropWhile (· != 10) = [] := by
      rw [List.dropWhile_eq_nil_iff]
      intro b hb
      simp only [bne_iff_ne]
      rintro rfl
      exact hmem hb
    rw [h] at hnil
    cases hnil

/-- The next line ends at the first newline. -/
theorem nextLine_eq_some (h : nextLine buf = some (line, rest)) :
    10 ∉ line ∧ buf = line ++ 10 :: rest := by
  unfold nextLine at h
  split at h
  · cases h
  · rename_i b rest' hdrop
    cases h
    have hb : b = 10 := by
      have hne : buf.dropWhile (· != 10) ≠ [] := by rw [hdrop]; simp
      have := List.head_dropWhile_not (· != 10) hne
      simpa [hdrop] using this
    refine ⟨fun hmem => ?_, ?_⟩
    · simpa using List.mem_takeWhile_imp hmem
    · subst hb
      rw [← hdrop, List.takeWhile_append_dropWhile]

end RunStream

/-! ### The lines of a text -/

/-- The lines of some bytes that end with a newline. -/
def terminatedLines (bytes : List UInt8) : List (List UInt8) := (bytes.splitOn 10).dropLast

/-- The values of the lines that are JSON. -/
def lineValues (fromSlice : List UInt8 → Option Json) (bytes : List UInt8) : List Json :=
  (terminatedLines bytes).filterMap fromSlice

section Lines

variable {fromSlice : List UInt8 → Option Json} {line rest buf : List UInt8}

theorem splitOn_of_not_mem (h : 10 ∉ buf) : buf.splitOn 10 = [buf] := by
  have hone : ([10].intercalate [buf]).splitOn 10 = [buf] :=
    List.splitOn_intercalate 10 (by simpa using h) (by simp)
  simpa using hone

/-- An unterminated text has no line. -/
theorem lineValues_of_not_mem (h : 10 ∉ buf) : lineValues fromSlice buf = [] := by
  rw [lineValues, terminatedLines, splitOn_of_not_mem h]
  rfl

theorem lineValues_cons_line (h : 10 ∉ line) :
    lineValues fromSlice (line ++ 10 :: rest) =
      (fromSlice line).toList ++ lineValues fromSlice rest := by
  have hne : rest.splitOn 10 ≠ [] := List.splitOn_ne_nil 10 rest
  rw [lineValues, terminatedLines, List.splitOn_append_cons_self, splitOn_of_not_mem h,
    List.singleton_append, List.dropLast_cons_of_ne_nil hne, List.filterMap_cons]
  cases fromSlice line with
  | none => rfl
  | some v => rfl

end Lines

/-! ### One task -/

/-- What came for a task, what it has broadcast, and where it stands: whatever comes next, the lines
not yet broadcast are those of the buffer. -/
def RunStream.Accounts (fromSlice : List UInt8 → Option Json) (bytes : List UInt8)
    (sent : List Json) : RunStream → Prop
  | .request => bytes = [] ∧ sent = []
  | .body buf => ∀ more,
    lineValues fromSlice (bytes ++ more) = sent ++ lineValues fromSlice (buf ++ more)
  | .returned => lineValues fromSlice bytes = sent

/-- The bytes of a frame. -/
def PeerReply.bytes : PeerReply → List UInt8
  | .data bytes => bytes
  | _ => []

/-- A frame of the body, and not its end. -/
def PeerReply.isFrame : PeerReply → Bool
  | .data _ | .trailers => true
  | _ => false

namespace RunStream

variable {fromSlice : List UInt8 → Option Json} {bytes : List UInt8} {sent : List Json}
  {task task' : RunStream}

/-- A reply keeps what the task has sent accounted for by what it has read. -/
theorem Accounts.resume {reply : PeerReply} (h : task.Accounts fromSlice bytes sent)
    (hr : task.resume reply = some task') : task'.Accounts fromSlice (bytes ++ reply.bytes) sent := by
  cases task with
  | request =>
    obtain ⟨rfl, rfl⟩ := h
    cases reply with
    | requestFailed =>
      obtain rfl := Option.some.inj hr
      rfl
    | response status =>
      simp only [RunStream.resume] at hr
      split at hr <;> obtain rfl := Option.some.inj hr
      · exact fun more => rfl
      · rfl
    | data bytes => cases hr
    | trailers => cases hr
    | bodyError => cases hr
    | endOfBody => cases hr
  | returned => cases reply <;> cases hr
  | body buf =>
    simp only [RunStream.resume] at hr
    split at hr
    · cases hr
    · rename_i hnone
      -- the buffer has no line left
      have hbuf : 10 ∉ buf := nextLine_eq_none.mp (by simpa using hnone)
      have hend : lineValues fromSlice bytes = sent := by
        have hall := h []
        rw [List.append_nil, List.append_nil, lineValues_of_not_mem hbuf, List.append_nil] at hall
        exact hall
      cases reply with
      | requestFailed => cases hr
      | response status => cases hr
      | data new =>
        obtain rfl := Option.some.inj hr
        intro more
        rw [PeerReply.bytes, List.append_assoc, List.append_assoc]
        exact h (new ++ more)
      | trailers =>
        obtain rfl := Option.some.inj hr
        simpa [PeerReply.bytes] using h
      | bodyError =>
        obtain rfl := Option.some.inj hr
        show lineValues fromSlice (bytes ++ []) = sent
        rw [List.append_nil, hend]
      | endOfBody =>
        obtain rfl := Option.some.inj hr
        show lineValues fromSlice (bytes ++ []) = sent
        rw [List.append_nil, hend]

/-- A line taken is a value sent, and was read before. -/
theorem Accounts.takeLine {value : Option Json} (h : task.Accounts fromSlice bytes sent)
    (hl : task.takeLine fromSlice = some (value, task')) :
    task'.Accounts fromSlice bytes (sent ++ value.toList) := by
  cases task with
  | request => cases hl
  | returned => cases hl
  | body buf =>
    obtain ⟨⟨line, rest⟩, hnext, heq⟩ := Option.map_eq_some_iff.mp hl
    cases heq
    obtain ⟨hline, rfl⟩ := nextLine_eq_some hnext
    intro more
    rw [h more, List.append_assoc, List.append_assoc, List.cons_append, lineValues_cons_line hline]

/-- At an await, and after its end, the task has broadcast all lines that came. -/
theorem Accounts.at_rest (h : task.Accounts fromSlice bytes sent)
    (hrest : task.awaiting = true ∨ task = .returned) : sent = lineValues fromSlice bytes := by
  cases task with
  | request =>
    obtain ⟨rfl, rfl⟩ := h
    rfl
  | returned => exact h.symm
  | body buf =>
    have hbuf : 10 ∉ buf := nextLine_eq_none.mp (by simpa [awaiting] using hrest)
    have hall := h []
    rw [List.append_nil, List.append_nil, lineValues_of_not_mem hbuf, List.append_nil] at hall
    exact hall.symm

/-- What has been sent is a prefix of the values of what has been read. -/
theorem Accounts.isPrefix (h : task.Accounts fromSlice bytes sent) :
    sent <+: lineValues fromSlice bytes := by
  cases task with
  | request =>
    obtain ⟨rfl, rfl⟩ := h
    exact List.prefix_rfl
  | returned =>
    have hsent : sent = lineValues fromSlice bytes := h.at_rest (.inr rfl)
    exact ⟨[], by rw [hsent, List.append_nil]⟩
  | body buf =>
    have hall := h []
    rw [List.append_nil, List.append_nil] at hall
    exact ⟨_, hall.symm⟩

end RunStream

/-! ### All tasks -/

namespace PeerStreamHub

variable {hub hub' : PeerStreamHub} {k : ℕ}

/-- What was broadcast on the channel of an upstream. -/
def sentOn (hub : PeerStreamHub) (k : ℕ) : Option (List Json) :=
  hub.upstreams[k]?.map (·.channel.sent)

theorem sentOn_unsubscribe (peer topic : String) :
    (hub.unsubscribe peer topic).sentOn k = hub.sentOn k := by
  unfold unsubscribe
  split
  · rfl
  · split
    · simp only [sentOn, abort, List.getElem?_modify]
      cases hub.upstreams[k]? with
      | none => rfl
      | some u =>
        simp only [Option.map_eq_map, Option.map_some]
        split <;> rfl
    · rfl

theorem sentOn_ended {senders : Option PeerSenders} {j : ℕ}
    (hs : hub.step senders (.ended j) = some hub') : hub'.sentOn k = hub.sentOn k := by
  simp only [step] at hs
  split at hs
  · rename_i u hu
    split at hs
    · obtain rfl := Option.some.inj hs
      by_cases hj : j = k
      · subst hj
        simp [sentOn, List.getElem?_set_self (List.getElem?_eq_some_iff.mp hu).1, hu]
      · simp [sentOn, List.getElem?_set_ne hj]
    · cases hs
  · cases hs

/-- A line is sent on its own stream and on no other. -/
theorem sentOn_line {senders : Option PeerSenders} {j : ℕ} {v : Json}
    (hs : hub.step senders (.line j v) = some hub') :
    hub'.sentOn k = (hub.sentOn k).map (· ++ if j = k then [v] else []) := by
  simp only [step] at hs
  split at hs
  · rename_i u hu
    split at hs
    · obtain rfl := Option.some.inj hs
      by_cases hj : j = k
      · subst hj
        simp [sentOn, List.getElem?_set_self (List.getElem?_eq_some_iff.mp hu).1, hu,
          Broadcast.send]
      · simp only [sentOn, List.getElem?_set_ne hj, if_neg hj, List.append_nil, Option.map_id']
    · cases hs
  · cases hs

end PeerStreamHub

namespace PeerStreams

variable {fromSlice : List UInt8 → Option Json} {s s' : PeerStreams} {k j : ℕ}
  {bytes : List UInt8} {task : RunStream}

theorem setTask_spec (hs : s.setTask j task = some s') :
    s'.tasks = s.tasks.set j task ∧ s'.hub.sentOn k = s.hub.sentOn k := by
  cases task with
  | request =>
    obtain rfl := Option.some.inj hs
    exact ⟨rfl, rfl⟩
  | body buf =>
    obtain rfl := Option.some.inj hs
    exact ⟨rfl, rfl⟩
  | returned =>
    obtain ⟨hub, hhub, rfl⟩ := Option.map_eq_some_iff.mp hs
    exact ⟨rfl, PeerStreamHub.sentOn_ended hhub⟩

/-- The bytes that an action brings to task `k`. -/
def bytesFor (k : ℕ) : PeerStreamsAction → List UInt8
  | .resume j reply => if j = k then reply.bytes else []
  | _ => []

/-- The hub with the bytes that have come for task `k`. -/
def reading (fromSlice : List UInt8 → Option Json) (k : ℕ) :
    Machine (PeerStreams × List UInt8) PeerStreamsAction :=
  (machine fromSlice).withHistory [] fun _ a bytes => bytes ++ bytesFor k a

/-- The account of task `k`; there are no bytes for a task that is not spawned. -/
structure Reads (fromSlice : List UInt8 → Option Json) (k : ℕ) (s : PeerStreams)
    (bytes : List UInt8) : Prop where
  consistent : s.Consistent
  absent : s.tasks[k]? = none → bytes = []
  task : ∀ task sent, s.tasks[k]? = some task → s.hub.sentOn k = some sent →
    task.Accounts fromSlice bytes sent

/-- A step of another task. -/
theorem Reads.other (h : s.Reads fromSlice k bytes) (hj : j ≠ k) (hc : s'.Consistent)
    (htasks : s'.tasks = s.tasks.set j task) (hsent : s'.hub.sentOn k = s.hub.sentOn k) :
    s'.Reads fromSlice k bytes := by
  have hsame : s'.tasks[k]? = s.tasks[k]? := by rw [htasks, List.getElem?_set_ne hj]
  refine ⟨hc, fun hnone => h.absent (hsame ▸ hnone), fun task sent ht hs => ?_⟩
  exact h.task task sent (hsame ▸ ht) (hsent ▸ hs)

/-- A step of task `k`. -/
theorem Reads.own (new : List UInt8) (values : List Json) {before : RunStream}
    (h : s.Reads fromSlice k bytes) (hc : s'.Consistent) (ht : s.tasks[k]? = some before)
    (htasks : s'.tasks = s.tasks.set k task)
    (hsent : s'.hub.sentOn k = (s.hub.sentOn k).map (· ++ values))
    (hstep : ∀ sent, before.Accounts fromSlice bytes sent →
      task.Accounts fromSlice (bytes ++ new) (sent ++ values)) :
    s'.Reads fromSlice k (bytes ++ new) := by
  have hlt := (List.getElem?_eq_some_iff.mp ht).1
  have hself : s'.tasks[k]? = some task := by rw [htasks, List.getElem?_set_self hlt]
  refine ⟨hc, fun hnone => ?_, fun task' sent ht' hs => ?_⟩
  · rw [hself] at hnone
    cases hnone
  obtain rfl := Option.some.inj (hself.symm.trans ht')
  rw [hsent] at hs
  obtain ⟨sent₀, hs₀, rfl⟩ := Option.map_eq_some_iff.mp hs
  exact hstep sent₀ (h.task before sent₀ ht hs₀)

theorem tasks_none_of_subscribe {peer topic : String} {senders : PeerSenders}
    (hs : s.step fromSlice (.subscribe peer topic senders) = some s')
    (hnone : s'.tasks[k]? = none) : s.tasks[k]? = none := by
  obtain ⟨⟨rx, hub⟩, -, rfl⟩ := Option.map_eq_some_iff.mp hs
  dsimp only at hnone
  split at hnone
  · rw [List.getElem?_eq_none_iff] at hnone ⊢
    rw [List.length_append] at hnone
    omega
  · exact hnone

/-- A subscriber adds at most a task that has done nothing. -/
theorem tasks_of_subscribe {peer topic : String} {senders : PeerSenders} {sent : List Json}
    (hlen : s.tasks.length = s.hub.upstreams.length)
    (hs : s.step fromSlice (.subscribe peer topic senders) = some s')
    (ht : s'.tasks[k]? = some task) (hsent : s'.hub.sentOn k = some sent) :
    s.tasks[k]? = some task ∧ s.hub.sentOn k = some sent ∨
      s.tasks[k]? = none ∧ task = .request ∧ sent = [] := by
  obtain ⟨⟨rx, hub⟩, hsub, rfl⟩ := Option.map_eq_some_iff.mp hs
  unfold PeerStreamHub.subscribe at hsub
  -- a known topic adds no task
  split at hsub
  · cases hsub
    exact .inl ⟨by simpa using ht, hsent⟩
  · obtain ⟨sender, -, heq⟩ := Option.map_eq_some_iff.mp hsub
    cases heq
    simp only [List.length_append, List.length_singleton, Nat.lt_succ_self, if_true,
      PeerStreamHub.sentOn] at ht hsent
    -- the new task stands last, and nothing has been sent for it
    rw [List.getElem?_append] at ht hsent
    rw [← hlen] at hsent
    split at ht
    · rename_i hlt
      rw [if_pos hlt] at hsent
      exact .inl ⟨ht, hsent⟩
    · rename_i hge
      rw [if_neg hge] at hsent
      refine .inr ⟨List.getElem?_eq_none_iff.mpr (Nat.le_of_not_lt hge), ?_⟩
      rw [List.getElem?_singleton] at ht hsent
      split at ht
      · rename_i hzero
        rw [if_pos hzero] at hsent
        exact ⟨(Option.some.inj ht).symm, (Option.some.inj hsent).symm⟩
      · cases ht

/-- Every step keeps what one stream has sent accounted for by its bytes. -/
theorem Reads.step {a : PeerStreamsAction} (h : s.Reads fromSlice k bytes)
    (hs : s.step fromSlice a = some s') : s'.Reads fromSlice k (bytes ++ bytesFor k a) := by
  have hc := h.consistent.step hs
  -- only the steps of task `k` read bytes, and only they send on
  cases a with
  | subscribe peer topic senders =>
    simp only [bytesFor, List.append_nil]
    refine ⟨hc, fun hnone => h.absent (tasks_none_of_subscribe hs hnone), ?_⟩
    intro task sent ht hsent
    rcases tasks_of_subscribe h.consistent.matched.length hs ht hsent with
      ⟨ht, hsent⟩ | ⟨hnone, rfl, rfl⟩
    · exact h.task task sent ht hsent
    · exact ⟨h.absent hnone, rfl⟩
  | unsubscribe peer topic =>
    obtain rfl := Option.some.inj hs
    simp only [bytesFor, List.append_nil]
    refine ⟨hc, h.absent, fun task sent ht hsent => ?_⟩
    rw [PeerStreamHub.sentOn_unsubscribe] at hsent
    exact h.task task sent ht hsent
  | resume j reply =>
    obtain ⟨before, ht, hs⟩ := Option.bind_eq_some_iff.mp hs
    obtain ⟨after, hr, hs⟩ := Option.bind_eq_some_iff.mp hs
    obtain ⟨htasks, hsent⟩ := setTask_spec (k := k) hs
    -- the reply is for this task, or for another
    by_cases hj : j = k
    · subst hj
      rw [bytesFor, if_pos rfl]
      refine h.own _ [] hc ht htasks (by simp [hsent]) fun sent hacc => ?_
      rw [List.append_nil]
      exact hacc.resume hr
    · rw [bytesFor, if_neg hj, List.append_nil]
      exact h.other hj hc htasks hsent
  | takeLine j =>
    obtain ⟨before, ht, hs⟩ := Option.bind_eq_some_iff.mp hs
    obtain ⟨⟨value, after⟩, hl, hs⟩ := Option.bind_eq_some_iff.mp hs
    -- what is sent is the line, if it is JSON
    have hmoved : s'.tasks = s.tasks.set j after ∧
        s'.hub.sentOn k = (s.hub.sentOn k).map (· ++ if j = k then value.toList else []) := by
      cases value with
      | some v =>
        obtain ⟨hub, hhub, rfl⟩ := Option.map_eq_some_iff.mp hs
        exact ⟨rfl, PeerStreamHub.sentOn_line hhub⟩
      | none =>
        obtain rfl := Option.some.inj hs
        exact ⟨rfl, by simp⟩
    simp only [bytesFor, List.append_nil]
    by_cases hj : j = k
    · subst hj
      rw [if_pos rfl] at hmoved
      have hown := h.own [] _ hc ht hmoved.1 hmoved.2 fun sent hacc => by
        rw [List.append_nil]
        exact hacc.takeLine hl
      rwa [List.append_nil] at hown
    · refine h.other hj hc hmoved.1 ?_
      rw [hmoved.2, if_neg hj]
      simp
  | cancelled j =>
    -- a cancelled task had read all its lines
    obtain ⟨before, ht, hs⟩ := Option.bind_eq_some_iff.mp hs
    split at hs
    · rename_i hcond
      obtain ⟨htasks, hsent⟩ := setTask_spec (k := k) hs
      simp only [bytesFor, List.append_nil]
      by_cases hj : j = k
      · subst hj
        have hown := h.own [] [] hc ht htasks (by simp [hsent])
          fun sent hacc => by
            rw [List.append_nil, List.append_nil]
            exact (hacc.at_rest (.inl hcond.1)).symm
        rwa [List.append_nil] at hown
      · exact h.other hj hc htasks hsent
    · cases hs

theorem reads_of_reachable {x : PeerStreams × List UInt8}
    (h : (reading fromSlice k).Reachable x) : x.1.Reads fromSlice k x.2 := by
  refine h.inv (I := fun x => x.1.Reads fromSlice k x.2) ?_ fun x a y hx hxy => ?_
  · exact ⟨consistent_init, fun _ => rfl, fun task sent ht => by simp [reading, machine,
      Machine.withHistory] at ht⟩
  · obtain ⟨hs, hbytes⟩ := Machine.step_withHistory.mp hxy
    rw [← hbytes]
    exact hx.step hs

/-! ### A task that gets its frames -/

/-- The reply that an action brings to task `k`. -/
def replyFor (k : ℕ) : PeerStreamsAction → Option PeerReply
  | .resume j reply => if j = k then some reply else none
  | _ => none

/-- A run from `x` that brings the replies to task `k`, which then stands at `task`. -/
structure Fed (fromSlice : List UInt8 → Option Json) (k : ℕ) (x : PeerStreams × List UInt8)
    (replies : List PeerReply) (task : RunStream) (y : PeerStreams × List UInt8) : Prop where
  run : ∃ as, (reading fromSlice k).run x as = some y ∧ as.filterMap (replyFor k) = replies
  bytes : y.2 = x.2 ++ replies.flatMap PeerReply.bytes
  reads : y.1.Reads fromSlice k y.2
  task : y.1.tasks[k]? = some task

variable {x y z : PeerStreams × List UInt8} {replies replies' : List PeerReply} {buf : List UInt8}

theorem Fed.refl (h : x.1.Reads fromSlice k x.2) (ht : x.1.tasks[k]? = some task) :
    Fed fromSlice k x [] task x :=
  ⟨⟨[], rfl, rfl⟩, by simp, h, ht⟩

theorem Fed.trans {task' : RunStream} (h : Fed fromSlice k x replies task y)
    (h' : Fed fromSlice k y replies' task' z) : Fed fromSlice k x (replies ++ replies') task' z := by
  obtain ⟨as, has, hreplies⟩ := h.run
  obtain ⟨bs, hbs, hreplies'⟩ := h'.run
  refine ⟨⟨as ++ bs, ?_, ?_⟩, ?_, h'.reads, h'.task⟩
  · rw [Machine.run_append has, hbs]
  · rw [List.filterMap_append, hreplies, hreplies']
  · rw [h'.bytes, h.bytes, List.flatMap_append, List.append_assoc]

/-- One step is one reply to the task. -/
theorem Fed.single {a : PeerStreamsAction} (h : x.1.Reads fromSlice k x.2)
    (hs : x.1.step fromSlice a = some s') (ht : s'.tasks[k]? = some task) :
    Fed fromSlice k x (replyFor k a).toList task (s', x.2 ++ bytesFor k a) := by
  have hstep : (reading fromSlice k).step x a = some (s', x.2 ++ bytesFor k a) :=
    Machine.step_withHistory.mpr ⟨hs, rfl⟩
  refine ⟨⟨[a], Machine.run_cons.mpr ⟨_, hstep, rfl⟩, ?_⟩, ?_, h.step hs, ht⟩
  · cases hr : replyFor k a <;> simp [hr]
  · cases a with
    | resume j reply =>
      simp only [bytesFor, replyFor]
      split <;> simp
    | subscribe peer topic senders => simp [bytesFor, replyFor]
    | unsubscribe peer topic => simp [bytesFor, replyFor]
    | takeLine j => simp [bytesFor, replyFor]
    | cancelled j => simp [bytesFor, replyFor]

/-- A live task can be set to any state. -/
theorem Consistent.exists_setTask (h : s.Consistent) {before : RunStream}
    (ht : s.tasks[k]? = some before) (hlive : before ≠ .returned) (task : RunStream) :
    ∃ s', s.setTask k task = some s' ∧ s'.tasks[k]? = some task := by
  have hlt := (List.getElem?_eq_some_iff.mp ht).1
  obtain ⟨u, hu⟩ := h.exists_upstream ht
  have hrun : u.running = true := (h.matched.returned k u before hu ht).mpr hlive
  cases task with
  | request => exact ⟨_, rfl, List.getElem?_set_self hlt⟩
  | body buf => exact ⟨_, rfl, List.getElem?_set_self hlt⟩
  | returned =>
    simp only [setTask, PeerStreamHub.step, hu, if_pos hrun, Option.map_some]
    exact ⟨_, rfl, List.getElem?_set_self hlt⟩

theorem Consistent.exists_resume (h : s.Consistent) {before : RunStream} {reply : PeerReply}
    (ht : s.tasks[k]? = some before) (hr : before.resume reply = some task) :
    ∃ s', s.step fromSlice (.resume k reply) = some s' ∧ s'.tasks[k]? = some task := by
  have hlive : before ≠ .returned := by
    rintro rfl
    cases hr
  obtain ⟨s', hs, ht'⟩ := h.exists_setTask ht hlive task
  refine ⟨s', ?_, ht'⟩
  simp only [PeerStreams.step, ht, Option.bind_some, hr, hs]

/-- A task with a whole line in its buffer can take it. -/
theorem Consistent.exists_takeLine (h : s.Consistent) {line rest : List UInt8}
    (ht : s.tasks[k]? = some (.body buf)) (hnext : RunStream.nextLine buf = some (line, rest)) :
    ∃ s', s.step fromSlice (.takeLine k) = some s' ∧ s'.tasks[k]? = some (.body rest) := by
  have hlt := (List.getElem?_eq_some_iff.mp ht).1
  obtain ⟨u, hu⟩ := h.exists_upstream ht
  have hrun : u.running = true := (h.matched.returned k u _ hu ht).mpr (by simp)
  simp only [PeerStreams.step, ht, Option.bind_some, RunStream.takeLine, hnext, Option.map_some]
  cases fromSlice line with
  | none => exact ⟨_, rfl, List.getElem?_set_self hlt⟩
  | some v =>
    simp only [PeerStreamHub.step, hu, if_pos hrun, Option.map_some]
    exact ⟨_, rfl, List.getElem?_set_self hlt⟩

/-- The inner loop: the task takes all lines off its buffer. -/
theorem Reads.drain (h : x.1.Reads fromSlice k x.2) (ht : x.1.tasks[k]? = some (.body buf)) :
    ∃ y buf', Fed fromSlice k x [] (.body buf') y ∧ RunStream.nextLine buf' = none := by
  induction hn : buf.length using Nat.strong_induction_on generalizing x buf with
  | h n ih =>
    cases hnext : RunStream.nextLine buf with
    | none => exact ⟨x, buf, .refl h ht, hnext⟩
    | some pair =>
      obtain ⟨line, rest⟩ := pair
      have hshorter : rest.length < n := by
        rw [← hn, (RunStream.nextLine_eq_some hnext).2, List.length_append, List.length_cons]
        omega
      obtain ⟨s', hs, ht'⟩ := h.consistent.exists_takeLine ht hnext
      have hfirst := Fed.single h hs ht'
      obtain ⟨y, buf', hrest, hnone⟩ := ih rest.length hshorter hfirst.reads ht' rfl
      exact ⟨y, buf', hfirst.trans hrest, hnone⟩

/-- The next reply of the connection, once the buffer has no line left. -/
theorem Reads.reply (h : x.1.Reads fromSlice k x.2) {before : RunStream} {reply : PeerReply}
    (ht : x.1.tasks[k]? = some before) (hr : before.resume reply = some task) :
    ∃ y, Fed fromSlice k x [reply] task y := by
  obtain ⟨s', hs, ht'⟩ := h.consistent.exists_resume ht hr
  have hfed := Fed.single h hs ht'
  simp only [replyFor, if_true, Option.toList_some] at hfed
  exact ⟨_, hfed⟩

/-- Whatever the frames, the task gets them one after the other. -/
theorem Reads.frames {frames : List PeerReply} (hframes : ∀ f ∈ frames, f.isFrame = true) :
    ∀ {x buf}, x.1.Reads fromSlice k x.2 → x.1.tasks[k]? = some (.body buf) →
      ∃ y buf', Fed fromSlice k x frames (.body buf') y ∧ RunStream.nextLine buf' = none := by
  -- on the frames
  induction frames with
  | nil => exact fun h ht => h.drain ht
  | cons frame frames ih =>
    intro x buf h ht
    obtain ⟨y, buf', hdrain, hnone⟩ := h.drain ht
    -- a frame lets the body go on
    have hresume : ∃ more, (RunStream.body buf').resume frame = some (.body more) := by
      have hframe := hframes frame List.mem_cons_self
      cases frame with
      | data bytes => exact ⟨buf' ++ bytes, by simp [RunStream.resume, hnone]⟩
      | trailers => exact ⟨buf', by simp [RunStream.resume, hnone]⟩
      | requestFailed => cases hframe
      | response status => cases hframe
      | bodyError => cases hframe
      | endOfBody => cases hframe
    obtain ⟨more, hresume⟩ := hresume
    obtain ⟨z, hz⟩ := hdrain.reads.reply hdrain.task hresume
    obtain ⟨w, rest, hw, hnone'⟩ :=
      ih (fun f hf => hframes f (List.mem_cons_of_mem _ hf)) hz.reads hz.task
    exact ⟨w, rest, (hdrain.trans hz).trans hw, hnone'⟩

/-- **The reader does not see how the bytes are cut.**  At every time the upstream has broadcast a
prefix of the values of the lines that came, and at an await or after its end all of them.  In the
body it takes any frames, and their end or an error, and returns. -/
theorem run_stream_broadcasts {sent : List Json} (h : (reading fromSlice k).Reachable x)
    (ht : x.1.tasks[k]? = some task) (hsent : x.1.hub.sentOn k = some sent) :
    sent <+: lineValues fromSlice x.2 ∧
    (task.awaiting = true ∨ task = .returned → sent = lineValues fromSlice x.2) ∧
    ∀ buf frames last, task = .body buf → (∀ f ∈ frames, f.isFrame = true) →
      last = .bodyError ∨ last = .endOfBody →
      ∃ as y, (reading fromSlice k).run x as = some y ∧
        as.filterMap (replyFor k) = frames ++ [last] ∧ y.1.tasks[k]? = some .returned ∧
        y.1.hub.sentOn k = some (lineValues fromSlice (x.2 ++ frames.flatMap PeerReply.bytes)) := by
  have hreads := reads_of_reachable h
  have hacc := hreads.task task sent ht hsent
  -- what was sent is what the lines say; the rest runs the task to its end
  refine ⟨hacc.isPrefix, hacc.at_rest, ?_⟩
  rintro buf frames last rfl hframes hlast
  -- the frames are fed, and then the last reply ends the task
  obtain ⟨y, buf', hy, hnone⟩ := hreads.frames hframes ht
  have hresume : (RunStream.body buf').resume last = some .returned := by
    rcases hlast with rfl | rfl <;> simp [RunStream.resume, hnone]
  obtain ⟨z, hz⟩ := hy.reads.reply hy.task hresume
  have hall := hy.trans hz
  obtain ⟨as, has, hreplies⟩ := hall.run
  -- the upstream of task `k` has sent it all
  obtain ⟨u, hu⟩ := hall.reads.consistent.exists_upstream hall.task
  have hsent' : z.1.hub.sentOn k = some u.channel.sent := by simp [PeerStreamHub.sentOn, hu]
  have hrest := (hall.reads.task _ _ hall.task hsent').at_rest (.inr rfl)
  refine ⟨as, z, has, hreplies, hall.task, ?_⟩
  rw [hsent', hrest, hall.bytes, List.flatMap_append, List.flatMap_singleton]
  rcases hlast with rfl | rfl <;> simp [PeerReply.bytes]

/-- A parser that knows `null` only. -/
def readsNull (line : List UInt8) : Option Json :=
  if line = [110, 117, 108, 108] then some .null else none

/-- The line `null` in two frames, with trailers between them and the start of another line. -/
def nullInTwo : List PeerStreamsAction :=
  [.subscribe "hub" "t" onePeer, .resume 0 (.response 200), .resume 0 (.data [110, 117]),
    .resume 0 .trailers, .resume 0 (.data [108, 108, 10, 110]), .takeLine 0]

/-- A value cut in two by its chunks is sent once it is complete. -/
theorem run_stream_broadcasts_null : ∃ x,
    (reading readsNull 0).run (reading readsNull 0).init nullInTwo = some x ∧
      [Json.null] = lineValues readsNull x.2 ∧
      ∃ as y, (reading readsNull 0).run x as = some y ∧
        as.filterMap (replyFor 0) = [.data [117], .endOfBody] ∧
        y.1.tasks[0]? = some .returned ∧
        y.1.hub.sentOn 0 = some (lineValues readsNull (x.2 ++ [117])) := by
  obtain ⟨x, hrun, ht, hsent⟩ : ∃ x,
      (reading readsNull 0).run (reading readsNull 0).init nullInTwo = some x ∧
        x.1.tasks[0]? = some (.body [110]) ∧ x.1.hub.sentOn 0 = some [.null] := ⟨_, rfl, rfl, rfl⟩
  obtain ⟨-, hrest, hfed⟩ := run_stream_broadcasts ⟨nullInTwo, hrun⟩ ht hsent
  refine ⟨x, hrun, hrest (.inl rfl), ?_⟩
  exact hfed [110] [.data [117]] .endOfBody rfl (by simp [PeerReply.isFrame]) (.inr rfl)

end PeerStreams

end Boardwalk
