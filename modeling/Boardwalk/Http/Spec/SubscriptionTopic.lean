import Boardwalk.Events.Spec.Filter
import Boardwalk.Http.Links
import Boardwalk.Http.Spec.StreamLink

/-!
# What a subscription topic selects

The link builder joins node, kind, id and stream with slashes and inserts them as they are, and the
server reads the text as a pattern.  The pattern selects the stream and no other one when what
follows its first `?` is a filter, its parts take the parts of the stream's own topic, and none of
them takes two texts; or when it has too many parts for any topic of four names
(`selectsOnly_iff`).
-/

namespace Boardwalk

variable {ρ : Type} {ops : TopicOps ρ}

open TopicPattern

/-! ### Topics of four names -/

/-- The names that the topic of an envelope is made of. -/
def EventEnvelope.names {δ : Type} (e : EventEnvelope δ) : List String :=
  [e.nodeId.raw, e.resourceKind, e.resourceId, e.stream]

/-- The names that the topic of a subscription is made of. -/
def ResourceRef.names (r : ResourceRef) (stream : String) : List String :=
  [r.node, r.kind, r.resourceId, stream]

/-- The URL of the stream has a topic that parses as a pattern, which matches the envelopes of the
stream and no envelope with other names in which there is no slash. -/
def SelectsOnly (ops : TopicOps ρ) (r : ResourceRef) (stream : String) : Prop :=
  ∃ p, parse ops (SubscriptionUrl.forResourceRef r stream).topic = .ok p ∧
    (∀ e : EventEnvelope Json, e.names = r.names stream → p.matchesTopic ops e.topic = true) ∧
    ∀ e : EventEnvelope Json, (∀ name ∈ e.names, '/' ∉ name.toList) → e.names ≠ r.names stream →
      p.matchesTopic ops e.topic = false

/-- A part of a pattern that takes no two texts. -/
def AcceptsOne (ops : TopicOps ρ) (part : String) : Prop :=
  ∀ x y : String, '/' ∉ x.toList → '/' ∉ y.toList → PartTakes ops part [x] →
    PartTakes ops part [y] → x = y

/-- What the text of a topic has to be for the pattern to select what it was built for. -/
def TopicSelects (ops : TopicOps ρ) (topic : String) : Prop :=
  (∃ filter, parseSuffix ops (splitSuffix topic).2 = .ok filter) ∧
    Cut (PartTakes ops) (Str.split '/' (splitSuffix topic).1) (Str.split '/' topic) ∧
    (4 < (Str.split '/' (splitSuffix topic).1).length ∨
      ∀ part ∈ Str.split '/' (splitSuffix topic).1, AcceptsOne ops part)

theorem topic_eq_of_names {e : EventEnvelope Json} {r : ResourceRef} {stream : String}
    (h : e.names = r.names stream) : e.topic = r.topic stream := by
  simp only [EventEnvelope.names, ResourceRef.names, List.cons.injEq] at h
  obtain ⟨hnode, hkind, hid, hstream, -⟩ := h
  unfold EventEnvelope.topic ResourceRef.topic
  rw [hnode, hkind, hid, hstream]

/-- Names without slashes are the parts of the topic. -/
theorem split_topic {e : EventEnvelope Json} (h : ∀ name ∈ e.names, '/' ∉ name.toList) :
    Str.split '/' e.topic = e.names := by
  have hone : ∀ name ∈ e.names, Str.split '/' name = [name] :=
    fun name hname => Str.split_of_not_mem (h name hname)
  simp only [EventEnvelope.names, List.forall_mem_cons] at hone
  obtain ⟨hnode, hkind, hid, hstream, -⟩ := hone
  unfold EventEnvelope.topic
  rw [split_address, hnode, hkind, hid, hstream]
  rfl

/-- Any four names are those of an envelope. -/
theorem exists_names {xs : List String} (h : xs.length = 4) :
    ∃ e : EventEnvelope Json, e.names = xs := by
  obtain ⟨node, kind, id, stream, rfl⟩ : ∃ a b c d, xs = [a, b, c, d] := by
    rcases xs with _ | ⟨a, _ | ⟨b, _ | ⟨c, _ | ⟨d, _ | ⟨x, xs⟩⟩⟩⟩⟩
    · simp at h
    · simp at h
    · simp at h
    · simp at h
    · exact ⟨a, b, c, d, rfl⟩
    · simp at h
  refine ⟨{
    eventId := ⟨""⟩
    nodeId := ⟨node⟩
    resourceId := id
    resourceKind := kind
    streamId := ⟨""⟩
    stream := stream
    sequence := 0
    payloadKind := ""
    data := .null }, rfl⟩

theorem four_le_length_split_topic (r : ResourceRef) (stream : String) :
    4 ≤ (Str.split '/' (r.topic stream)).length := by
  have hpos : ∀ s, 0 < (Str.split '/' s).length := fun s =>
    List.length_pos_iff.mpr (Str.split_ne_nil '/' s)
  have hnode := hpos r.node
  have hkind := hpos r.kind
  have hid := hpos r.resourceId
  have hstream := hpos stream
  unfold ResourceRef.topic
  rw [split_address, List.length_append, List.length_append, List.length_append]
  omega

/-! ### Parts that take two texts -/

/-- A part of a pattern takes at least one part of a topic. -/
theorem partTakes_ne_nil (part : String) (g : List String) (h : PartTakes ops part g) : g ≠ [] := by
  unfold PartTakes at h
  split at h
  · obtain ⟨x, rfl⟩ := h
    simp
  · split at h
    · exact h
    · split at h
      · obtain ⟨re, -, x, rfl, -⟩ := h
        simp
      · rw [h]
        simp

/-- Only `**` takes two parts. -/
theorem eq_multiWild_of_partTakes {part : String} {g : List String} (h : PartTakes ops part g)
    (hlong : 2 ≤ g.length) : part = "**" := by
  unfold PartTakes at h
  split at h
  · obtain ⟨x, rfl⟩ := h
    simp at hlong
  · split at h
    · assumption
    · split at h
      · obtain ⟨re, -, x, rfl, -⟩ := h
        simp at hlong
      · rw [h] at hlong
        simp at hlong

theorem partTakes_multiWild {g : List String} : PartTakes ops "**" g ↔ g ≠ [] := by
  simp [PartTakes]

/-- Every part of a pattern that matches a topic takes some part of its own, without a slash. -/
theorem exists_single {pattern : List String} {topic : String}
    (h : Cut (PartTakes ops) pattern (Str.split '/' topic)) :
    ∀ part ∈ pattern, ∃ x : String, '/' ∉ x.toList ∧ PartTakes ops part [x] := by
  intro part hpart
  obtain ⟨g, hg, hmem⟩ := h.exists_group hpart
  by_cases hlong : 2 ≤ g.length
  · rw [eq_multiWild_of_partTakes hg hlong]
    exact ⟨"", by simp, partTakes_multiWild.mpr (by simp)⟩
  · have hpos := List.length_pos_iff.mpr (partTakes_ne_nil part g hg)
    obtain ⟨x, rfl⟩ := List.length_eq_one_iff.mp (show g.length = 1 by omega)
    exact ⟨x, Str.not_mem_of_mem_split (hmem x List.mem_cons_self), hg⟩

/-- A text for each part of a pattern. -/
theorem exists_singles {pattern : List String}
    (h : ∀ part ∈ pattern, ∃ x : String, '/' ∉ x.toList ∧ PartTakes ops part [x]) :
    ∃ xs : List String, xs.length = pattern.length ∧ (∀ x ∈ xs, '/' ∉ x.toList) ∧
      Cut (PartTakes ops) pattern xs := by
  induction pattern with
  | nil => exact ⟨[], rfl, by simp, cut_nil_iff.mpr rfl⟩
  | cons part pattern ih =>
    rw [List.forall_mem_cons] at h
    obtain ⟨x, hx, htakes⟩ := h.1
    obtain ⟨xs, hlen, hxs, hcut⟩ := ih h.2
    refine ⟨x :: xs, by rw [List.length_cons, List.length_cons, hlen], ?_,
      cut_cons_iff.mpr ⟨[x], xs, rfl, htakes, hcut⟩⟩
    rw [List.forall_mem_cons]
    exact ⟨hx, hxs⟩

/-- Texts for the other parts of a pattern, around what one part takes. -/
theorem exists_around {pattern : List String}
    (h : ∀ part ∈ pattern, ∃ x : String, '/' ∉ x.toList ∧ PartTakes ops part [x]) {part : String}
    (hpart : part ∈ pattern) :
    ∃ before after : List String, before.length + 1 + after.length = pattern.length ∧
      (∀ x ∈ before ++ after, '/' ∉ x.toList) ∧
      ∀ g, PartTakes ops part g → Cut (PartTakes ops) pattern (before ++ (g ++ after)) := by
  obtain ⟨l, r, rfl⟩ := List.append_of_mem hpart
  obtain ⟨before, hlbefore, hbefore, hcutbefore⟩ :=
    exists_singles fun part hp => h part (List.mem_append_left _ hp)
  obtain ⟨after, hlafter, hafter, hcutafter⟩ :=
    exists_singles fun part hp => h part (List.mem_append_right _ (List.mem_cons_of_mem _ hp))
  refine ⟨before, after, ?_, ?_, ?_⟩
  · rw [List.length_append, List.length_cons]
    omega
  · intro x hx
    rcases List.mem_append.mp hx with hx | hx
    · exact hbefore x hx
    · exact hafter x hx
  · intro g hg
    exact hcutbefore.append (cut_cons_iff.mpr ⟨g, after, rfl, hg, hcutafter⟩)

/-- A part that stands for any number of parts takes two texts. -/
theorem not_acceptsOne_multiWild : ¬ AcceptsOne ops "**" := by
  intro h
  have heq := h "" "a" (by simp) (by simp) (partTakes_multiWild.mpr (by simp))
    (partTakes_multiWild.mpr (by simp))
  simp at heq

/-! ### One topic only -/

section Unique

variable {pattern own : List String} {topic : String}

/-- A pattern whose parts take one text each has as many parts as the topics it matches. -/
theorem length_le_of_acceptsOne (hcut : Cut (PartTakes ops) pattern (Str.split '/' topic))
    (hone : ∀ part ∈ pattern, AcceptsOne ops part) :
    (Str.split '/' topic).length ≤ pattern.length := by
  by_contra hlen
  obtain ⟨part, hpart, g, hg, hlong⟩ := hcut.exists_long (Nat.lt_of_not_le hlen)
  rw [eq_multiWild_of_partTakes hg hlong] at hpart
  exact not_acceptsOne_multiWild (hone _ hpart)

/-- Parts that take one text each take one list of texts. -/
theorem eq_of_acceptsOne (hone : ∀ part ∈ pattern, AcceptsOne ops part) {xs ys : List String}
    (hx : ∀ x ∈ xs, '/' ∉ x.toList) (hy : ∀ y ∈ ys, '/' ∉ y.toList)
    (hxs : List.Forall₂ (fun part x => PartTakes ops part [x]) pattern xs)
    (hys : List.Forall₂ (fun part y => PartTakes ops part [y]) pattern ys) : xs = ys := by
  induction hxs generalizing ys with
  | nil =>
    cases hys
    rfl
  | @cons part x pattern xs htakes _ ih =>
    cases hys with
    | @cons _ y _ ys htakes' hys =>
      rw [List.forall_mem_cons] at hone hx hy
      rw [hone.1 x y hx.1 hy.1 htakes htakes', ih hone.2 hx.2 hy.2 hys]

/-- A pattern with a part that takes two texts matches two topics of four names. -/
theorem acceptsOne_of_unique (hcut : Cut (PartTakes ops) pattern (Str.split '/' topic))
    (htopic : 4 ≤ (Str.split '/' topic).length) (hlen : pattern.length ≤ 4)
    (hunique : ∀ xs : List String, xs.length = 4 → (∀ x ∈ xs, '/' ∉ x.toList) →
      Cut (PartTakes ops) pattern xs → xs = own) :
    ∀ part ∈ pattern, AcceptsOne ops part := by
  have hsingle := exists_single hcut
  -- two groups of one length for one part give two topics, which are equal
  have hgroups : ∀ part ∈ pattern, ∀ x y : String, ∀ g : List String, '/' ∉ x.toList →
      '/' ∉ y.toList → (∀ z ∈ g, '/' ∉ z.toList) → pattern.length + g.length = 4 →
      PartTakes ops part (x :: g) → PartTakes ops part (y :: g) → x = y := by
    intro part hpart x y g hx hy hg hlen hxtakes hytakes
    obtain ⟨before, after, hsum, haround, hcuts⟩ := exists_around hsingle hpart
    have hown : ∀ z : String, '/' ∉ z.toList → PartTakes ops part (z :: g) →
        before ++ (z :: g ++ after) = own := by
      intro z hz htakes
      refine hunique _ ?_ ?_ (hcuts _ htakes)
      · simp only [List.length_append, List.length_cons]
        omega
      · intro w hw
        simp only [List.mem_append, List.mem_cons] at hw
        rcases hw with hw | (rfl | hw) | hw
        · exact haround w (List.mem_append_left _ hw)
        · exact hz
        · exact hg w hw
        · exact haround w (List.mem_append_right _ hw)
    have heq := (hown x hx hxtakes).trans (hown y hy hytakes).symm
    rw [List.append_cancel_left_eq] at heq
    exact (List.cons.inj heq).1
  have hfour : pattern.length = 4 := by
    by_contra hne
    obtain ⟨part, hpart, g, hg, hlong⟩ := hcut.exists_long (show _ < _ by omega)
    rw [eq_multiWild_of_partTakes hg hlong] at hpart
    have heq := hgroups "**" hpart "" "a" (List.replicate (4 - pattern.length) "") (by simp)
      (by simp) (by simp) (by rw [List.length_replicate]; omega)
      (partTakes_multiWild.mpr (by simp)) (partTakes_multiWild.mpr (by simp))
    simp at heq
  intro part hpart x y hx hy hxtakes hytakes
  exact hgroups part hpart x y [] hx hy (by simp) (by rw [hfour]; rfl) hxtakes hytakes

end Unique

/-- The topic of four names without slashes has them as its parts, and no other topic has four
parts. -/
theorem split_topic_of_length {r : ResourceRef} {stream : String}
    (h : (Str.split '/' (r.topic stream)).length = 4) :
    Str.split '/' (r.topic stream) = r.names stream := by
  have hpos : ∀ s, 0 < (Str.split '/' s).length := fun s =>
    List.length_pos_iff.mpr (Str.split_ne_nil '/' s)
  have hone : ∀ s, (Str.split '/' s).length = 1 → Str.split '/' s = [s] := by
    intro s hs
    obtain ⟨part, hpart⟩ := List.length_eq_one_iff.mp hs
    rw [hpart, (Str.split_eq_singleton_iff.mp hpart).1]
  have hnode := hpos r.node
  have hkind := hpos r.kind
  have hid := hpos r.resourceId
  have hstream := hpos stream
  unfold ResourceRef.topic at h ⊢
  rw [split_address] at h ⊢
  simp only [List.length_append] at h
  rw [hone r.node (by omega), hone r.kind (by omega), hone r.resourceId (by omega),
    hone stream (by omega)]
  rfl

/-- **When a subscription topic selects its stream only.** -/
theorem selectsOnly_iff (ops : TopicOps ρ) (r : ResourceRef) (stream : String) :
    SelectsOnly ops r stream ↔ TopicSelects ops (r.topic stream) := by
  have hne : r.topic stream ≠ "" := by
    intro h
    have hlen := congrArg String.length h
    simp [ResourceRef.topic, String.length_append] at hlen
  have hfour := four_le_length_split_topic r stream
  -- the resource's own envelope has the four names of its address
  obtain ⟨own, hown⟩ := exists_names (show (r.names stream).length = 4 from rfl)
  have htopic : own.topic = r.topic stream := topic_eq_of_names hown
  constructor
  · -- its own topic is matched, and no other topic of four names
    rintro ⟨p, hparse, hmatch, hother⟩
    have hself := hmatch own hown
    rw [htopic] at hself
    obtain ⟨-, hfilter, hcut⟩ := parse_and_match_iff.mp ⟨p, hparse, hself⟩
    refine ⟨hfilter, hcut, ?_⟩
    -- with more than four parts the pattern fits no other topic of four names
    by_cases hlong : 4 < (Str.split '/' (splitSuffix (r.topic stream)).1).length
    · exact .inl hlong
    · right
      -- with four parts any other cut would be matched too
      have hunique : ∀ xs : List String, xs.length = 4 → (∀ x ∈ xs, '/' ∉ x.toList) →
          Cut (PartTakes ops) (Str.split '/' (splitSuffix (r.topic stream)).1) xs →
            xs = r.names stream := by
        intro xs hlen hxs hcut'
        obtain ⟨e, rfl⟩ := exists_names hlen
        by_contra hnames
        have hno := hother e hxs hnames
        obtain ⟨-, -, hsegs, -⟩ := parse_eq_ok_iff.mp hparse
        have hyes : p.matchesTopic ops e.topic = true := by
          refine (matchesAt_iff_cut _ _).mpr ((cut_of_parseSegments hsegs _).mp ?_)
          rw [split_topic hxs]
          exact hcut'
        exact Bool.false_ne_true (hno.symm.trans hyes)
      exact acceptsOne_of_unique hcut hfour (Nat.le_of_not_lt hlong) hunique
  · -- conversely: the cut matches the own topic
    rintro ⟨hfilter, hcut, hshape⟩
    obtain ⟨p, hparse, hself⟩ := parse_and_match_iff.mpr ⟨hne, hfilter, hcut⟩
    refine ⟨p, hparse, ?_, ?_⟩
    · intro e he
      rw [topic_eq_of_names he]
      exact hself
    · intro e hslash hnames
      rw [Bool.eq_false_iff]
      intro hmatch
      obtain ⟨-, -, hcut'⟩ := parse_and_match_iff.mp ⟨p, hparse, hmatch⟩
      rw [split_topic hslash] at hcut'
      have hle := hcut'.length_le partTakes_ne_nil
      have hlen : e.names.length = 4 := rfl
      -- more than four parts cannot be cut into four names, and four take only their own
      rcases hshape with hlong | hone
      · have hlong' : 4 < (Str.split '/' (splitSuffix (r.topic stream)).1).length := hlong
        omega
      · have hge := length_le_of_acceptsOne hcut hone
        have hsame : Str.split '/' (r.topic stream) = r.names stream :=
          split_topic_of_length (by omega)
        apply hnames
        rw [← hsame]
        exact eq_of_acceptsOne hone hslash (fun y hy => Str.not_mem_of_mem_split hy)
          (hcut'.forall₂_of_length_le partTakes_ne_nil (by omega))
          (hcut.forall₂_of_length_le partTakes_ne_nil (by omega))

/-- An identifier that is a wildcard selects other streams too, and one with a `?` makes a topic
that does not parse. -/
theorem selectsOnly_fails : ¬ SelectsOnly .plain ⟨"hub", "led", "*"⟩ "state" ∧
    ¬ SelectsOnly .plain ⟨"hub", "led", "a?b"⟩ "state" := by
  -- a glob in the id selects more than the resource; a `?` cuts the id
  constructor
  · rintro ⟨p, hparse, -, hother⟩
    obtain ⟨p', hparse', hmatch⟩ := parse_of_check .plain "hub/led/*/state"
      (fun p => p.matchesTopic .plain "hub/led/abc/state") (by decide)
    have htopic : (SubscriptionUrl.forResourceRef ⟨"hub", "led", "*"⟩ "state").topic =
        "hub/led/*/state" := by
      decide
    rw [htopic, hparse', Except.ok.injEq] at hparse
    subst hparse
    obtain ⟨e, he⟩ := exists_names (show ["hub", "led", "abc", "state"].length = 4 from rfl)
    have hno := hother e (by rw [he]; decide) (by rw [he]; decide)
    have htopic' : e.topic = "hub/led/abc/state" := by
      have hr : e.topic = ResourceRef.topic ⟨"hub", "led", "abc"⟩ "state" := topic_eq_of_names he
      rw [hr]
      decide
    rw [htopic', hmatch] at hno
    cases hno
  · rintro ⟨p, hparse, -, -⟩
    have htopic : (SubscriptionUrl.forResourceRef ⟨"hub", "led", "a?b"⟩ "state").topic =
        "hub/led/a?b/state" := by
      decide
    have hsuffix : (splitSuffix "hub/led/a?b/state").2 = some "b/state" := by decide
    have hnone : (plainUrlencoded "b/state").find? (fun kv => kv.1 == "ql") = none := by
      decide
    obtain ⟨-, hfilter, -, -⟩ := parse_eq_ok_iff.mp hparse
    rw [htopic, hsuffix] at hfilter
    simp only [parseSuffix, parseFilter, TopicOps.plain, hnone] at hfilter
    cases hfilter

end Boardwalk
