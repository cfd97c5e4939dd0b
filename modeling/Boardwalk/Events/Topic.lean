import Boardwalk.Caql.Parse
import Boardwalk.Events.Bus
import Boardwalk.Query.Eval

/-!
# Topic patterns

`events/topic.rs`: the text of a subscription's topic is parsed into segments and an optional CaQL
filter, and a pattern is matched against the topic and the payload of an event.  The regular
expressions and the decoding of a query string come from other crates (`TopicOps`).
-/

namespace Boardwalk

/-- What `TopicPattern` takes from other crates; `ρ` is a compiled regular expression. -/
structure TopicOps (ρ : Type) where
  /-- `regex::Regex::new`, with the text of its error. -/
  regexNew : String → Except String ρ
  /-- `Regex::is_match`. -/
  isMatch : ρ → String → Bool
  /-- `url::form_urlencoded::parse`. -/
  formUrlencoded : String → List (String × String)

inductive TopicParseError where
  | empty
  | badRegex (index : ℕ) (source : String)
  | caql (err : QueryError)
  | missingQlParam (suffix : String)
  deriving Repr, DecidableEq

/-- The text of an error. -/
def TopicParseError.display : TopicParseError → String
  | empty => "empty topic"
  | badRegex index source =>
    "invalid regex segment at index " ++ toString index ++ ": " ++ source
  | caql err => "caql filter: " ++ err.display
  | missingQlParam suffix =>
    "topic suffix `?" ++ suffix ++ "` does not include a `ql=` parameter; " ++
      "the only filter parameter recognized today is `ql=<caql>`"

inductive Segment (ρ : Type) where
  | literal (s : String)
  /-- `*` matches one segment. -/
  | singleWild
  /-- `**` matches one or more segments. -/
  | multiWild
  /-- A regular expression in braces matches one segment. -/
  | regex (re : ρ)
  deriving Repr, DecidableEq

structure TopicPattern (ρ : Type) where
  segments : List (Segment ρ)
  filter : Option Query
  /-- The text the pattern was parsed from. -/
  raw : String

namespace TopicPattern

variable {ρ : Type} (ops : TopicOps ρ)

/-- The text between a pair of braces. -/
def bracedInner (seg : String) : Option String :=
  if seg.toList.head? = some '\x7b' ∧ seg.toList.getLast? = some '\x7d' ∧ 2 ≤ seg.utf8ByteSize then
    some (.ofList seg.toList.tail.dropLast)
  else none

/-- The segment a part of the path stands for. -/
def parseSegment (idx : ℕ) (seg : String) : Except TopicParseError (Segment ρ) :=
  if seg = "*" then .ok .singleWild
  else if seg = "**" then .ok .multiWild
  else match bracedInner seg with
    | some inner => match ops.regexNew inner with
      | .ok re => .ok (.regex re)
      | .error e => .error (.badRegex idx e)
    | none => .ok (.literal seg)

/-- The segments of a path, from the part of index `idx` on. -/
def parseSegments (idx : ℕ) : List String → Except TopicParseError (List (Segment ρ))
  | [] => .ok []
  | seg :: segs => do
    let s ← parseSegment ops idx seg
    return s :: (← parseSegments (idx + 1) segs)

/-- The filter of the part of a topic after its `?`: the first `ql` parameter. -/
def parseFilter (suffix : String) : Except TopicParseError Query :=
  match (ops.formUrlencoded suffix).find? fun kv => kv.1 == "ql" with
  | none => .error (.missingQlParam suffix)
  | some (_, v) => match Caql.parse v with
    | .ok q => .ok q
    | .error e => .error (.caql e)

/-- The filter of a topic, if it has one. -/
def parseSuffix : Option String → Except TopicParseError (Option Query)
  | none => .ok none
  | some suffix => (parseFilter ops suffix).map some

/-- The topic cut at its first `?`. -/
def splitSuffix (input : String) : String × Option String :=
  let path := input.toList.takeWhile (· ≠ '?')
  match input.toList.dropWhile (· ≠ '?') with
  | [] => (.ofList path, none)
  | _ :: suffix => (.ofList path, some (.ofList suffix))

/-- `TopicPattern::parse`. -/
def parse (input : String) : Except TopicParseError (TopicPattern ρ) :=
  if input = "" then .error .empty
  else do
    let filter ← parseSuffix ops (splitSuffix input).2
    let segments ← parseSegments ops 0 (Str.split '/' (splitSuffix input).1)
    return { segments, filter, raw := input }

/-- `matches_at`. -/
def matchesAt : List (Segment ρ) → List String → Bool
  | [], parts => parts.isEmpty
  | [.multiWild], parts => !parts.isEmpty
  | .multiWild :: pat, parts =>
    (List.range parts.length).any fun n => matchesAt pat (parts.drop (n + 1))
  | _ :: _, [] => false
  | .singleWild :: pat, _ :: parts => matchesAt pat parts
  | .literal s :: pat, part :: parts => part == s && matchesAt pat parts
  | .regex re :: pat, part :: parts => ops.isMatch re part && matchesAt pat parts

/-- `TopicPattern::matches_topic`. -/
def matchesTopic (p : TopicPattern ρ) (topic : String) : Bool :=
  matchesAt ops p.segments (Str.split '/' topic)

/-- `TopicPattern::matches_event`. -/
def matchesEvent (p : TopicPattern ρ) (topic : String) (payload : Json) : Bool :=
  p.matchesTopic ops topic && match p.filter with
    | none => true
    | some q => match q.matches payload with
      | .ok b => b
      | .error _ => false

/-- The bus of a server: its topics are patterns and its payloads JSON values. -/
def busOps {κ : Type} (extractKey : EventEnvelope Json → FieldPath → Option κ)
    (serializedSize : EventEnvelope Json → ℕ) : BusOps Json (TopicPattern ρ) κ where
  matchesEvent p topic payload := p.matchesEvent ops topic payload
  extractKey := extractKey
  serializedSize := serializedSize

end TopicPattern

/-! ### Patterns without regular expressions -/

/-- The parameters of a query string without percent escapes. -/
def plainUrlencoded (s : String) : List (String × String) :=
  ((Str.split '&' s).filter (· ≠ "")).map fun pair =>
    let text := pair.toList.map fun c => if c = '+' then ' ' else c
    (.ofList (text.takeWhile (· ≠ '=')), .ofList ((text.dropWhile (· ≠ '=')).drop 1))

/-- No regular expression compiles, and query strings have no escapes. -/
def TopicOps.plain : TopicOps Empty where
  regexNew _ := .error "unsupported"
  isMatch re _ := nomatch re
  formUrlencoded := plainUrlencoded

end Boardwalk
