import Boardwalk.Lib.Str

/-!
# Header maps and requests

`http::HeaderMap` as the handlers read it: values are bytes that need not be text, names are lower
case, and a name may occur several times.  `HttpRequest` is a request as the source builds one, most
of all the requests that go to a peer through its tunnel.
-/

namespace Boardwalk

namespace HeaderValue

/-- The bytes a header value may hold. -/
def isValidByte (b : UInt8) : Bool := (32 ≤ b && b ≠ 127) || b == 9

/-- The bytes `HeaderValue::to_str` accepts. -/
def isVisibleAscii (b : UInt8) : Bool := (32 ≤ b && b < 127) || b == 9

end HeaderValue

/-- A header value: bytes without control characters. -/
structure HeaderValue where
  bytes : List UInt8
  valid : bytes.all HeaderValue.isValidByte = true
  deriving DecidableEq

/-- `HeaderValue::from_str`. -/
def HeaderValue.fromStr (s : String) : Option HeaderValue :=
  if h : s.toUTF8.data.toList.all isValidByte = true then some ⟨s.toUTF8.data.toList, h⟩ else none

/-- `HeaderValue::to_str`. -/
def HeaderValue.toStr (v : HeaderValue) : Option String :=
  if v.bytes.all isVisibleAscii then
    some (String.ofList (v.bytes.map fun b => Char.ofNat b.toNat))
  else none

/-- The headers of a request, in the order they were added. -/
abbrev HeaderMap := List (String × HeaderValue)

/-- `HeaderMap::get`: the first value of a name. -/
def HeaderMap.get (headers : HeaderMap) (name : String) : Option HeaderValue :=
  (headers.find? fun h => h.1 = name).map Prod.snd

/-- `optional_header`. -/
def optionalHeader (headers : HeaderMap) (name : String) : Option String :=
  ((headers.get name).bind HeaderValue.toStr).filter fun value => !(Str.trim value).isEmpty

/-- `http::header::AUTHORIZATION`. -/
def AUTHORIZATION : String := "authorization"

/-- `bearer_token`. -/
def bearerToken (headers : HeaderMap) : Option String :=
  (((headers.get AUTHORIZATION).bind HeaderValue.toStr).bind (Str.stripPrefix "Bearer ")).filter
    fun token => !(Str.trim token).isEmpty

/-! ### Requests -/

/-- What `http::request::Builder` decides and the source does not: which texts are URIs, and whether
a header map can take another entry. -/
structure HttpOps where
  parsesUri : String → Bool
  hasRoom : HeaderMap → String → Bool

/-- Takes every text for a URI and every entry for a header map. -/
def lenientOps : HttpOps := ⟨fun _ => true, fun _ _ => true⟩

/-- `http::Request`, with the body of the source's. -/
structure HttpRequest (β : Type) where
  method : String
  uri : String
  headers : HeaderMap
  body : β

/-- The host under which a peer is reached through its tunnel. -/
def tunnelHost (peerName : String) : String :=
  Str.percentEncode peerName ++ ".peer.boardwalk.invalid"

/-- `Request::builder().method("GET").uri(..).body(..).expect("request")`.  No result is a panic. -/
def expectGet (ops : HttpOps) (target : String) : Option (HttpRequest Unit) :=
  if ops.parsesUri target then
    some { method := "GET", uri := target, headers := [], body := () }
  else none

end Boardwalk
