import Boardwalk.Http.ForwardRequest

/-!
# Request targets built from names

The URIs that the source assembles from the name of a peer, a topic or the values of a query, and
whose parse it unwraps: in `run_stream` of `http/peer_streams.rs` and in `peer_server_query_uri` of
`http/routes.rs`, as in `drive_acceptor` of `peer.rs` (`confirmationRequest`).  No result is a panic.
-/

namespace Boardwalk

/-- `QueryScope`. -/
inductive QueryScope where
  | «local»
  | peer (name : String)
  | federation (peers : List String) (includeLocal : Bool)
  deriving Repr, DecidableEq

/-- `query_scope_from_server`. -/
def queryScopeFromServer (server : Option String) : QueryScope :=
  match (server.map Str.trim).filter fun server => !server.isEmpty with
  | none => .local
  | some peer => if peer = "*" then .federation [] true else .peer peer

/-- The request that `run_stream` sends. -/
def streamRequest (ops : HttpOps) (peer topic : String) : Option (HttpRequest Unit) :=
  expectGet ops ("http://" ++ tunnelHost peer ++ "/servers/" ++ Str.percentEncode peer ++
    "/events?topic=" ++ Str.percentEncode topic)

/-- `Serializer::append_pair` of `form_urlencoded` on an empty serializer. -/
abbrev AppendPair := String → String → String

/-- What `peer_server_query_uri` appends to the path. -/
def qlSuffix (appendPair : AppendPair) : Option String → String
  | some ql => "?" ++ appendPair "ql" ql
  | none => ""

/-- `peer_server_query_uri`. -/
def peerServerQueryUri (ops : HttpOps) (appendPair : AppendPair) (peer : String)
    (ql : Option String) : Option Uri :=
  let path := "/servers/" ++ Str.percentEncode peer
  if ops.parsesUri (path ++ qlSuffix appendPair ql) then
    some { schemeStr := none, pathAndQuery := some (path ++ qlSuffix appendPair ql), path := path }
  else none

end Boardwalk
