import Boardwalk.Lib.Str
import Boardwalk.Peer.Capabilities

/-!
# Peer admission

The configured admissions of a gateway and the check of presented credentials against them.
-/

namespace Boardwalk

/-- `is_route_name_char`. -/
def isRouteNameChar (ch : Char) : Bool :=
  ch.isAlphanum || ch == '-' || ch == '.' || ch == '_' || ch == '~'

/-- A route name: not blank, and made of unreserved characters. -/
structure RouteName where
  asStr : String
  valid : (Str.trim asStr).isEmpty = false ∧ asStr.toList.all isRouteNameChar = true
  deriving DecidableEq

/-- `constant_time_eq`: the comparison that looks at all bytes. -/
def constantTimeEq (a b : List UInt8) : Bool :=
  if a.length ≠ b.length then false
  else (a.zip b).foldl (fun diff xy => diff ||| (xy.1 ^^^ xy.2)) 0 == 0

structure PeerTokenVerifier where
  secret : String
  deriving DecidableEq

/-- `PeerTokenVerifier::verify`. -/
def PeerTokenVerifier.verify (v : PeerTokenVerifier) (candidate : String) : Bool :=
  constantTimeEq v.secret.toUTF8.data.toList candidate.toUTF8.data.toList

structure PeerAdmissionConfig where
  allowedRouteName : RouteName
  tokenId : String
  tokenVerifier : PeerTokenVerifier
  expectedNodeId : Option String
  allowedCapabilities : PeerCapabilities
  deriving DecidableEq

/-- `verified_admissions`: the configurations of the token id whose secret is the bearer's. -/
def verifiedAdmissions (admissions : List PeerAdmissionConfig) (tokenId bearer : String) :
    Except String (List PeerAdmissionConfig) :=
  let tokenMatches := admissions.filter fun config => config.tokenId == tokenId
  if tokenMatches.isEmpty then .error "unknown peer token id"
  else
    let verified := tokenMatches.filter fun config => config.tokenVerifier.verify bearer
    if verified.isEmpty then .error "invalid bearer token" else .ok verified

end Boardwalk
