import Boardwalk.Lib.Str
import Mathlib.Algebra.Group.Nat.Defs
import Mathlib.Tactic.Common

/-!
# Peer capabilities

The bit set of capability axes that a gateway and a hub negotiate, its text form, and the record of
an admitted connection that carries it.
-/

namespace Boardwalk

/-- A set of capability axes, one bit each. -/
structure PeerCapabilities where
  bits : UInt8
  deriving Repr, DecidableEq

namespace PeerCapabilities

def empty : PeerCapabilities := ⟨0⟩

def resourceRead : PeerCapabilities := ⟨(1 : UInt8) <<< 0⟩

def resourceQuery : PeerCapabilities := ⟨(1 : UInt8) <<< 1⟩

def streamSubscribeCapability : PeerCapabilities := ⟨(1 : UInt8) <<< 2⟩

def transitionInvoke : PeerCapabilities := ⟨(1 : UInt8) <<< 3⟩

def resourceRegister : PeerCapabilities := ⟨(1 : UInt8) <<< 4⟩

def peerAdmin : PeerCapabilities := ⟨(1 : UInt8) <<< 5⟩

/-- Whether all axes of `required` are in the set. -/
def contains (caps required : PeerCapabilities) : Bool :=
  caps.bits &&& required.bits == required.bits

def intersection (caps other : PeerCapabilities) : PeerCapabilities := ⟨caps.bits &&& other.bits⟩

def isEmpty (caps : PeerCapabilities) : Bool := caps.bits == 0

end PeerCapabilities

/-- One capability axis. -/
inductive PeerCapability where
  | resourceRead
  | resourceQuery
  | streamSubscribe
  | transitionInvoke
  | resourceRegister
  | peerAdmin
  deriving Repr, DecidableEq

/-- `CAPABILITY_AXES`: the bit of each axis, its variant and its name on the wire. -/
def CAPABILITY_AXES : List (UInt8 × PeerCapability × String) :=
  [(PeerCapabilities.resourceRead.bits, .resourceRead, "resource.read"),
    (PeerCapabilities.resourceQuery.bits, .resourceQuery, "resource.query"),
    (PeerCapabilities.streamSubscribeCapability.bits, .streamSubscribe, "stream.subscribe"),
    (PeerCapabilities.transitionInvoke.bits, .transitionInvoke, "transition.invoke"),
    (PeerCapabilities.resourceRegister.bits, .resourceRegister, "resource.register"),
    (PeerCapabilities.peerAdmin.bits, .peerAdmin, "peer.admin")]

/-- `PeerModelError`: the variant that parsing capabilities raises. -/
inductive PeerModelError where
  | unknownCapability (name : String)
  deriving Repr, DecidableEq

/-- The `Display` text of an error. -/
def PeerModelError.toText : PeerModelError → String
  | .unknownCapability name => "unknown peer capability `" ++ name ++ "`"

namespace PeerCapabilities

/-- `PeerCapabilities::all`. -/
def all : PeerCapabilities := ⟨CAPABILITY_AXES.foldl (fun bits axis => bits ||| axis.1) 0⟩

/-- One turn of the loop of `parse_list`: blank items are skipped. -/
def addNamed (caps : PeerCapabilities) (raw : String) : Except PeerModelError PeerCapabilities :=
  let name := Str.trim raw
  if name.isEmpty then .ok caps
  else
    match CAPABILITY_AXES.find? fun axis => axis.2.2 == name with
    | some axis => .ok ⟨caps.bits ||| axis.1⟩
    | none => .error (.unknownCapability name)

/-- `PeerCapabilities::parse_list`. -/
def parseList (input : String) : Except PeerModelError PeerCapabilities :=
  (Str.split ',' input).foldlM addNamed empty

/-- `PeerCapabilities::to_capabilities`. -/
def toCapabilities (caps : PeerCapabilities) : List PeerCapability :=
  CAPABILITY_AXES.filterMap fun axis => if caps.bits &&& axis.1 != 0 then some axis.2.1 else none

/-- `PeerCapabilities::names`. -/
def names (caps : PeerCapabilities) : List String :=
  CAPABILITY_AXES.filterMap fun axis => if caps.bits &&& axis.1 != 0 then some axis.2.2 else none

/-- The `Display` text of a set: its names, separated by commas. -/
def toText (caps : PeerCapabilities) : String := ",".intercalate caps.names

end PeerCapabilities

/-- A connection id: 128 bits. -/
abbrev Uuid := BitVec 128

namespace Uuid

/-- The 32 hexadecimal digits of an id. -/
def hexDigits (u : Uuid) : List Char :=
  (List.range 32).map fun i => Nat.digitChar (u.toNat / 16 ^ (31 - i) % 16)

/-- The text of an id: groups of 8, 4, 4, 4 and 12 digits. -/
def toText (u : Uuid) : String :=
  let group (start len : ℕ) := String.ofList ((u.hexDigits.drop start).take len)
  "-".intercalate [group 0 8, group 8 4, group 12 4, group 16 4, group 20 12]

end Uuid

/-- A connection that passed admission.  `connectionId` is chosen by the dialing peer. -/
structure AdmittedPeerConnection where
  routeName : String
  peerId : String
  tokenId : Option String
  connectionId : Uuid
  nodeId : Option String
  displayName : Option String
  allowedCapabilities : PeerCapabilities
  negotiatedCapabilities : PeerCapabilities
  deriving Repr, DecidableEq

/-- A connection admitted without a token: it negotiates all that it is allowed. -/
def AdmittedPeerConnection.unauthenticated (routeName : String) (connectionId : Uuid)
    (allowedCapabilities : PeerCapabilities) : AdmittedPeerConnection where
  routeName := routeName
  peerId := "peer-" ++ routeName
  tokenId := none
  connectionId := connectionId
  nodeId := none
  displayName := none
  allowedCapabilities := allowedCapabilities
  negotiatedCapabilities := allowedCapabilities

/-- A connection admitted under a token: it negotiates what it asked for, cut to what it is
allowed. -/
def AdmittedPeerConnection.tokenBound (routeName tokenId : String) (connectionId : Uuid)
    (nodeId : String) (displayName : Option String)
    (allowedCapabilities negotiatedCapabilities : PeerCapabilities) : AdmittedPeerConnection where
  routeName := routeName
  peerId := "peer-" ++ routeName ++ "-" ++ tokenId
  tokenId := some tokenId
  connectionId := connectionId
  nodeId := some nodeId
  displayName := displayName
  allowedCapabilities := allowedCapabilities
  negotiatedCapabilities := negotiatedCapabilities

end Boardwalk
