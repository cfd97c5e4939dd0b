import Boardwalk.Http.Hrefs

/-!
# The URLs of links

The builders of `Hrefs` and the other links of `http/render.rs`.  All of them join a reference to
one of the two bases and unwrap the result; here no result is a panic.
-/

namespace Boardwalk

/-- What `url::Url` does for the builders. -/
structure UrlBuild (υ : Type) extends UrlOps υ where
  cannotBeABase : υ → Bool
  join : υ → String → Option υ
  /-- `query_pairs_mut().append_pair`. -/
  appendPair : υ → String → String → υ

namespace Render.Hrefs

variable {υ : Type} (ops : UrlBuild υ) (h : Hrefs υ)

def root : υ := h.http

def serverUrl : Option υ := ops.join h.http ("servers/" ++ Str.percentEncode h.server)

def resourcesUrl : Option υ := ops.join h.http "resources"

def resourceUrl (id : String) : Option υ := ops.join h.http ("resources/" ++ Str.percentEncode id)

def resourceTransitionUrl (id transition : String) : Option υ :=
  ops.join h.http
    ("resources/" ++ Str.percentEncode id ++ "/transitions/" ++ Str.percentEncode transition)

def metaUrl : Option υ := ops.join h.http "meta"

def metaTypeUrl (ty : String) : Option υ := ops.join h.http ("meta/" ++ Str.percentEncode ty)

def eventsUrl : Option υ := ops.join h.ws "events"

def streamUrl (ty id stream : String) : Option υ :=
  (ops.join h.ws "events").map fun u =>
    ops.appendPair u "topic" (h.server ++ "/" ++ ty ++ "/" ++ id ++ "/" ++ stream)

/-- The link of `render_root` to a peer. -/
def peerUrl (routeName : String) : Option υ :=
  ops.join h.http ("servers/" ++ Str.percentEncode routeName)

/-- The own link of `render_search_results`. -/
def searchUrl (ql : String) : Option υ :=
  (h.resourcesUrl ops).map fun u => ops.appendPair u "ql" ql

/-- The monitor link of `render_meta`. -/
def metaEventsUrl : Option υ := (h.eventsUrl ops).map fun u => ops.appendPair u "topic" "meta"

end Render.Hrefs

end Boardwalk
