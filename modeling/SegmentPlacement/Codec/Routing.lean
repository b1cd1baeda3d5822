import SegmentPlacement.Json.Decoder
import SegmentPlacement.Routing.Selector

/-! The JSON forms of candidates and of the choices made among them. -/

namespace SegmentPlacement.Codec

open Json

def ofCandidate (candidate : Candidate) : Json :=
  .obj [("instance", .str candidate.server), ("online", .bool candidate.online),
    ("pool", ofNat candidate.pool)]

/-- A candidate without a pool is in pool 0. -/
def candidate? (value : Json) : Option Candidate := do
  let server ← (value.member? "instance").bind str?
  let online ← (value.member? "online").bind bool?
  let pool ← option? (word? 32) ((value.member? "pool").getD .null)
  return { server, online, pool := pool.getD 0 }

/-- The candidates of the given segments, null for a segment that has none. -/
def ofRoutingStates (states : RoutingStates) (segments : List String) : Json :=
  let ofCandidates (segment : String) : Json :=
    ofOption (fun found => .arr (found.map ofCandidate)) (states.candidatesOf? segment)
  .obj [("candidates", .obj (segments.map fun segment => (segment, ofCandidates segment))),
    ("unavailable", ofNameSet states.unavailable), ("numSegments", ofNat states.candidates.size),
    ("version", ofNat states.version)]

def ofSelection (selection : Selection) : List (String × Json) :=
  [("segments", ofMap .str selection.segments), ("optional", ofMap .str selection.optional),
    ("unavailable", ofStrings selection.unavailable), ("servers", ofNameSet selection.servers)]

end SegmentPlacement.Codec
