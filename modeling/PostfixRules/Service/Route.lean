import PostfixRules.Text.Percent
import PostfixRules.Text.Segments

/-!
# Routes

The path of a request, as sent and without its query, names an endpoint. Paths are neither decoded
nor otherwise adjusted before they are compared; the last segment of the path of a single rule is
any segment that is not empty and not one of the fixed words.
-/

namespace PostfixRules

/-- What a path names. -/
inductive Endpoint where
  /-- All rules. -/
  | rules
  | parse
  | combine
  | evaluate
  | stats
  /-- The rule whose id is percent-encoded in the segment. -/
  | rule (segment : String)
  | health
  deriving DecidableEq, Repr

namespace Endpoint

/-- The part of a request target before its query. -/
def pathOf (target : String) : String :=
  String.ofList (target.toList.takeWhile fun c => c != '?' && c != '#')

/-- The endpoint of a segment after the path of all rules. -/
def ofSegment? (segment : String) : Option Endpoint :=
  if segment = "" then none
  else if segment = "parse" then some .parse
  else if segment = "combine" then some .combine
  else if segment = "evaluate" then some .evaluate
  else if segment = "stats" then some .stats
  else some (.rule segment)

/-- The endpoint of a path. -/
def ofPath? (path : String) : Option Endpoint :=
  match Text.segments '/' path with
  | ["", "health"] => some .health
  | ["", "api", "rules"] => some .rules
  | ["", "api", "rules", segment] => ofSegment? segment
  | _ => none

/-- The methods of an endpoint, in the order in which they are told. -/
def methods : Endpoint → List String
  | .rules => ["GET", "HEAD", "POST"]
  | .parse | .combine | .evaluate => ["POST"]
  | .stats | .health => ["GET", "HEAD"]
  | .rule _ => ["GET", "HEAD", "DELETE"]

end Endpoint

end PostfixRules
