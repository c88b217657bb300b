import Mathlib.Data.List.TakeWhile
import Mathlib.Tactic.SplitIfs
import PostfixRules.Proofs.Service.Request
import PostfixRules.Proofs.Text.Percent
import PostfixRules.Proofs.Text.Segments

/-!
# Paths and endpoints

An endpoint has one path, and a path one endpoint at most. The path of a single rule ends in a
segment that is not empty and not one of the words that other endpoints have in its place.
-/

namespace PostfixRules

namespace Endpoint

/-- The words that stand in the place of an id in the paths of other endpoints. -/
def fixedWords : List String :=
  ["parse", "combine", "evaluate", "stats"]

/-- Whether a text may stand for an id in a path: it is one segment, is not empty, and is not one of
the fixed words. -/
structure IsIdSegment (segment : String) : Prop where
  ne_empty : segment ≠ ""
  single : '/' ∉ segment.toList
  not_fixed : segment ∉ fixedWords

/-- The path of an endpoint. -/
def path : Endpoint → String
  | .rules => "/api/rules"
  | .parse => "/api/rules/parse"
  | .combine => "/api/rules/combine"
  | .evaluate => "/api/rules/evaluate"
  | .stats => "/api/rules/stats"
  | .rule segment => "/api/rules/" ++ segment
  | .health => "/health"

/-- Whether an endpoint can be named by a path. -/
def IsNamed : Endpoint → Prop
  | .rule segment => IsIdSegment segment
  | _ => True

/-- The segments of the path of an endpoint. -/
def parts : Endpoint → List String
  | .rules => ["", "api", "rules"]
  | .parse => ["", "api", "rules", "parse"]
  | .combine => ["", "api", "rules", "combine"]
  | .evaluate => ["", "api", "rules", "evaluate"]
  | .stats => ["", "api", "rules", "stats"]
  | .rule segment => ["", "api", "rules", segment]
  | .health => ["", "health"]

/-- The path of an endpoint is made up of its segments. -/
theorem segments_path {endpoint : Endpoint} (h : endpoint.IsNamed) :
    Text.segments '/' endpoint.path = endpoint.parts := by
  rw [Text.segments_eq_iff]
  cases endpoint with
  | rule segment =>
    refine ⟨List.cons_ne_nil _ _, ?_, rfl⟩
    intro part hpart
    simp only [parts, List.mem_cons, List.not_mem_nil, or_false] at hpart
    rcases hpart with rfl | rfl | rfl | rfl
    · decide
    · decide
    · decide
    · exact h.single
  | rules | parse | combine | evaluate | stats | health => decide

/-- A segment that may stand for an id names the rule with the id. -/
theorem ofSegment?_of_isIdSegment {segment : String} (h : IsIdSegment segment) :
    ofSegment? segment = some (.rule segment) := by
  have hfixed := h.not_fixed
  simp only [fixedWords, List.mem_cons, List.not_mem_nil, or_false, not_or] at hfixed
  obtain ⟨hparse, hcombine, hevaluate, hstats⟩ := hfixed
  rw [ofSegment?, if_neg h.ne_empty, if_neg hparse, if_neg hcombine, if_neg hevaluate,
    if_neg hstats]

/-- A segment names the endpoint whose path ends in it. -/
theorem parts_of_ofSegment? {segment : String} {endpoint : Endpoint}
    (hsingle : '/' ∉ segment.toList) (h : ofSegment? segment = some endpoint) :
    endpoint.parts = ["", "api", "rules", segment] ∧ endpoint.IsNamed := by
  unfold ofSegment? at h
  split_ifs at h with hempty hparse hcombine hevaluate hstats
  · cases h
    exact ⟨congrArg (["", "api", "rules", ·]) hparse.symm, trivial⟩
  · cases h
    exact ⟨congrArg (["", "api", "rules", ·]) hcombine.symm, trivial⟩
  · cases h
    exact ⟨congrArg (["", "api", "rules", ·]) hevaluate.symm, trivial⟩
  · cases h
    exact ⟨congrArg (["", "api", "rules", ·]) hstats.symm, trivial⟩
  · cases h
    refine ⟨rfl, hempty, hsingle, ?_⟩
    simp only [fixedWords, List.mem_cons, List.not_mem_nil, or_false, not_or]
    exact ⟨hparse, hcombine, hevaluate, hstats⟩

/-- A path names an endpoint exactly if it is the path of the endpoint. -/
theorem ofPath?_eq_some_iff {path : String} {endpoint : Endpoint} :
    ofPath? path = some endpoint ↔ path = endpoint.path ∧ endpoint.IsNamed := by
  constructor
  · intro h
    have hparts : Text.segments '/' path = endpoint.parts ∧ endpoint.IsNamed := by
      unfold ofPath? at h
      split at h
      · rename_i hsegments
        cases h
        exact ⟨hsegments, trivial⟩
      · rename_i hsegments
        cases h
        exact ⟨hsegments, trivial⟩
      · rename_i segment hsegments
        have hsingle : '/' ∉ segment.toList :=
          (Text.segments_eq_iff.mp hsegments).2.1 segment (by simp)
        obtain ⟨hparts, hnamed⟩ := parts_of_ofSegment? hsingle h
        exact ⟨hsegments.trans hparts.symm, hnamed⟩
      · cases h
    obtain ⟨hsegments, hnamed⟩ := hparts
    have hpath := (Text.segments_eq_iff.mp hsegments).2.2
    have hown := (Text.segments_eq_iff.mp (segments_path hnamed)).2.2
    exact ⟨hpath.symm.trans hown, hnamed⟩
  · rintro ⟨rfl, hnamed⟩
    rw [ofPath?, segments_path hnamed]
    cases endpoint with
    | rule segment => exact ofSegment?_of_isIdSegment hnamed
    | rules | parse | combine | evaluate | stats | health => rfl

/-- A text that is not empty may stand for an id once all its bytes are encoded, also one that is a
fixed word or has slashes. -/
theorem isIdSegment_percentEncode {id : String} (h : id ≠ "") :
    IsIdSegment (Text.percentEncode id) := by
  have hhead := Text.head?_percentEncode h
  refine ⟨?_, Text.not_mem_percentEncode (by decide) (by decide) id, ?_⟩
  · intro hempty
    rw [hempty] at hhead
    cases hhead
  · intro hfixed
    have hheads : ∀ word ∈ fixedWords, word.toList.head? ≠ some '%' := by decide
    exact hheads _ hfixed hhead

/-- A target without a query is a path. -/
theorem pathOf_eq_self {target : String} (hquery : '?' ∉ target.toList)
    (hfragment : '#' ∉ target.toList) : pathOf target = target := by
  have hkept : ∀ c ∈ target.toList, (c != '?' && c != '#') = true := by
    intro c hc
    rw [Bool.and_eq_true, bne_iff_ne, bne_iff_ne]
    exact ⟨fun he => hquery (he ▸ hc), fun he => hfragment (he ▸ hc)⟩
  rw [pathOf, List.takeWhile_eq_self_iff.mpr hkept, String.ofList_toList]

end Endpoint

/-- Whether a request is sent with a method to a path. -/
structure Request.Asks (request : Request) (method path : String) : Prop where
  method : request.method = method
  path : Endpoint.pathOf request.target = path

instance (request : Request) (method path : String) : Decidable (request.Asks method path) :=
  decidable_of_iff (request.method = method ∧ Endpoint.pathOf request.target = path)
    ⟨fun h => ⟨h.1, h.2⟩, fun h => ⟨h.method, h.path⟩⟩

theorem Request.Asks.endpoint {request : Request} {method : String} {endpoint : Endpoint}
    (h : request.Asks method endpoint.path) (hnamed : endpoint.IsNamed) :
    Endpoint.ofPath? (Endpoint.pathOf request.target) = some endpoint :=
  Endpoint.ofPath?_eq_some_iff.mpr ⟨h.path, hnamed⟩

/-- Whether a request names the rule with an id, which may be encoded in its path in any way. -/
def Request.Names (request : Request) (method id : String) : Prop :=
  ∃ segment, request.Asks method ("/api/rules/" ++ segment) ∧ Endpoint.IsIdSegment segment ∧
    Text.percentDecode? segment = some id

/-- Every id but the empty one can be named. -/
theorem Request.exists_names (method : String) {id : String} (h : id ≠ "") :
    ∃ request : Request, request.Names method id := by
  have hpath : Endpoint.pathOf ("/api/rules/" ++ Text.percentEncode id) =
      "/api/rules/" ++ Text.percentEncode id := by
    apply Endpoint.pathOf_eq_self
    · rw [String.toList_append, List.mem_append, not_or]
      exact ⟨by decide, Text.not_mem_percentEncode (by decide) (by decide) id⟩
    · rw [String.toList_append, List.mem_append, not_or]
      exact ⟨by decide, Text.not_mem_percentEncode (by decide) (by decide) id⟩
  exact ⟨⟨method, "/api/rules/" ++ Text.percentEncode id, none, none, ""⟩,
    Text.percentEncode id, ⟨rfl, hpath⟩, Endpoint.isIdSegment_percentEncode h,
    Text.percentDecode?_percentEncode id⟩

/-- A request for the path of an endpoint shows the operation of the endpoint, unless it asks for
the head only. -/
theorem Request.Asks.shows {request : Request} {method : String} {endpoint : Endpoint}
    (h : request.Asks method endpoint.path) (hnamed : endpoint.IsNamed) (hmethod : method ≠ "HEAD")
    (store : Store) (draws : Draws) :
    Service.Shows (Service.handle store draws request)
      (Service.dispatch store draws request endpoint) := by
  rw [← h.method] at hmethod
  exact Service.handle_shows (h.endpoint hnamed) hmethod

/-- A request whose body is decoded shows what the operation of the endpoint makes of it. -/
theorem Request.Asks.shows_of_decode {α : Type} {request : Request} (store : Store) (draws : Draws)
    {endpoint : Endpoint} {decode : String → Except Json.Fault α} {operation : α → Handled}
    {payload : α} (hdispatch : Service.dispatch store draws request endpoint =
      Service.withPayload store decode request operation)
    (h : request.Asks "POST" endpoint.path) (hnamed : endpoint.IsNamed)
    (hdecode : Service.decodeRequest decode request = .ok payload) :
    Service.Shows (Service.handle store draws request) (operation payload) := by
  have hshows := h.shows hnamed (by decide) store draws
  rw [hdispatch, Service.withPayload_of_ok hdecode] at hshows
  exact hshows

namespace Request.Names

variable {request : Request} {id : String}

/-- A request that names a rule to be shown shows it. -/
theorem shows_show (h : request.Names "GET" id) (store : Store) (draws : Draws) :
    Service.Shows (Service.handle store draws request) (Service.showRule store id) := by
  obtain ⟨segment, hasks, hnamed, hdecode⟩ := h
  have hreading : Service.isReading request.method = true := by
    rw [hasks.method]
    decide
  have hshows := @Asks.shows request "GET" (.rule segment) hasks hnamed (by decide) store draws
  rw [Service.dispatch_show hreading, Service.withId_of_decode hdecode] at hshows
  exact hshows

/-- A request that names a rule to be deleted deletes it. -/
theorem shows_delete (h : request.Names "DELETE" id) (store : Store) (draws : Draws) :
    Service.Shows (Service.handle store draws request) (Service.deleteRule store id) := by
  obtain ⟨segment, hasks, hnamed, hdecode⟩ := h
  have hshows := @Asks.shows request "DELETE" (.rule segment) hasks hnamed (by decide) store draws
  rw [Service.dispatch_delete hasks.method, Service.withId_of_decode hdecode] at hshows
  exact hshows

end Request.Names

end PostfixRules
