import PostfixRules.Number.Style

/-!
# Metrics

Every request leaves metrics: counters that go up by one, and observations of a value. Labels are
kept in the order in which they are given.
-/

namespace PostfixRules

/-- What a metric reports. -/
inductive Metric.Reading where
  /-- A counter goes up by one. -/
  | increment
  /-- A histogram takes a value. -/
  | observed (value : Double)
  deriving DecidableEq, Repr

/-- A metric with its labels. -/
structure Metric where
  name : String
  labels : List (String × String)
  reading : Metric.Reading
  deriving DecidableEq, Repr

namespace Metric

/-- A counter that goes up by one. -/
def counter (name : String) (labels : List (String × String)) : Metric :=
  ⟨name, labels, .increment⟩

/-- A value for a histogram. -/
def histogram (name : String) (labels : List (String × String)) (value : Double) : Metric :=
  ⟨name, labels, .observed value⟩

/-- The metrics of a finished request. -/
def httpRequest (method path : String) (status : Nat) (seconds : Double) : List Metric :=
  let labels := [("method", method), ("path", path), ("status", Text.natText status)]
  [counter "http_requests_total" labels, histogram "http_request_duration_seconds" labels seconds]

/-- The metrics of reading rule text, with `ok` or the code of the error. -/
def ruleParse (status : String) : List Metric :=
  [counter "rule_parses_total" [("status", status)]]

/-- The metrics of combining so many rules, with `ok` or the code of the error. -/
def ruleCombine (count : Nat) (status : String) : List Metric :=
  [counter "rule_combines_total" [("status", status)],
    histogram "rule_combine_size" [] (Double.ofNat count)]

/-- The metrics of running a rule, with the verdict or the code of the error. -/
def ruleEvaluation (outcome : String) (seconds : Double) : List Metric :=
  [counter "rule_evaluations_total" [("outcome", outcome)],
    histogram "rule_evaluation_duration_seconds" [] seconds]

/-- Name and labels of a metric. -/
def series (metric : Metric) : String :=
  metric.name ++ "\x7b" ++
    String.intercalate "," (metric.labels.map fun (key, value) => key ++ "=" ++ value) ++ "\x7d"

/-- The line of a metric, with a given text for an observed value. -/
def lineWith (metric : Metric) (observed : Double → String) : String :=
  match metric.reading with
  | .increment => "counter " ++ metric.series ++ " +1"
  | .observed value => "histogram " ++ metric.series ++ " " ++ observed value

/-- The line of a metric. -/
def line (metric : Metric) : String :=
  metric.lineWith Double.plainText

end Metric

end PostfixRules
