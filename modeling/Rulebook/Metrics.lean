import Rulebook.Error
import Rulebook.Tally
import Rulebook.Value.Equality
import Rulebook.Value.Literal
import Rulebook.Value.Sum

/-!
A collector of metrics for one service: the counters, a histogram of durations, and a note of which
service it is.  A metric is read by the name of one of its samples and the labels of that sample.
-/

namespace Rulebook

/-- What can be measured. -/
inductive Metric where
  | info
  | counter (counter : Counter)
  | durations
  deriving DecidableEq, Repr

namespace Metric

/-- The metric of a name. -/
def ofName? (name : String) : Option Metric :=
  if name == "service_info" then some .info
  else if name == "rule_evaluation_duration_seconds" then some .durations
  else (Counter.all.find? fun counter => counter.name == name).map .counter

end Metric

/-- The measurements of a service.  A counter has a series for each label that was ever used with
it.  The histogram has the sum of what was observed, and how many observations fell into each
bucket. -/
structure Collector where
  service : Value
  series : Table (Counter × String) Nat
  sum : Binary64
  buckets : List Nat

namespace Collector

/-- The upper bounds of the buckets, in thousandths, with their names; the last bucket has none. -/
def bounds : List (Option Nat × String) := [
  (some 5, "0.005"), (some 10, "0.01"), (some 25, "0.025"), (some 50, "0.05"),
  (some 75, "0.075"), (some 100, "0.1"), (some 250, "0.25"), (some 500, "0.5"),
  (some 750, "0.75"), (some 1000, "1.0"), (some 2500, "2.5"), (some 5000, "5.0"),
  (some 7500, "7.5"), (some 10000, "10.0"), (none, "+Inf")]

/-- Nothing measured. -/
def create (service : Value) : Collector where
  service := service
  series := []
  sum := Binary64.zero false
  buckets := bounds.map fun _ => 0

/-- Nothing measured, for a service that must have a name. -/
def create? (service : Value) : Except Error Collector :=
  match service with
  | .null => .error (.misuse .value)
  | service => .ok (create service)

/-- The labels of a counter name exactly one label; its value is shown as a text. -/
def label (counter : Counter) (labels : Members) : Except Error String :=
  match labels with
  | [(name, value)] =>
      if name == counter.labelName then .ok value.display else .error (.misuse .value)
  | _ => .error (.misuse .value)

/-- Add to a series. -/
def add (collector : Collector) (counter : Counter) (label : String) (amount : Nat) : Collector :=
  { collector with
    series := collector.series.insert (counter, label)
      ((collector.series.find? (counter, label)).getD 0 + amount) }

/-- Refuse labels that have the name of something that is given besides labels. -/
def refuseReserved (reserved : List String) (labels : Members) : Except Error Unit :=
  if labels.any fun label => reserved.contains label.1 then .error .type else .ok ()

/-- The metric of a name given as a value.  A value that cannot be a key is of the wrong type, and
any other value that is no text names no metric. -/
def metric? (name : Value) : Except Error (Option Metric) :=
  match name with
  | .str name => .ok (Metric.ofName? name)
  | name => if name.hashable then .ok none else .error .type

/-- Count one.  A name that is no metric is ignored; what is no counter has no labels. -/
def increment (collector : Collector) (name : Value) (labels : Members) :
    Except Error Collector := do
  refuseReserved ["self", "metric_name"] labels
  match ← metric? name with
  | none => return collector
  | some (.counter counter) => return collector.add counter (← label counter labels) 1
  | some _ => .error (.misuse .value)

/-- Does a number lie at or below a bound? -/
def within (number : Number) : Option Nat → Bool
  | some thousandths => number.lessEqual (.float (Binary64.ofRatio false thousandths 1000))
  | none => number.lessEqual (.float (.infinite false))

/-- Count one in the first bucket that a number fits into. -/
def drop (number : Number) : List (Option Nat × String) → List Nat → List Nat
  | bound :: bounds, n :: counts =>
      if within number bound.1 then (n + 1) :: counts else n :: drop number bounds counts
  | _, counts => counts

/-- Observe a number. -/
def observeNumber (collector : Collector) (value : Value) : Except Error Collector :=
  match value.number? with
  | none => .error .type
  | some number =>
      match number.toBinary64? with
      | none => .error (.misuse .overflow)
      | some x =>
          .ok { collector with
            sum := collector.sum.add x
            buckets := drop number bounds collector.buckets }

/-- Observe a number in a metric.  Only the histogram can observe, and it has no labels; a counter
that is asked to makes the series of the labels all the same. -/
def observeIn (collector : Collector) (metric : Metric) (value : Value) (labels : Members) :
    Except Error Unit × Collector :=
  match metric with
  | .durations =>
      if labels.isEmpty then
        match collector.observeNumber value with
        | .ok collector => (.ok (), collector)
        | .error e => (.error e, collector)
      else (.error (.misuse .value), collector)
  | .info => (.error (.misuse (if labels.isEmpty then .attribute else .value)), collector)
  | .counter counter =>
      if labels.isEmpty then (.error (.misuse .attribute), collector)
      else
        match label counter labels with
        | .ok label => (.error (.misuse .attribute), collector.add counter label 0)
        | .error e => (.error e, collector)

/-- Observe a number in the metric of a name, if there is one. -/
def observe (collector : Collector) (name value : Value) (labels : Members) :
    Except Error Unit × Collector :=
  match refuseReserved ["self", "metric_name", "value"] labels, metric? name with
  | .error e, _ => (.error e, collector)
  | _, .error e => (.error e, collector)
  | _, .ok none => (.ok (), collector)
  | _, .ok (some metric) => collector.observeIn metric value labels

/-- Observe how long a deed took, whatever became of it.  An error of the observation is told
before one of the deed. -/
def time (collector : Collector) (name duration : Value) (labels : Members)
    (deed : Except Error Unit) : Except Error Unit × Collector :=
  match refuseReserved ["self", "operation_name"] labels with
  | .error e => (.error e, collector)
  | .ok _ =>
      match collector.observe name duration labels with
      | (.error e, collector) => (.error e, collector)
      | (.ok _, collector) => (deed, collector)

/-- Count an error under its class. -/
def recordError (collector : Collector) (className : Value) : Collector :=
  collector.add .errors className.display 1

/-- A count as a sample. -/
def sampled (n : Nat) : Value := .float ((Binary64.ofInt? n).getD (.infinite false))

/-- How many observations lie at or below the bound of a name. -/
def upTo (name : String) : List (Option Nat × String) → List Nat → Nat → Option Nat
  | bound :: bounds, n :: counts, total =>
      if bound.2 == name then some (total + n) else upTo name bounds counts (total + n)
  | _, _, _ => none

/-- The samples of the histogram. -/
def histogramSample? (collector : Collector) (name : String) (labels : Members) : Option Value :=
  let total := collector.buckets.foldl (· + ·) 0
  match name, labels with
  | "rule_evaluation_duration_seconds_count", [] => some (sampled total)
  | "rule_evaluation_duration_seconds_sum", [] => some (.float collector.sum)
  | "rule_evaluation_duration_seconds_bucket", [("le", .str bound)] =>
      (upTo bound bounds collector.buckets 0).map sampled
  | _, _ => none

/-- The labels of the note on the service. -/
def infoLabels (collector : Collector) : Value :=
  .object [("service", collector.service), ("version", .str "1.0.0")]

/-- The sample of a name with exactly these labels. -/
def sample? (collector : Collector) (name : String) (labels : Members) : Option Value :=
  if name == "service_info_info" then
    if Value.object labels == collector.infoLabels then some (sampled 1) else none
  else
    match Counter.all.find? fun counter => counter.name == name with
    | none => collector.histogramSample? name labels
    | some counter =>
        match labels with
        | [(labelName, .str label)] =>
            if labelName == counter.labelName then
              (collector.series.find? (counter, label)).map sampled
            else none
        | _ => none

end Collector

end Rulebook
