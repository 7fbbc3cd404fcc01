import Rulebook.Table

/-!
What is counted while rules are evaluated.  Each counter counts under labels.
-/

namespace Rulebook

/-- The counters. -/
inductive Counter where
  | cacheHits
  | cacheMisses
  | computations
  | evaluations
  | skips
  | rules
  | errors
  deriving DecidableEq, Repr

namespace Counter

/-- Every counter. -/
def all : List Counter :=
  [.cacheHits, .cacheMisses, .computations, .evaluations, .skips, .rules, .errors]

/-- The name of a counter. -/
def name : Counter → String
  | .cacheHits => "fact_cache_hits_total"
  | .cacheMisses => "fact_cache_misses_total"
  | .computations => "fact_computations_total"
  | .evaluations => "condition_evaluations_total"
  | .skips => "condition_skips_total"
  | .rules => "rule_evaluations_total"
  | .errors => "errors_total"

/-- What the labels of a counter are. -/
def labelName : Counter → String
  | .cacheHits | .cacheMisses | .computations => "fact_id"
  | .evaluations | .skips => "kind"
  | .rules => "outcome"
  | .errors => "error_type"

end Counter

/-- The counts so far, and how often the duration of a rule was taken. -/
structure Tally where
  counts : Table (Counter × String) Nat
  timings : Nat

namespace Tally

/-- Nothing counted. -/
def empty : Tally := ⟨[], 0⟩

/-- The count under a label; none when it was never counted. -/
def count? (tally : Tally) (counter : Counter) (label : String) : Option Nat :=
  tally.counts.find? (counter, label)

/-- Count one under a label. -/
def count (tally : Tally) (counter : Counter) (label : String) : Tally :=
  { tally with
    counts := tally.counts.insert (counter, label) ((tally.count? counter label).getD 0 + 1) }

/-- Take the duration of a rule. -/
def time (tally : Tally) : Tally := { tally with timings := tally.timings + 1 }

/-- The labels of a counter with their counts. -/
def labels (tally : Tally) (counter : Counter) : List (String × Nat) :=
  tally.counts.filterMap fun (key, n) => if key.1 = counter then some (key.2, n) else none

end Tally

end Rulebook
