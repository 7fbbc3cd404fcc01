import Rulebook.Error
import Rulebook.Table

/-!
The cache of computed fact values.  A signature stands for at most one job at a time; whoever asks
for it while it stands there joins that job and gets its outcome.  A job that failed leaves the
cache when it is evicted, and a later request starts a new one.  Jobs are numbered in the order in
which they were started, and the record of a job outlives its place in the cache.
-/

namespace Rulebook

/-- One computation for a signature, and the strand that makes it; it has an outcome once it is
finished. -/
structure Job where
  signature : String
  strand : Nat
  outcome : Option (Except Error Value)

/-- The job that stands for each signature, by number, and every job so far. -/
structure Cache where
  entries : Table String Nat
  jobs : List Job

namespace Cache

/-- Nothing computed. -/
def empty : Cache := ⟨[], []⟩

/-- How many signatures have a job in the cache. -/
def size (cache : Cache) : Nat := cache.entries.length

/-- The job that stands for a signature. -/
def find? (cache : Cache) (signature : String) : Option Job :=
  (cache.entries.find? signature).bind fun job => cache.jobs[job]?

/-- The number that the next job will have. -/
def nextJob (cache : Cache) : Nat := cache.jobs.length

/-- Start a job for a signature. -/
def start (cache : Cache) (signature : String) (strand : Nat) : Cache where
  entries := cache.entries.insert signature cache.nextJob
  jobs := cache.jobs ++ [⟨signature, strand, none⟩]

/-- Finish a job.  Its first outcome is its outcome. -/
def complete (cache : Cache) (job : Nat) (outcome : Except Error Value) : Cache :=
  { cache with
    jobs := cache.jobs.modify job fun record =>
      { record with outcome := record.outcome.or (some outcome) } }

/-- Take a failed job out of the cache, if it still stands there for its signature. -/
def evict (cache : Cache) (job : Nat) : Cache :=
  match cache.jobs[job]? with
  | some ⟨signature, _, some (.error _)⟩ =>
      if cache.entries.find? signature == some job then
        { cache with entries := cache.entries.erase signature }
      else cache
  | _ => cache

end Cache

end Rulebook
