import OrderStore.Latency.Recorder
import OrderStore.Strategy

/-!
# Reports

What a run of one strategy found out, as a row of a table, as distributions, and
as a line of JSON.
-/

namespace OrderStore

/-- The outcome of running the workload with one strategy. -/
structure Report where
  /-- The strategy that was run. -/
  strategy : Strategy
  /-- Outcomes of all writes. -/
  writes : Recorder
  /-- Outcomes of all reads. -/
  reads : Recorder
  /-- How many orders were not read as they were written. -/
  corrupt : Nat
  /-- How long the run took. -/
  elapsedNanos : Nat
  /-- Usage of the store after the run. -/
  status : String
deriving DecidableEq

namespace Report

/-- A row of the table from its cells: the first at the left of its column, the
others at the right. -/
def tableRow (cells : List String) : String :=
  match cells with
  | [] => ""
  | first :: others =>
    let widths := [10, 8, 14, 12, 12, 10, 12, 8]
    " ".intercalate (alignLeft 12 first :: List.zipWith alignRight widths others)

/-- The titles of the table and the line below them. -/
def tableHeader : List String :=
  [tableRow ["strategy", "writes", "failed", "writes/s", "write p50", "write p99", "reads",
    "read p99", "corrupt"], String.ofList (List.replicate 108 '-')]

/-- The report as a row of the table. -/
def row (r : Report) : String :=
  tableRow [r.strategy.name, toString r.writes.succeeded, toString r.writes.failed,
    (opsPerSecond r.writes.total r.elapsedNanos).toFixed 0, formatLatency r.writes.latency.p50,
    formatLatency r.writes.latency.p99, toString r.reads.succeeded,
    formatLatency r.reads.latency.p99, toString r.corrupt]

/-- The report as distributions, behind an empty line. -/
def distributions (r : Report) : List String :=
  ["", s!"{r.strategy.name} - {r.strategy.description}"] ++
    r.writes.latency.describe "  write" ++ r.reads.latency.describe "  read "

/-- A number as a member of a JSON object. -/
def numberMember (key : String) (value : Nat) : String := s!"\"{key}\":{value}"

/-- A text as a member of a JSON object. The texts of a report hold nothing that
JSON would write in another way. -/
def textMember (key value : String) : String := s!"\"{key}\":\"{value}\""

/-- A JSON object from its members. -/
def object (members : List String) : String := "\x7b" ++ ",".intercalate members ++ "\x7d"

/-- The report as a line of JSON, the keys of each object in alphabetical
order. -/
def json (r : Report) : String :=
  let write := r.writes.latency.summary
  let read := r.reads.latency.summary
  object [numberMember "corrupt" r.corrupt, textMember "description" r.strategy.description,
    numberMember "elapsed_nanos" r.elapsedNanos,
    "\"reads\":" ++ object [numberMember "found" r.reads.succeeded, numberMember "max" read.max,
      numberMember "min" read.min, numberMember "missed" r.reads.failed,
      numberMember "p50" read.p50, numberMember "p99" read.p99],
    textMember "status" r.status, textMember "strategy" r.strategy.name,
    "\"writes\":" ++ object [numberMember "failed" r.writes.failed, numberMember "max" write.max,
      numberMember "min" write.min, numberMember "p50" write.p50, numberMember "p99" write.p99,
      numberMember "p999" write.p999, numberMember "succeeded" r.writes.succeeded]]

end Report

end OrderStore
