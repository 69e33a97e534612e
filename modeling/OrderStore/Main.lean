import OrderStore.Benchmark.Program

/-!
# The command line of the benchmark

Reads the arguments and the configuration file, runs the workload by the
system's clock, and writes the reports.
-/

namespace OrderStore

/-- What the program tells about its options. -/
def helpText : String := "Usage: order-store [OPTIONS]

Options:
  -s, --strategy <NAME>    Strategy to run, or \"all\" [default: all]
  -c, --capacity <BYTES>   Size of the store (overrides the configuration)
      --segments <COUNT>   Number of segments (overrides the configuration)
  -w, --writers <COUNT>    Number of writers [default: 4]
  -r, --readers <COUNT>    Number of readers [default: 2]
  -n, --records <COUNT>    Records each writer tries to write [default: 4096]
      --ring               Overwrite old records when the store is full
      --config <FILE>      JSON file with a configuration
      --json               Write the results as JSON, one line per strategy
  -v, --verbose            Write the distributions of all latencies
  -l, --log-level <LEVEL>  What is logged [default: info]
  -h, --help               Write this text
  -V, --version            Write the version"

/-- What the program tells about itself. -/
def versionText : String := "order-store 0.1.0"

/-- Writes why the program ends. -/
def writeFault : RunError → IO Unit
  | .usage .help => IO.println helpText
  | .usage .version => IO.println versionText
  | fault => IO.eprintln fault.report

/-- The text of a file, if it can be read. -/
def readText (path : String) : IO (Option String) := do
  try return some (← IO.FS.readFile path)
  catch _ => return none

/-- Runs what the options tell. -/
def runProgram (options : Options) : IO UInt32 := do
  let text ← match options.config with
    | none => pure none
    | some path => readText path
  let result ← runOptions IO.monoNanosNow (fun _ => text) options
  match result with
  | .error fault => writeFault fault
  | .ok reports =>
    (outputLines options reports).forM IO.println
    match checkReports reports with
    | .error fault => writeFault fault
    | .ok () => pure ()
  return UInt32.ofNat (exitStatus result)

end OrderStore

/-- The benchmark program. -/
def main (arguments : List String) : IO UInt32 := do
  match OrderStore.Options.parse arguments with
  | .error fault => do
    OrderStore.writeFault (.usage fault)
    return UInt32.ofNat (OrderStore.RunError.usage fault).exitStatus
  | .ok options => OrderStore.runProgram options
