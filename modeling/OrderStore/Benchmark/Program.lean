import OrderStore.Benchmark.CommandLine
import OrderStore.Benchmark.LogFilter
import OrderStore.Benchmark.Report
import OrderStore.Benchmark.Workload
import OrderStore.Config.Text

/-!
# The benchmark program

The program puts its configuration together, checks everything it was told, and
only then runs the selected strategies one after the other. Its surroundings,
which are a file, a clock and the sizes of what its tables hold, are given to it.
-/

namespace OrderStore

/-- Why the program ends without success. -/
inductive RunError where
  /-- The words of the command line are no options. -/
  | usage (fault : UsageError)
  /-- The text that says what is logged is no filter. -/
  | logFilter (fault : LogFilterError)
  /-- There are more orders than numbers for them. -/
  | idSpace (writers : UInt64) (records : UInt32)
  /-- The configuration file cannot be read. -/
  | unreadableConfig (path : String)
  /-- The configuration file does not hold a configuration. -/
  | malformedConfig (path : String) (fault : Json.Fault)
  /-- No store can be built as configured, or the strategy is unknown. -/
  | config (fault : ConfigError)
  /-- Too much memory is asked for at once. -/
  | memory (fault : AllocationTooLarge)
  /-- The outcomes of a writer are lost. -/
  | lostWriter
  /-- Orders were not read as they were written. -/
  | corruptReads (count : Nat)
deriving DecidableEq

namespace RunError

/-- The fault in words. -/
def message : RunError → String
  | usage _ => "the arguments cannot be understood"
  | logFilter fault => fault.message
  | idSpace writers records =>
    s!"{writers} writers x {records} records overflows the u32 order id space"
  | unreadableConfig path => s!"reading config {path}"
  | malformedConfig path _ => s!"parsing config {path}"
  | config fault => fault.message
  | memory fault => fault.message
  | lostWriter => "writer thread panicked"
  | corruptReads count => s!"{count} corrupt reads"

/-- What the program writes when it fails. A directive of which no part can be
cut out and an allocation that is too large stop it before it can tell that this
is an error. -/
def report : RunError → String
  | logFilter .splitCharacter => (logFilter .splitCharacter).message
  | memory fault => fault.message
  | fault => s!"Error: {fault.message}"

/-- The status with which the program ends. Asking for the help text or the
version is no failure. What stops the program is unwound and gives 101; a build
that aborts instead is ended by a signal. -/
def exitStatus : RunError → Nat
  | usage .help => 0
  | usage .version => 0
  | usage _ => 2
  | logFilter .splitCharacter => 101
  | memory _ => 101
  | _ => 1

end RunError

namespace Options

/-- Whether the orders of the writers can be numbered. -/
def checkIdSpace (o : Options) : Except RunError Unit :=
  if fitsIdSpace o.writers o.records then .ok () else .error (.idSpace o.writers o.records)

/-- The configuration that the file gives, or the default one without a file.
`fileText` gives the text of a file, if it can be read. -/
def fileConfig (o : Options) (fileText : String → Option String) :
    Except RunError StoreConfig :=
  match o.config with
  | none => .ok {}
  | some path =>
    match fileText path with
    | none => .error (.unreadableConfig path)
    | some text =>
      match StoreConfig.parse text with
      | .error fault => .error (.malformedConfig path fault)
      | .ok config => .ok config

/-- A configuration in which the options that are given replace its values. -/
def override (o : Options) (config : StoreConfig) : StoreConfig :=
  { config with
    capacity := o.capacity.getD config.capacity
    segmentCount := o.segments.getD config.segmentCount }

/-- The configuration of a run, which has to be valid only after the options
have replaced its values. -/
def loadConfig (o : Options) (fileText : String → Option String) :
    Except RunError StoreConfig :=
  match o.fileConfig fileText with
  | .error fault => .error fault
  | .ok config =>
    let config := o.override config
    match config.validate with
    | .error fault => .error (.config fault)
    | .ok () => .ok config

/-- What has to be known before a run: the configuration and the selected
strategies. The first fault is the one that is reported. -/
def prepare (o : Options) (fileText : String → Option String) :
    Except RunError (StoreConfig × List Strategy) :=
  match LogFilter.check o.logLevel with
  | .error fault => .error (.logFilter fault)
  | .ok () =>
    match o.checkIdSpace with
    | .error fault => .error fault
    | .ok () =>
      match o.loadConfig fileText with
      | .error fault => .error fault
      | .ok config =>
        match Strategy.select o.strategy with
        | .error fault => .error (.config fault)
        | .ok strategies => .ok (config, strategies)

end Options

variable {m : Type → Type} [Monad m]

/-- Runs the writers one after the other and then the readers, each for one
round of the store. -/
def runWorkload (now : m Nat) (o : Options) (slots : Nat) :
    StateT Store m (Except LostWriter (Recorder × Recorder × Nat)) := do
  let writers := (List.range o.writers.toNat).map fun writer =>
    some <$> runWriter now o.ring (writerIds o.records writer)
  match ← joinWriters writers (pure ()) with
  | .error fault => return .error fault
  | .ok writes =>
    let readers := (List.range o.readers.toNat).map fun reader =>
      runReader now (readerSlots slots reader)
    let results ← readers.mapM id
    match mergeWriters {} (results.map fun (recorder, _) => some recorder) with
    | .error fault => return .error fault
    | .ok reads =>
      return .ok (writes, reads, results.foldr (fun (_, corrupt) total => corrupt + total) 0)

/-- Runs the workload on the store of a strategy. -/
def runStore (now : m Nat) (o : Options) (slots : Nat) (strategy : Strategy) (store : Store) :
    m (Except RunError Report) := do
  let start ← now
  let (result, store) ← (runWorkload now o slots).run store
  let stop ← now
  match result with
  | .error _ => return .error .lostWriter
  | .ok (writes, reads, corrupt) =>
    return .ok ⟨strategy, writes, reads, corrupt, stop - start, store.status.describe⟩

/-- Runs the workload with one strategy. Less than 2^32 writers never have too large
a table of handles, but there may be any number of readers. -/
def runStrategy (footprint : Footprint) (now : m Nat) (o : Options) (config : StoreConfig)
    (strategy : Strategy) : m (Except RunError Report) :=
  match Store.allocate footprint strategy config with
  | .error (.config fault) => return .error (.config fault)
  | .error (.memory fault) => return .error (.memory fault)
  | .ok store =>
    match checkAllocations [footprint.handle * o.readers.toNat] with
    | .error fault => return .error (.memory fault)
    | .ok () => runStore now o config.recordCapacity strategy store

/-- Runs the workload with several strategies, up to the first that fails. -/
def runStrategies (footprint : Footprint) (now : m Nat) (o : Options) (config : StoreConfig) :
    List Strategy → m (Except RunError (List Report))
  | [] => return .ok []
  | strategy :: strategies => do
    match ← runStrategy footprint now o config strategy with
    | .error fault => return .error fault
    | .ok report =>
      match ← runStrategies footprint now o config strategies with
      | .error fault => return .error fault
      | .ok reports => return .ok (report :: reports)

/-- The reports of a whole run. -/
def runOptions (now : m Nat) (fileText : String → Option String) (o : Options)
    (footprint : Footprint := {}) : m (Except RunError (List Report)) :=
  match o.prepare fileText with
  | .error fault => return .error fault
  | .ok (config, strategies) => runStrategies footprint now o config strategies

/-- The lines that the program writes for its reports. -/
def outputLines (o : Options) (reports : List Report) : List String :=
  if o.json then reports.map Report.json
  else
    "" :: Report.tableHeader ++ reports.map Report.row ++
      if o.verbose then reports.flatMap Report.distributions else []

/-- Whether a run that wrote its reports was a success: no order was read other
than it was written. -/
def checkReports (reports : List Report) : Except RunError Unit :=
  let corrupt := reports.foldr (fun report total => report.corrupt + total) 0
  if corrupt = 0 then .ok () else .error (.corruptReads corrupt)

/-- The status with which the program ends after a run. -/
def exitStatus : Except RunError (List Report) → Nat
  | .error fault => fault.exitStatus
  | .ok reports =>
    match checkReports reports with
    | .error fault => fault.exitStatus
    | .ok () => 0

end OrderStore
