/-!
# Options of the benchmark

What a run of the benchmark can be told, the words that tell it, and what is
wrong with words that cannot be understood.
-/

namespace OrderStore

/-- What a run is told. -/
structure Options where
  /-- Name of the strategy to run, or "all". -/
  strategy : String := "all"
  /-- Size of the store in bytes, in place of the configured one. -/
  capacity : Option UInt64 := none
  /-- Number of segments, in place of the configured one. -/
  segments : Option UInt64 := none
  /-- How many writers there are. -/
  writers : UInt64 := 4
  /-- How many readers there are. -/
  readers : UInt64 := 2
  /-- How many records each writer tries to write. -/
  records : UInt32 := 4096
  /-- Whether writers overwrite old records when the store is full. -/
  ring : Bool := false
  /-- File that holds the configuration. -/
  config : Option String := none
  /-- Whether results are written as JSON. -/
  json : Bool := false
  /-- Whether whole distributions are written. -/
  verbose : Bool := false
  /-- What is logged. -/
  logLevel : String := "info"
deriving DecidableEq

/-- Why words are no options. -/
inductive UsageError where
  /-- There is no such option, and nothing but options is understood. -/
  | unknownArgument
  /-- An option lacks its value. -/
  | missingValue
  /-- The value of an option is not what it should be. -/
  | invalidValue
  /-- An option is given twice. -/
  | repeatedArgument
  /-- A switch is given a value. -/
  | unexpectedValue
  /-- Not a fault: the help text is wanted. -/
  | help
  /-- Not a fault: the version is wanted. -/
  | version
deriving DecidableEq

/-- An option with a value. -/
inductive Setting where
  | strategy
  | capacity
  | segments
  | writers
  | readers
  | records
  | config
  | logLevel
deriving DecidableEq

/-- An option without a value. -/
inductive Switch where
  | ring
  | json
  | verbose
  | help
  | version
deriving DecidableEq

/-- An option of either kind. -/
inductive OptionKey where
  | setting (setting : Setting)
  | switch (switch : Switch)
deriving DecidableEq

namespace OptionKey

/-- The option with a long name. -/
def ofName? : String → Option OptionKey
  | "strategy" => some (setting .strategy)
  | "capacity" => some (setting .capacity)
  | "segments" => some (setting .segments)
  | "writers" => some (setting .writers)
  | "readers" => some (setting .readers)
  | "records" => some (setting .records)
  | "config" => some (setting .config)
  | "log-level" => some (setting .logLevel)
  | "ring" => some (switch .ring)
  | "json" => some (switch .json)
  | "verbose" => some (switch .verbose)
  | "help" => some (switch .help)
  | "version" => some (switch .version)
  | _ => none

/-- The option with a name of one letter. -/
def ofLetter? : Char → Option OptionKey
  | 's' => some (setting .strategy)
  | 'c' => some (setting .capacity)
  | 'w' => some (setting .writers)
  | 'r' => some (setting .readers)
  | 'n' => some (setting .records)
  | 'l' => some (setting .logLevel)
  | 'v' => some (switch .verbose)
  | 'h' => some (switch .help)
  | 'V' => some (switch .version)
  | _ => none

end OptionKey

/-- The number that a text of decimal digits stands for. -/
def decimalNumber? (digits : List Char) : Option Nat :=
  if digits.isEmpty ∨ digits.any fun c => c < '0' ∨ '9' < c then none
  else some (digits.foldl (fun n c => 10 * n + (c.toNat - '0'.toNat)) 0)

/-- A word of 64 bits, perhaps with a plus sign. -/
def readWord64? (text : String) : Option UInt64 :=
  let number :=
    match text.toList with
    | '+' :: digits => decimalNumber? digits
    | digits => decimalNumber? digits
  match number with
  | some n => if n < UInt64.size then some (UInt64.ofNat n) else none
  | none => none

/-- A word of 32 bits, perhaps with a sign; a minus sign leaves only zero. -/
def readWord32? (text : String) : Option UInt32 :=
  let number :=
    match text.toList with
    | '+' :: digits => decimalNumber? digits
    | '-' :: digits => (decimalNumber? digits).filter (· == 0)
    | digits => decimalNumber? digits
  match number with
  | some n => if n < UInt32.size then some (UInt32.ofNat n) else none
  | none => none

namespace Options

/-- The options with one setting changed, if its text can be understood. -/
def assign (o : Options) (setting : Setting) (text : String) : Except UsageError Options :=
  let orInvalid {α : Type} (value : Option α) (set : α → Options) : Except UsageError Options :=
    match value with
    | some value => .ok (set value)
    | none => .error .invalidValue
  match setting with
  | .strategy => .ok { o with strategy := text }
  | .capacity => orInvalid (readWord64? text) fun n => { o with capacity := some n }
  | .segments => orInvalid (readWord64? text) fun n => { o with segments := some n }
  | .writers => orInvalid (readWord64? text) fun n => { o with writers := n }
  | .readers => orInvalid (readWord64? text) fun n => { o with readers := n }
  | .records => orInvalid (readWord32? text) fun n => { o with records := n }
  | .config => if text.isEmpty then .error .missingValue else .ok { o with config := some text }
  | .logLevel => .ok { o with logLevel := text }

/-- The options with one switch on. Asking for the help text or the version ends
the reading. -/
def turnOn (o : Options) : Switch → Except UsageError Options
  | .ring => .ok { o with ring := true }
  | .json => .ok { o with json := true }
  | .verbose => .ok { o with verbose := true }
  | .help => .error .help
  | .version => .error .version

end Options

end OrderStore
