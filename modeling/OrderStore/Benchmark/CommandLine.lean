import OrderStore.Benchmark.Options

/-!
# Reading the command line

The words of a command line are read from left to right. The value of an option
may be attached to it or be the next word. A value in a word of its own is only
looked at when the next option is understood or the line ends, so that a word
that cannot be understood at all is reported before a bad value in front of it.
-/

namespace OrderStore

/-- What has been understood of a command line so far. -/
structure CommandLine where
  /-- The options as far as their values have been looked at. -/
  options : Options := {}
  /-- The options that have been given. -/
  given : List OptionKey := []
  /-- The last option, if it takes a value from a word of its own, and that
  value once it is read. -/
  pending : Option (Setting × Option String) := none
deriving DecidableEq

namespace CommandLine

/-- Marks an option as given; it may not be given twice. -/
def markGiven (line : CommandLine) (key : OptionKey) : Except UsageError CommandLine :=
  if key ∈ line.given then .error .repeatedArgument
  else .ok { line with given := key :: line.given }

/-- Gives an option its value. -/
def assign (line : CommandLine) (setting : Setting) (text : String) :
    Except UsageError CommandLine :=
  match line.markGiven (.setting setting) with
  | .error fault => .error fault
  | .ok line =>
    match line.options.assign setting text with
    | .error fault => .error fault
    | .ok options => .ok { line with options }

/-- Gives the last option its value, if it still waits to be looked at. -/
def settle (line : CommandLine) : Except UsageError CommandLine :=
  match line.pending with
  | none => .ok line
  | some (_, none) => .error .missingValue
  | some (setting, some text) => { line with pending := none }.assign setting text

/-- Understands a switch. -/
def turnOn (line : CommandLine) (switch : Switch) : Except UsageError CommandLine :=
  match line.settle with
  | .error fault => .error fault
  | .ok line =>
    match line.markGiven (.switch switch) with
    | .error fault => .error fault
    | .ok line =>
      match line.options.turnOn switch with
      | .error fault => .error fault
      | .ok options => .ok { line with options }

/-- Understands an option whose value is attached, or comes next. -/
def set (line : CommandLine) (setting : Setting) (attached : Option String) :
    Except UsageError CommandLine :=
  match line.settle with
  | .error fault => .error fault
  | .ok line =>
    match attached with
    | some text => line.assign setting text
    | none => .ok { line with pending := some (setting, none) }

/-- Understands a long option, written behind two hyphens: its name, and behind
an equals sign its value. -/
def readLong (line : CommandLine) (text : List Char) : Except UsageError CommandLine :=
  let name := String.ofList (text.takeWhile (· != '='))
  let attached :=
    match text.dropWhile (· != '=') with
    | [] => none
    | _ :: value => some (String.ofList value)
  match OptionKey.ofName? name with
  | none => .error .unknownArgument
  | some (.setting setting) => line.set setting attached
  | some (.switch switch) =>
    match attached with
    | none => line.turnOn switch
    | some _ => .error .unexpectedValue

/-- The value attached to an option of one letter, perhaps behind an equals
sign. -/
def attachedToLetter : List Char → Option String
  | [] => none
  | '=' :: value => some (String.ofList value)
  | value => some (String.ofList value)

/-- Understands options of one letter, written together behind one hyphen. The
first that takes a value takes all that is left. -/
def readLetters (line : CommandLine) : List Char → Except UsageError CommandLine
  | [] => .ok line
  | letter :: rest =>
    match OptionKey.ofLetter? letter with
    | none => .error .unknownArgument
    | some (.setting setting) => line.set setting (attachedToLetter rest)
    | some (.switch switch) =>
      match line.turnOn switch with
      | .error fault => .error fault
      | .ok line => line.readLetters rest

/-- Understands a word that is no option: the value of the last option, if that
waits for one. -/
def readValue (line : CommandLine) (word : String) : Except UsageError CommandLine :=
  match line.pending with
  | some (setting, none) => .ok { line with pending := some (setting, some word) }
  | _ => .error .unknownArgument

/-- Understands one word. -/
def readWord (line : CommandLine) (word : String) : Except UsageError CommandLine :=
  match word.toList with
  | '-' :: '-' :: text => line.readLong text
  | '-' :: letter :: rest => line.readLetters (letter :: rest)
  | _ => line.readValue word

/-- Understands all words. Behind two hyphens alone no word is an option, so
nothing may follow them. -/
def read (line : CommandLine) : List String → Except UsageError CommandLine
  | [] => line.settle
  | word :: words =>
    if word = "--" then
      if words.isEmpty then line.settle else .error .unknownArgument
    else
      match line.readWord word with
      | .error fault => .error fault
      | .ok line => line.read words

end CommandLine

/-- The options that the words of a command line give. -/
def Options.parse (words : List String) : Except UsageError Options :=
  match CommandLine.read {} words with
  | .error fault => .error fault
  | .ok line => .ok line.options

end OrderStore
