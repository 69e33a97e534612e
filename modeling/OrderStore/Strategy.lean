import OrderStore.Config.Basic

/-!
# Strategies

The four ways in which calls on a store are kept apart, and the names they go
by.
-/

namespace OrderStore

/-- How concurrent calls on a store are kept apart. -/
inductive Strategy where
  /-- One lock around everything. -/
  | exclusive
  /-- Room claimed by compare-and-swap, reads checked by stamps. -/
  | optimistic
  /-- Readers together, writers alone. -/
  | readWrite
  /-- Segments with locks of their own. -/
  | segmented
deriving DecidableEq

namespace Strategy

/-- Every strategy in the order of reports. -/
def all : List Strategy := [exclusive, optimistic, readWrite, segmented]

/-- The strategy's own name. -/
def name : Strategy → String
  | exclusive => "exclusive"
  | optimistic => "optimistic"
  | readWrite => "read-write"
  | segmented => "segmented"

/-- Every name the strategy goes by, in lower case. -/
def names : Strategy → List String
  | exclusive => ["exclusive", "mutex", "synchronized"]
  | optimistic => ["optimistic", "cas"]
  | readWrite => ["read-write", "rw", "rwlock"]
  | segmented => ["segmented", "striped"]

/-- The strategy in one line. -/
def description : Strategy → String
  | exclusive => "single mutex serializing every read and write"
  | optimistic => "lock-free CAS offset reservation with version-stamped reads"
  | readWrite => "readers-writer lock: shared reads, exclusive writes"
  | segmented => "independently locked segments with round-robin writers"

/-- The strategy of that name, its ASCII letters in either case. -/
def ofName (name : String) : Except ConfigError Strategy :=
  match all.find? (name.toLower ∈ ·.names) with
  | some strategy => .ok strategy
  | none => .error (.unknownStrategy name)

/-- The strategies selected by a name, of which "all" selects every one. -/
def select (name : String) : Except ConfigError (List Strategy) :=
  if name.toLower = "all" then .ok all
  else
    match ofName name with
    | .ok strategy => .ok [strategy]
    | .error fault => .error fault

end Strategy

end OrderStore
