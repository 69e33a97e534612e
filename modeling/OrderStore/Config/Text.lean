import OrderStore.Config.Basic
import OrderStore.Json.Schema

/-!
# Configurations as text

A configuration is read from JSON in which anything may be left out, and
written as JSON in which everything stands, without blanks.
-/

namespace OrderStore

namespace RetryPolicy

/-- A field that holds a word of 32 bits. -/
def wordField (name : String) (set : RetryPolicy → UInt32 → RetryPolicy) :
    Json.Field RetryPolicy where
  name := name
  read policy text :=
    match Json.readNatural UInt32.size text with
    | .ok (n, rest) => .ok (set policy (UInt32.ofNat n), rest)
    | .error fault => .error fault

/-- The fields of a retry policy. -/
def schema : Json.Schema RetryPolicy := [
  wordField "spin_retries" fun policy n => { policy with spinRetries := n },
  wordField "max_attempts" fun policy n => { policy with maxAttempts := n },
  wordField "read_retries" fun policy n => { policy with readRetries := n },
  { name := "backoff_step_nanos"
    read := fun policy text =>
      match Json.readNatural UInt64.size text with
      | .ok (n, rest) => .ok ({ policy with backoffStepNanos := UInt64.ofNat n }, rest)
      | .error fault => .error fault }]

/-- The retry policy that a text holds. -/
def parse (text : String) : Except Json.Fault RetryPolicy := schema.parse {} text

/-- The retry policy as an object. -/
def render (p : RetryPolicy) : String :=
  s!"\x7b\"spin_retries\":{p.spinRetries},\"max_attempts\":{p.maxAttempts}," ++
    s!"\"read_retries\":{p.readRetries},\"backoff_step_nanos\":{p.backoffStepNanos}\x7d"

end RetryPolicy

namespace StoreConfig

/-- A field that holds a word of 64 bits. -/
def wordField (name : String) (set : StoreConfig → UInt64 → StoreConfig) :
    Json.Field StoreConfig where
  name := name
  read config text :=
    match Json.readNatural UInt64.size text with
    | .ok (n, rest) => .ok (set config (UInt64.ofNat n), rest)
    | .error fault => .error fault

/-- The fields of a configuration. -/
def schema : Json.Schema StoreConfig := [
  wordField "capacity" fun config n => { config with capacity := n },
  wordField "segment_count" fun config n => { config with segmentCount := n },
  { name := "optimistic"
    read := fun config text =>
      match RetryPolicy.schema.read {} text with
      | .ok (optimistic, rest) => .ok ({ config with optimistic }, rest)
      | .error fault => .error fault }]

/-- The configuration that a text holds. -/
def parse (text : String) : Except Json.Fault StoreConfig := schema.parse {} text

/-- The configuration as an object. -/
def render (c : StoreConfig) : String :=
  s!"\x7b\"capacity\":{c.capacity},\"segment_count\":{c.segmentCount}," ++
    s!"\"optimistic\":{c.optimistic.render}\x7d"

end StoreConfig

end OrderStore
