import OrderStore.Config.Text
import OrderStore.Proofs.Json.Schema

/-!
# Configurations are read back

A text may give any of the fields of a configuration, in any order and among members of
which the program knows nothing. What is given is described apart from the reader, as a
record with a place for each field that holds the value or nothing. The members of an object
are taken off one by one: the first sets its field, and what the others give is the same
with this field left open. The object that a configuration is rendered as gives everything.
-/

namespace OrderStore

open Json

/-! ## Retry policies -/

namespace RetryPolicy

/-- What a text may say about a retry policy. -/
structure Given where
  /-- The failed claims that are retried at once. -/
  spinRetries : Option UInt32 := none
  /-- How often a write tries. -/
  maxAttempts : Option UInt32 := none
  /-- How often a read starts over. -/
  readRetries : Option UInt32 := none
  /-- The sleep per attempt. -/
  backoffStepNanos : Option UInt64 := none

namespace Given

/-- The policy with the given values, and with the default where there is none. -/
def policy (given : Given) : RetryPolicy where
  spinRetries := given.spinRetries.getD 10
  maxAttempts := given.maxAttempts.getD 100
  readRetries := given.readRetries.getD 10
  backoffStepNanos := given.backoffStepNanos.getD 1000

/-- Just this and nothing else is said about a retry policy by the members of an object. -/
structure IsSaidBy (given : Given) (members : List (String × List Char)) : Prop where
  spinRetries : Says members "spin_retries" (fun text n => IsNatural text n.toNat)
    given.spinRetries
  maxAttempts : Says members "max_attempts" (fun text n => IsNatural text n.toNat)
    given.maxAttempts
  readRetries : Says members "read_retries" (fun text n => IsNatural text n.toNat)
    given.readRetries
  backoffStepNanos : Says members "backoff_step_nanos" (fun text n => IsNatural text n.toNat)
    given.backoffStepNanos
  others : ∀ member ∈ members, member.1 ∉ ["spin_retries", "max_attempts", "read_retries",
    "backoff_step_nanos"] → IsValue member.2

/-- The given values in place of those of a policy. -/
def onto (given : Given) (p : RetryPolicy) : RetryPolicy where
  spinRetries := given.spinRetries.getD p.spinRetries
  maxAttempts := given.maxAttempts.getD p.maxAttempts
  readRetries := given.readRetries.getD p.readRetries
  backoffStepNanos := given.backoffStepNanos.getD p.backoffStepNanos

/-- The same with the field of a key left open. -/
def without (given : Given) (key : String) : Given where
  spinRetries := if key = "spin_retries" then none else given.spinRetries
  maxAttempts := if key = "max_attempts" then none else given.maxAttempts
  readRetries := if key = "read_retries" then none else given.readRetries
  backoffStepNanos := if key = "backoff_step_nanos" then none else given.backoffStepNanos

end Given

variable {given : Given} {members : List (String × List Char)} {key name : String}
  {text : List Char}

theorem wordField_takes {set : RetryPolicy → UInt32 → RetryPolicy} {n : UInt32} :
    IsNatural text n.toNat → (wordField name set).Takes text (set · n) :=
  Field.takes_word UInt32.toNat UInt32.ofNat set (fun _ _ => rfl) (by decide) n.toNat_lt_size
    UInt32.ofNat_toNat

/-- The first member sets its field, and no other member does. -/
theorem Given.IsSaidBy.head (h : given.IsSaidBy ((key, text) :: members)) :
    schema.Peels key text members given.onto (given.without key).onto := by
  by_cases hspin : key = "spin_retries"
  · subst hspin
    exact .field rfl wordField_takes h.spinRetries fun n hn p => by simp [onto, without, hn]
  by_cases hmax : key = "max_attempts"
  · subst hmax
    exact .field rfl wordField_takes h.maxAttempts fun n hn p => by simp [onto, without, hn]
  by_cases hread : key = "read_retries"
  · subst hread
    exact .field rfl wordField_takes h.readRetries fun n hn p => by simp [onto, without, hn]
  by_cases hbackoff : key = "backoff_step_nanos"
  · subst hbackoff
    let set (p : RetryPolicy) (n : UInt64) : RetryPolicy := { p with backoffStepNanos := n }
    exact .field rfl (Field.takes_word UInt64.toNat UInt64.ofNat set (fun _ _ => rfl)
      (Nat.le_refl _) (UInt64.toNat_lt_size _) UInt64.ofNat_toNat) h.backoffStepNanos
      fun n hn p => by simp [onto, without, set, hn]
  have hunknown : schema.find? (·.name = key) = none := by
    simp [schema, wordField, Ne.symm hspin, Ne.symm hmax, Ne.symm hread, Ne.symm hbackoff]
  have hvalue : IsValue text := h.others _ List.mem_cons_self (by simp [hspin, hmax, hread,
    hbackoff])
  have hwithout : given.without key = given := by simp [without, hspin, hmax, hread, hbackoff]
  rw [hwithout]
  exact .other hunknown hvalue

/-- The other members say the rest. -/
theorem Given.IsSaidBy.tail (h : given.IsSaidBy ((key, text) :: members)) :
    (given.without key).IsSaidBy members where
  spinRetries := h.spinRetries.tail
  maxAttempts := h.maxAttempts.tail
  readRetries := h.readRetries.tail
  backoffStepNanos := h.backoffStepNanos.tail
  others member hmember := h.others member (List.mem_cons_of_mem _ hmember)

/-- Reading the members puts the given values in place. -/
theorem Given.IsSaidBy.gives (h : given.IsSaidBy members) : schema.Gives members given.onto := by
  induction members generalizing given with
  | nil =>
    have honto : given.onto = id := funext fun p => by
      simp [onto, h.spinRetries.nil, h.maxAttempts.nil, h.readRetries.nil, h.backoffStepNanos.nil]
    rw [honto]
    exact .nil
  | cons member members ih =>
    exact h.head.gives (ih h.tail)

theorem Given.onto_default (given : Given) : given.onto {} = given.policy := rfl

/-- Everything that a policy holds. -/
def Given.all (p : RetryPolicy) : Given where
  spinRetries := some p.spinRetries
  maxAttempts := some p.maxAttempts
  readRetries := some p.readRetries
  backoffStepNanos := some p.backoffStepNanos

/-- The members that a policy is rendered with. -/
def fields (p : RetryPolicy) : List (String × List Char) := [
  ("spin_retries", (toString p.spinRetries).toList),
  ("max_attempts", (toString p.maxAttempts).toList),
  ("read_retries", (toString p.readRetries).toList),
  ("backoff_step_nanos", (toString p.backoffStepNanos).toList)]

theorem Given.isSaidBy_fields (p : RetryPolicy) : (all p).IsSaidBy p.fields where
  spinRetries := ⟨(toString p.spinRetries).toList, by simp [textsOf, RetryPolicy.fields],
    isNatural_repr _⟩
  maxAttempts := ⟨(toString p.maxAttempts).toList, by simp [textsOf, RetryPolicy.fields],
    isNatural_repr _⟩
  readRetries := ⟨(toString p.readRetries).toList, by simp [textsOf, RetryPolicy.fields],
    isNatural_repr _⟩
  backoffStepNanos := ⟨(toString p.backoffStepNanos).toList, by simp [textsOf, RetryPolicy.fields],
    isNatural_repr _⟩
  others member hmember hunknown := by
    simp only [RetryPolicy.fields, List.mem_cons, List.not_mem_nil, or_false] at hmember
    rcases hmember with rfl | rfl | rfl | rfl <;> simp at hunknown

/-- A rendered policy is an object of just its fields. -/
theorem isObject_render (p : RetryPolicy) : IsObject p.fields p.render.toList := by
  have hmembers : AreMembers p.fields _ :=
    .cons (isMember_rendered (by simp [IsPlain])) (.cons (isMember_rendered (by simp [IsPlain]))
      (.cons (isMember_rendered (by simp [IsPlain]))
        (.last (isMember_rendered (by simp [IsPlain])))))
  have hobject := IsObject.filled hmembers
  have hstring (s : String) : toString s = s := rfl
  unfold render
  simp only [String.toList_append, hstring]
  simpa using hobject

end RetryPolicy

/-! ## Configurations -/

namespace StoreConfig

/-- What a text may say about a configuration. -/
structure Given where
  /-- The size of the store. -/
  capacity : Option UInt64 := none
  /-- The number of segments. -/
  segmentCount : Option UInt64 := none
  /-- What is said about the retry limits. -/
  optimistic : Option RetryPolicy.Given := none

namespace Given

/-- The configuration with the given values, and with the default where there is none. -/
def config (given : Given) : StoreConfig where
  capacity := given.capacity.getD 1048576
  segmentCount := given.segmentCount.getD 16
  optimistic := (given.optimistic.getD {}).policy

/-- Just this and nothing else is said about a configuration by the members of an object. -/
structure IsSaidBy (given : Given) (members : List (String × List Char)) : Prop where
  capacity : Says members "capacity" (fun text n => IsNatural text n.toNat) given.capacity
  segmentCount : Says members "segment_count" (fun text n => IsNatural text n.toNat)
    given.segmentCount
  optimistic : Says members "optimistic"
    (fun text retry => ∃ members, IsObject members text ∧ retry.IsSaidBy members)
    given.optimistic
  others : ∀ member ∈ members, member.1 ∉ ["capacity", "segment_count", "optimistic"] →
    IsValue member.2

/-- The given values in place of those of a configuration. -/
def onto (given : Given) (c : StoreConfig) : StoreConfig where
  capacity := given.capacity.getD c.capacity
  segmentCount := given.segmentCount.getD c.segmentCount
  optimistic := (given.optimistic.map RetryPolicy.Given.policy).getD c.optimistic

/-- The same with the field of a key left open. -/
def without (given : Given) (key : String) : Given where
  capacity := if key = "capacity" then none else given.capacity
  segmentCount := if key = "segment_count" then none else given.segmentCount
  optimistic := if key = "optimistic" then none else given.optimistic

end Given

variable {given : Given} {members : List (String × List Char)} {key name : String}
  {text : List Char}

theorem wordField_takes {set : StoreConfig → UInt64 → StoreConfig} {n : UInt64} :
    IsNatural text n.toNat → (wordField name set).Takes text (set · n) :=
  Field.takes_word UInt64.toNat UInt64.ofNat set (fun _ _ => rfl) (Nat.le_refl _) n.toNat_lt_size
    UInt64.ofNat_toNat

/-- The inner object is read from the defaults, not from what was there. -/
theorem optimistic_takes {field : Json.Field StoreConfig} {retry : RetryPolicy.Given}
    (hread : ∀ c text, field.read c text =
      match RetryPolicy.schema.read {} text with
      | .ok (optimistic, rest) => .ok ({ c with optimistic }, rest)
      | .error fault => .error fault)
    (h : ∃ inner, IsObject inner text ∧ retry.IsSaidBy inner) :
    field.Takes text fun c => { c with optimistic := retry.policy } := by
  obtain ⟨inner, hobject, hsaid⟩ := h
  intro c blanks rest hblanks _
  simp only [hread, Schema.read_isObject hblanks hobject hsaid.gives,
    RetryPolicy.Given.onto_default]

/-- The first member sets its field, and no other member does. -/
theorem Given.IsSaidBy.head (h : given.IsSaidBy ((key, text) :: members)) :
    schema.Peels key text members given.onto (given.without key).onto := by
  by_cases hcapacity : key = "capacity"
  · subst hcapacity
    exact .field rfl wordField_takes h.capacity fun n hn c => by simp [onto, without, hn]
  by_cases hcount : key = "segment_count"
  · subst hcount
    exact .field rfl wordField_takes h.segmentCount fun n hn c => by simp [onto, without, hn]
  by_cases hoptimistic : key = "optimistic"
  · subst hoptimistic
    exact .field rfl (optimistic_takes fun _ _ => rfl) h.optimistic fun retry hretry c => by
      simp [onto, without, hretry]
  have hunknown : schema.find? (·.name = key) = none := by
    simp [schema, wordField, Ne.symm hcapacity, Ne.symm hcount, Ne.symm hoptimistic]
  have hvalue : IsValue text := h.others _ List.mem_cons_self (by simp [hcapacity, hcount,
    hoptimistic])
  have hwithout : given.without key = given := by simp [without, hcapacity, hcount, hoptimistic]
  rw [hwithout]
  exact .other hunknown hvalue

/-- The other members say the rest. -/
theorem Given.IsSaidBy.tail (h : given.IsSaidBy ((key, text) :: members)) :
    (given.without key).IsSaidBy members where
  capacity := h.capacity.tail
  segmentCount := h.segmentCount.tail
  optimistic := h.optimistic.tail
  others member hmember := h.others member (List.mem_cons_of_mem _ hmember)

/-- Reading the members puts the given values in place. -/
theorem Given.IsSaidBy.gives (h : given.IsSaidBy members) : schema.Gives members given.onto := by
  induction members generalizing given with
  | nil =>
    have honto : given.onto = id := funext fun c => by
      simp [onto, h.capacity.nil, h.segmentCount.nil, h.optimistic.nil]
    rw [honto]
    exact .nil
  | cons member members ih =>
    exact h.head.gives (ih h.tail)

theorem Given.onto_default (given : Given) : given.onto {} = given.config := by
  have hretry : (given.optimistic.map RetryPolicy.Given.policy).getD {} =
      (given.optimistic.getD {}).policy := by
    cases given.optimistic <;> rfl
  simp only [onto, config, hretry]

/-- An object is read as the configuration that it gives. -/
theorem parse_of_isSaidBy {whole : String} {blanks object blanks' : List Char}
    (hblanks : Blanks blanks) (hobject : IsObject members object) (h : given.IsSaidBy members)
    (hblanks' : Blanks blanks') (htext : whole.toList = blanks ++ (object ++ blanks')) :
    parse whole = .ok given.config := by
  rw [parse, Schema.parse_isObject hblanks hobject h.gives hblanks' htext, Given.onto_default]

/-- Everything that a configuration holds. -/
def Given.all (c : StoreConfig) : Given where
  capacity := some c.capacity
  segmentCount := some c.segmentCount
  optimistic := some (.all c.optimistic)

/-- The members that a configuration is rendered with. -/
def fields (c : StoreConfig) : List (String × List Char) := [
  ("capacity", (toString c.capacity).toList),
  ("segment_count", (toString c.segmentCount).toList),
  ("optimistic", c.optimistic.render.toList)]

theorem Given.isSaidBy_fields (c : StoreConfig) : (all c).IsSaidBy c.fields where
  capacity := ⟨(toString c.capacity).toList, by simp [textsOf, StoreConfig.fields],
    isNatural_repr _⟩
  segmentCount := ⟨(toString c.segmentCount).toList, by simp [textsOf, StoreConfig.fields],
    isNatural_repr _⟩
  optimistic := ⟨_, by simp [textsOf, StoreConfig.fields], _, c.optimistic.isObject_render,
    RetryPolicy.Given.isSaidBy_fields _⟩
  others member hmember hunknown := by
    simp only [StoreConfig.fields, List.mem_cons, List.not_mem_nil, or_false] at hmember
    rcases hmember with rfl | rfl | rfl <;> simp at hunknown

/-- A rendered configuration is an object of just its fields. -/
theorem isObject_render (c : StoreConfig) : IsObject c.fields c.render.toList := by
  have hmembers : AreMembers c.fields _ :=
    .cons (isMember_rendered (by simp [IsPlain])) (.cons (isMember_rendered (by simp [IsPlain]))
      (.last (isMember_rendered (by simp [IsPlain]))))
  have hobject := IsObject.filled hmembers
  have hstring (s : String) : toString s = s := rfl
  unfold render
  simp only [String.toList_append, hstring]
  simpa using hobject

/-- A configuration is read back from its own text; and from any text of an object that
gives some of the fields the given values are read, with the default for every other field. -/
theorem parse_recovers :
    (∀ c : StoreConfig, parse c.render = .ok c) ∧
      ∀ (given : Given) (members : List (String × List Char)) (text : String)
        (blanks object blanks' : List Char), Blanks blanks → Blanks blanks' →
        text.toList = blanks ++ (object ++ blanks') → IsObject members object →
        given.IsSaidBy members → parse text = .ok given.config := by
  constructor
  · intro c
    have hnone : Blanks [] := by simp [Blanks]
    exact parse_of_isSaidBy hnone c.isObject_render (Given.isSaidBy_fields c) hnone (by simp)
  · intro given members text blanks object blanks' hblanks hblanks' htext hobject hsaid
    exact parse_of_isSaidBy hblanks hobject hsaid hblanks' htext

/-- With an escaped key, blanks, a member that is not known and a policy of one field. -/
theorem parse_recovers_partial :
    parse (" \x7b\"\\u0063apacity\" : 128,\n\"note\":[-1.5e3,\x7b\x7d]," ++
        "\"optimistic\":\x7b\"read_retries\":3\x7d\x7d ") =
      .ok { capacity := 128, optimistic := { readRetries := 3 } } := by
  have hnone : Blanks [] := by simp [Blanks]
  have hspace : Blanks [' '] := by simp [Blanks, isBlank]
  have hline : Blanks ['\n'] := by simp [Blanks, isBlank]
  have hletter : IsUnit ['0', '0', '6', '3'] (16 * (16 * (16 * 0 + 0) + 6) + 3) :=
    .mk rfl rfl rfl rfl
  have hothers : Spells ['a', 'p', 'a', 'c', 'i', 't', 'y'] ['a', 'p', 'a', 'c', 'i', 't', 'y'] :=
    .refl (by simp [IsPlain])
  have hspells : Spells _ "capacity".toList := .unit hletter (by decide) hothers
  have hcapacity : IsMember "capacity" ['1', '2', '8'] _ :=
    .mk hnone hspells hspace hspace hnone
  have hnumber : IsNumber _ := .mk (List.mem_cons_of_mem _ List.mem_cons_self)
    (.positive rfl (by decide) (by simp [isDigit]) : IsInteger ['1'])
    (.present (by simp [Digits, isDigit]) : IsFraction ['.', '5'])
    (.present List.mem_cons_self List.mem_cons_self (by simp [Digits, isDigit]) :
      IsExponent ['e', '3'])
  obtain ⟨_, hvalue, rfl⟩ : ∃ text, IsValue text ∧ text = "[-1.5e3,\x7b\x7d]".toList :=
    ⟨_, .array (.moreItems (.item hnone (.number hnumber) hnone)
      (.lastItem (.item hnone (.emptyObject hnone) hnone))), rfl⟩
  have hnote : IsMember "note" "[-1.5e3,\x7b\x7d]".toList _ :=
    .mk hline (.refl (by simp [IsPlain])) hnone hnone hnone
  obtain ⟨_, hretry, rfl⟩ : ∃ text, IsObject [("read_retries", ['3'])] text ∧
      text = "\x7b\"read_retries\":3\x7d".toList :=
    ⟨_, .filled (.last (isMember_rendered (by simp [IsPlain]))), rfl⟩
  have hoptimistic : IsMember "optimistic" "\x7b\"read_retries\":3\x7d".toList _ :=
    isMember_rendered (by simp [IsPlain])
  refine parse_recovers.2 { capacity := some 128, optimistic := some { readRetries := some 3 } }
    _ _ _ _ _ hspace hspace ?_ (.filled (.cons hcapacity (.cons hnote (.last hoptimistic)))) ?_
  · rfl
  · exact {
      capacity := ⟨_, rfl, .positive rfl (by decide) (by simp [isDigit]), rfl⟩
      segmentCount := rfl
      optimistic := ⟨_, rfl, _, hretry, {
        spinRetries := rfl
        maxAttempts := rfl
        readRetries := ⟨_, rfl, .positive rfl (by decide) (by simp [isDigit]), rfl⟩
        backoffStepNanos := rfl
        others := by simp }⟩
      others := by simpa using hvalue }

end StoreConfig

end OrderStore
