import OrderStore.Proofs.Optimistic.Copies
import OrderStore.Proofs.Tally

/-!
# Claims without overwriting

As long as no call may overwrite, the position only ever moves forward. The
claimed rooms then lie one behind the other and fill everything below the
position, and what each thread has claimed is what its calls have reported as
written, except for the call that it is in.
-/

namespace OrderStore

/-- Whether a call began that may overwrite. -/
def Event.overwrites : Event → Bool
  | start request => request.wraps
  | _ => false

/-- No thread has asked for an overwriting append. -/
def NoRing (history : History) : Prop := ∀ entry ∈ history, entry.2.overwrites = false

instance (history : History) : Decidable (NoRing history) :=
  inferInstanceAs (Decidable (∀ entry ∈ history, entry.2.overwrites = false))

theorem NoRing.of_cons {history : History} {entry : Nat × Event}
    (h : NoRing (entry :: history)) : NoRing history :=
  fun other hmem => h other (List.mem_cons_of_mem _ hmem)

/-- A thread is not in an overwriting call. -/
def Thread.Plain (thread : Thread) : Prop :=
  ∀ request w, thread = writing request w → request.wraps = false

namespace Thread

variable {b b' : OptimisticBuffer} {thread thread' : Thread} {event : Event}

/-- The request of a call does not change while the call goes on. -/
theorem Move.plain (h : Move b thread event b' thread') (hthread : thread.Plain)
    (hevent : event.overwrites = false) : thread'.Plain := by
  cases h with
  | start asked =>
    intro request w hcall
    cases asked with
    | append order =>
      obtain ⟨rfl, -⟩ := Thread.writing.inj hcall
      rfl
    | appendAll orders =>
      obtain ⟨rfl, -⟩ := Thread.writing.inj hcall
      rfl
    | appendRing order => cases hevent
    | read offset => cases hcall
  | @write request w event b' thread' hmove =>
    have hplain := hthread request w rfl
    intro request' w' hcall
    cases hmove with
    | wrote => cases hcall
    | _ =>
      obtain ⟨rfl, -⟩ := Thread.writing.inj hcall
      exact hplain
  | read hmove =>
    intro request w hcall
    cases hmove <;> cases hcall

/-- Only an overwriting call moves the position back. -/
theorem Move.not_rewind {capacity : Nat} (h : Move b thread event b' thread')
    (hfits : thread.Fits capacity) (hthread : thread.Plain) : event ≠ .rewind := by
  cases h with
  | start asked => nofun
  | @write request w event b' thread' hmove =>
    cases hmove with
    | rewind => exact absurd rfl (hfits.ne_rewind (hthread request _ rfl))
    | _ => nofun
  | read hmove => cases hmove <;> nofun

end Thread

/-- Without overwriting requests no thread is in an overwriting call. -/
theorem Setup.plain (c : Setup) (schedule : Schedule) (hring : NoRing (c.history schedule)) :
    ∀ u, ((c.system schedule).threads u).Plain := by
  revert hring
  apply c.invariant (motive := fun history s => NoRing history → ∀ u, (s.threads u).Plain)
  · intro _ u request w hthread
    cases hthread
  · intro earlier t event s' hplain hmoves hring u
    have hbefore := hplain hring.of_cons
    by_cases hu : u = t
    · subst hu
      exact hmoves.move.plain (hbefore u) (hring _ List.mem_cons_self)
    · rw [hmoves.others u hu]
      exact hbefore u

/-- Without overwriting requests the position only moves forward, when a thread
claims room. -/
theorem Setup.position_cases (c : Setup) {earlier : Schedule} {t : Nat} {event : Event}
    {s' : System} (hring : NoRing (c.history earlier))
    (hmoves : (c.system earlier).Moves t event s') :
    (s'.buffer.tracker.position = (c.system earlier).buffer.tracker.position ∧
        ∀ position orders, event ≠ .reserve position orders) ∨
      ∃ orders, event = .reserve (c.system earlier).buffer.tracker.position orders ∧
        orders ≠ [] ∧ s'.buffer.tracker.position =
          (c.system earlier).buffer.tracker.position + orders.length * recordSize := by
  have hfits := (c.sound earlier).2 t
  rcases hmoves.move.position_cases hfits with
    hsame | ⟨-, hrewind⟩ | ⟨orders, hevent, hne, -, hmoved⟩
  · exact Or.inl hsame
  · exact absurd hrewind (hmoves.move.not_rewind hfits (c.plain earlier hring t))
  · exact Or.inr ⟨orders, hevent, hne, hmoved⟩

/-! ## The claimed rooms -/

/-- The room that an event claimed: its offset, and the orders it is for. -/
def Event.claim? : Event → Option (Nat × List Order)
  | reserve position orders => some (position, orders)
  | _ => none

/-- The rooms that were claimed, the latest first. -/
def claims (history : History) : List (Nat × List Order) :=
  history.filterMap (·.2.claim?)

/-- Claimed rooms lie one behind the other and fill everything below `position`. -/
structure Tiled (claims : List (Nat × List Order)) (position : Nat) : Prop where
  /-- Each room lies behind those claimed before it. -/
  apart : claims.Pairwise fun a b => b.1 + b.2.length * recordSize ≤ a.1
  /-- Each room starts on a slot and is for at least one order. -/
  aligned : ∀ claim ∈ claims, claim.1 % recordSize = 0 ∧ claim.2 ≠ []
  /-- No room ends behind the position. -/
  le_position : ∀ claim ∈ claims, claim.1 + claim.2.length * recordSize ≤ position
  /-- Every byte below the position lies in a room. -/
  covers : ∀ x < position, ∃ claim ∈ claims, claim.1 ≤ x ∧
    x < claim.1 + claim.2.length * recordSize

/-- A room claimed at the position goes behind the others. -/
theorem Tiled.cons {earlier : List (Nat × List Order)} {position : Nat} (h : Tiled earlier position)
    {orders : List Order} (hposition : position % recordSize = 0) (horders : orders ≠ []) :
    Tiled ((position, orders) :: earlier) (position + orders.length * recordSize) where
  apart := List.pairwise_cons.mpr ⟨fun claim hclaim => h.le_position claim hclaim, h.apart⟩
  aligned := by
    intro claim hclaim
    rcases List.mem_cons.mp hclaim with rfl | hclaim
    · exact ⟨hposition, horders⟩
    · exact h.aligned claim hclaim
  le_position := by
    intro claim hclaim
    rcases List.mem_cons.mp hclaim with rfl | hclaim
    · exact Nat.le_refl _
    · exact Nat.le_trans (h.le_position claim hclaim) (Nat.le_add_right ..)
  covers := by
    intro x hx
    by_cases hbefore : x < position
    · obtain ⟨claim, hclaim, hcovers⟩ := h.covers x hbefore
      exact ⟨claim, List.mem_cons_of_mem _ hclaim, hcovers⟩
    · exact ⟨_, List.mem_cons_self, by dsimp only; omega, hx⟩

/-- Without overwriting requests, the claimed rooms fill everything below the
position. -/
theorem Setup.tiled (c : Setup) (schedule : Schedule) (hring : NoRing (c.history schedule)) :
    Tiled (claims (c.history schedule)) (c.system schedule).buffer.tracker.position := by
  revert hring
  apply c.invariant (motive := fun history s =>
    NoRing history → Tiled (claims history) s.buffer.tracker.position)
  · intro _
    exact ⟨List.Pairwise.nil, nofun, nofun, fun x hx => absurd hx (Nat.not_lt_zero x)⟩
  · intro earlier t event s' htiled hmoves hring
    rcases c.position_cases hring.of_cons hmoves with
      ⟨hsame, hevent⟩ | ⟨orders, rfl, hne, hmoved⟩
    · have hclaim : event.claim? = none := by
        cases event with
        | reserve position orders => exact absurd rfl (hevent position orders)
        | _ => rfl
      have hclaims : claims ((t, event) :: c.history earlier) = claims (c.history earlier) :=
        List.filterMap_cons_none hclaim
      rw [hclaims, hsame]
      exact htiled hring.of_cons
    · rw [hmoved]
      exact (htiled hring.of_cons).cons (c.sound earlier).1.aligned hne

/-! ## Claimed, written and reported orders -/

/-- The orders that an event claimed room for. -/
def Event.claimed : Event → List Order
  | reserve _ orders => orders
  | _ => []

/-- The orders that an event reported as written. -/
def Event.reported : Event → List Order
  | wrote request count => request.orders.take count
  | _ => []

/-- The orders of all events, from the oldest on, each with its thread. -/
def ordersOf (orders : Event → List Order) (history : History) : List (Nat × Order) :=
  history.reverse.flatMap fun entry => (orders entry.2).map (entry.1, ·)

theorem ordersOf_cons (orders : Event → List Order) (t : Nat) (event : Event)
    (history : History) :
    ordersOf orders ((t, event) :: history) =
      ordersOf orders history ++ (orders event).map (t, ·) :=
  tally_cons orders t event history

/-- How many records a call has claimed room for. -/
def WritePhase.claimed : WritePhase → Nat
  | copy _ count => count
  | finish count => count
  | done count => count
  | _ => 0

/-- The orders that a thread has claimed room for in the call that it is in. -/
def Thread.claimed : Thread → List Order
  | writing request w => request.orders.take w.phase.claimed
  | _ => []

@[simp] theorem WritePhase.claimed_attempt (retries : Nat) : (attempt retries).claimed = 0 := by
  cases retries <;> rfl

@[simp] theorem Request.claimed_call (b : OptimisticBuffer) (request : Request) :
    (request.call b).claimed = [] := by
  cases request with
  | appendAll orders =>
    change List.take (WriteCall.batch _ _).phase.claimed _ = []
    unfold WriteCall.batch
    dsimp only
    split <;> rfl
  | appendRing order =>
    change List.take (WriteCall.ring _ _).phase.claimed _ = []
    unfold WriteCall.ring
    dsimp only
    split <;> rfl
  | _ => rfl

/-- What a thread claims, it reports when its call returns. -/
theorem Thread.Move.claimed {b b' : OptimisticBuffer} {thread thread' : Thread} {event : Event}
    (h : Move b thread event b' thread') :
    thread.claimed ++ event.claimed = event.reported ++ thread'.claimed := by
  cases h with
  | start asked => exact (asked.claimed_call b).symm
  | @write request w event b' thread' hmove =>
    cases hmove with
    | begin | rewind_lose hmoved | reserve_lose hmoved =>
      change request.orders.take 0 ++ [] =
        [] ++ request.orders.take (WritePhase.attempt _).claimed
      rw [WritePhase.claimed_attempt, List.append_nil, List.nil_append]
    | _ => simp [Thread.claimed, Event.claimed, Event.reported, WritePhase.claimed]
  | read hmove => cases hmove <;> rfl

/-- A thread has claimed room for what it has reported, and for what the call that
it is in will report. -/
theorem Setup.claimed_balanced (c : Setup) (schedule : Schedule) :
    Balanced Event.claimed Event.reported (fun u => ((c.system schedule).threads u).claimed)
      (c.history schedule) := by
  apply c.invariant (motive := fun history s =>
    Balanced Event.claimed Event.reported (fun u => (s.threads u).claimed) history)
  · exact .nil fun _ => rfl
  · intro earlier t event s' hbalanced hmoves
    exact hbalanced.cons hmoves.move.claimed fun u hu => by rw [hmoves.others u hu]

/-- When no call is under way, every claimed order has been reported, each as
often as it was claimed. -/
theorem Setup.claimed_perm_reported (c : Setup) (schedule : Schedule)
    (hidle : ∀ u, (c.system schedule).threads u = .idle) :
    (ordersOf Event.claimed (c.history schedule)).Perm
      (ordersOf Event.reported (c.history schedule)) :=
  (c.claimed_balanced schedule).perm fun u => by rw [hidle u]; rfl

/-! ## Claimed slots -/

/-- The orders for which room was claimed, from the oldest claim on. -/
def claimedOrders (history : History) : List Order :=
  (ordersOf Event.claimed history).map Prod.snd

theorem claimedOrders_cons (t : Nat) (event : Event) (history : History) :
    claimedOrders ((t, event) :: history) = claimedOrders history ++ event.claimed := by
  rw [claimedOrders, ordersOf_cons, List.map_append, List.map_map]
  congr 1
  exact List.map_id _

namespace Setup

variable (c : Setup) (schedule : Schedule)

/-- Without overwriting requests there is a slot for each claimed order, and the
orders of one claim have the slots behind its offset. -/
theorem claimed_slots (hring : NoRing (c.history schedule)) :
    (c.system schedule).buffer.tracker.position =
        (claimedOrders (c.history schedule)).length * recordSize ∧
      ∀ u position orders, (u, .reserve position orders) ∈ c.history schedule →
        ∃ before after, claimedOrders (c.history schedule) = before ++ orders ++ after ∧
          position = before.length * recordSize := by
  revert hring
  apply c.invariant (motive := fun history s => NoRing history →
    s.buffer.tracker.position = (claimedOrders history).length * recordSize ∧
      ∀ u position orders, (u, .reserve position orders) ∈ history →
        ∃ before after, claimedOrders history = before ++ orders ++ after ∧
          position = before.length * recordSize)
  · intro _
    exact ⟨(Nat.zero_mul _).symm, nofun⟩
  · intro earlier t event s' hslots hmoves hring
    obtain ⟨hposition, hclaims⟩ := hslots hring.of_cons
    have hold : ∀ u position orders, (u, .reserve position orders) ∈ c.history earlier →
        ∃ before after, claimedOrders ((t, event) :: c.history earlier) =
          before ++ orders ++ after ∧ position = before.length * recordSize := by
      intro u position orders hmem
      obtain ⟨before, after, hsplit, hstart⟩ := hclaims u position orders hmem
      refine ⟨before, after ++ event.claimed, ?_, hstart⟩
      rw [claimedOrders_cons, hsplit, List.append_assoc _ after]
    rcases c.position_cases hring.of_cons hmoves with
      ⟨hsame, hevent⟩ | ⟨orders, rfl, hne, hmoved⟩
    · constructor
      · have hnone : event.claimed = [] := by
          cases event with
          | reserve position orders => exact absurd rfl (hevent position orders)
          | _ => rfl
        rw [hsame, claimedOrders_cons, hnone, List.append_nil, hposition]
      · intro u position orders hmem
        rcases List.mem_cons.mp hmem with heq | hmem
        · exact absurd (Prod.mk.inj heq).2.symm (hevent position orders)
        · exact hold u position orders hmem
    · constructor
      · rw [hmoved, claimedOrders_cons, List.length_append, Nat.add_mul, hposition]
        rfl
      · intro u position others hmem
        rcases List.mem_cons.mp hmem with heq | hmem
        · obtain ⟨rfl, rfl⟩ := Event.reserve.inj (Prod.mk.inj heq).2
          refine ⟨claimedOrders (c.history earlier), [], ?_, hposition⟩
          rw [claimedOrders_cons, List.append_nil]
          rfl
        · exact hold u position others hmem

/-- Without overwriting requests, orders are copied into their own slots. -/
theorem copied_slots (hring : NoRing (c.history schedule)) :
    ∀ landing ∈ copies (c.history schedule), ∃ i, landing.1 = i * recordSize ∧
      (claimedOrders (c.history schedule))[i]? = some landing.2 := by
  revert hring
  apply c.invariant (motive := fun history _ => NoRing history →
    ∀ landing ∈ copies history, ∃ i, landing.1 = i * recordSize ∧
      (claimedOrders history)[i]? = some landing.2)
  · intro _ landing hmem
    cases hmem
  · intro earlier t event s' hcopies hmoves hring landing hlanding
    have hkeep {i : Nat} {order : Order}
        (hget : (claimedOrders (c.history earlier))[i]? = some order) :
        (claimedOrders ((t, event) :: c.history earlier))[i]? = some order := by
      obtain ⟨hi, -⟩ := List.getElem?_eq_some_iff.mp hget
      rw [claimedOrders_cons, List.getElem?_append_left hi, hget]
    rw [copies_cons] at hlanding
    rcases List.mem_append.mp hlanding with hold | hnew
    · obtain ⟨i, hoffset, hget⟩ := hcopies hring.of_cons landing hold
      exact ⟨i, hoffset, hkeep hget⟩
    · rcases hmoves.move.arena_cases ((c.sound earlier).2 t) with
        ⟨-, hnone⟩ | ⟨position, orders, rfl, hcopying, -, -⟩
      · rw [hnone] at hnew
        cases hnew
      · have hclaim := c.claimed_of_copying earlier t position orders hcopying
        obtain ⟨before, after, hsplit, rfl⟩ :=
          (c.claimed_slots earlier hring.of_cons).2 t position orders hclaim
        obtain ⟨i, hget, hoffset⟩ := mem_landingsFrom_iff.mp hnew
        refine ⟨before.length + i, ?_, hkeep ?_⟩
        · rw [hoffset, Nat.add_mul]
        · obtain ⟨hi, -⟩ := List.getElem?_eq_some_iff.mp hget
          rw [hsplit, List.append_assoc, List.getElem?_append_right (Nat.le_add_right ..),
            Nat.add_sub_cancel_left, List.getElem?_append_left hi, hget]

end Setup

end OrderStore
