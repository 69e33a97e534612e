import OrderStore.Proofs.Optimistic.Stamps

/-!
# Who copied what

A claimed room has been copied by the call that claimed it, unless that call is
about to copy it right now, and every slot below the position lies in a claimed
room. And whatever the order of the steps, a slot holds the record of the order
that was copied into it last, since each copy is one step and lies within the
room that its call has claimed.
-/

namespace OrderStore

/-- Where the orders that an event copied have landed. -/
def Event.copied : Event → List (Nat × Order)
  | copyIn position orders => landingsFrom position orders
  | _ => []

/-- Where copied orders have landed, from the oldest on. -/
def copies (history : History) : List (Nat × Order) :=
  history.reverse.flatMap (·.2.copied)

theorem copies_cons (t : Nat) (event : Event) (history : History) :
    copies ((t, event) :: history) = copies history ++ event.copied := by
  simp [copies]

/-- Every order that was ever copied has landed on its slot. -/
theorem mem_copies {t position i : Nat} {orders : List Order} {history : History}
    (h : (t, .copyIn position orders) ∈ history) (hi : i < orders.length) :
    (position + i * recordSize, orders[i]) ∈ copies history := by
  unfold copies
  rw [List.mem_flatMap]
  exact ⟨_, List.mem_reverse.mpr h, mem_landingsFrom_iff.mpr
    ⟨i, List.getElem?_eq_getElem hi, rfl⟩⟩

/-- Whatever landed on an offset, something landed there last. -/
theorem exists_latest_of_mem {log : List (Nat × Order)} {landing : Nat × Order}
    (h : landing ∈ log) : ∃ order, latest log landing.1 = some order := by
  cases hlatest : latest log landing.1 with
  | some order => exact ⟨order, rfl⟩
  | none =>
    rw [latest, Option.map_eq_none_iff, List.find?_eq_none] at hlatest
    exact absurd (hlatest landing (List.mem_reverse.mpr h)) (by simp)

/-- A thread is about to copy `orders` into the room that it has claimed behind
`position`. -/
def Thread.Copying (position : Nat) (orders : List Order) (thread : Thread) : Prop :=
  ∃ request blocks wraps, thread = writing request ⟨blocks, wraps, .copy position orders.length⟩ ∧
    orders = request.orders.take orders.length

/-- Thread `u` claimed room behind `position` for `orders`, and what happened since
is `after`. -/
def ClaimedBefore (after history : History) (u position : Nat) (orders : List Order) : Prop :=
  ∃ before, history = after ++ (u, .reserve position orders) :: before

/-- In what happened since its claim, thread `u` copied `orders` into the room
behind `position`, in the same call. -/
def CopiedInCall (after : History) (u position : Nat) (orders : List Order) : Prop :=
  ∃ later between, after = later ++ (u, .copyIn position orders) :: between ∧
    ∀ request, (u, .start request) ∉ between

/-- The slot at `offset` is one of those that orders behind `position` take. -/
def Takes (position : Nat) (orders : List Order) (offset : Nat) : Prop :=
  ∃ i, i < orders.length ∧ offset = position + i * recordSize

theorem WritePhase.attempt_ne_copy (retries position count : Nat) :
    attempt retries ≠ copy position count := by
  cases retries <;> nofun

namespace Thread

variable {b b' : OptimisticBuffer} {thread thread' : Thread} {event : Event}

/-- A thread that is about to copy does so next. -/
theorem Move.event_of_copying {position : Nat} {orders : List Order}
    (h : Move b thread event b' thread') (hcopying : thread.Copying position orders) :
    event = .copyIn position orders := by
  obtain ⟨request, blocks, wraps, rfl, horders⟩ := hcopying
  cases h with
  | write hmove =>
    cases hmove
    rw [← horders]

/-- A thread comes to be about to copy by claiming room. -/
theorem Move.event_of_copying_next {position : Nat} {orders : List Order}
    (h : Move b thread event b' thread') (hcopying : thread'.Copying position orders) :
    event = .reserve position orders := by
  obtain ⟨request, blocks, wraps, hthread', horders⟩ := hcopying
  cases h with
  | start asked =>
    have hflight := asked.inFlight_call b
    rw [hthread'] at hflight
    cases hflight
  | write hmove =>
    cases hmove with
    | begin | rewind_lose hmoved | reserve_lose hmoved =>
      exact absurd (WriteCall.mk.inj (Thread.writing.inj hthread').2).2.2
        (WritePhase.attempt_ne_copy _ _ _)
    | reserve =>
      obtain ⟨rfl, hcall⟩ := Thread.writing.inj hthread'
      obtain ⟨rfl, rfl⟩ := WritePhase.copy.inj (WriteCall.mk.inj hcall).2.2
      rw [← horders]
    | _ => cases hthread'
  | read hmove => cases hmove <;> cases hthread'

/-- A move leaves the position alone, moves it back to zero or claims room. -/
theorem Move.position_cases {c : Setup} (hthread : thread.Fits c.capacity)
    (h : Move b thread event b' thread') :
    (b'.tracker.position = b.tracker.position ∧ ∀ position orders, event ≠ .reserve position orders) ∨
      (b'.tracker.position = 0 ∧ event = .rewind) ∨
      ∃ orders, event = .reserve b.tracker.position orders ∧ orders ≠ [] ∧
        thread'.Copying b.tracker.position orders ∧
        b'.tracker.position = b.tracker.position + orders.length * recordSize := by
  cases h with
  | start request => exact Or.inl ⟨rfl, nofun⟩
  | @write request w event b' thread' hmove =>
    cases hmove with
    | rewind => exact Or.inr (Or.inl ⟨rfl, rfl⟩)
    | @reserve blocks wraps retries count =>
      have hroom : Room _ _ _ _ := hthread.phase_fits
      have hlength := hthread.length_take hroom.le_length
      refine Or.inr (Or.inr ⟨_, rfl, ?_, ⟨request, blocks, wraps, ?_, ?_⟩, ?_⟩)
      · rw [← List.length_pos_iff, hlength]
        exact hroom.pos
      · rw [hlength]
      · rw [hlength]
      · rw [hlength]
        rfl
    | _ => exact Or.inl ⟨rfl, nofun⟩
  | read hmove => cases hmove <;> exact Or.inl ⟨rfl, nofun⟩

/-- A move leaves the bytes alone or copies orders into room within them. -/
theorem Move.arena_cases {c : Setup} (hthread : thread.Fits c.capacity)
    (h : Move b thread event b' thread') :
    (b'.arena = b.arena ∧ event.copied = []) ∨
      ∃ position orders, event = .copyIn position orders ∧ thread.Copying position orders ∧
        Room c.capacity (orders.map encode) position orders.length ∧
        b'.arena = b.arena.writeAll position (orders.map encode) := by
  cases h with
  | start request => exact Or.inl ⟨rfl, rfl⟩
  | @write request w event b' thread' hmove =>
    cases hmove with
    | @copyIn blocks wraps position count =>
      have hroom : Room _ _ _ _ := hthread.phase_fits
      have hlength := hthread.length_take hroom.le_length
      refine Or.inr ⟨position, _, rfl, ⟨request, blocks, wraps, ?_, ?_⟩, ?_, ?_⟩
      · rw [hlength]
      · rw [hlength]
      · refine ⟨hroom.aligned, ?_, ?_, ?_⟩
        · rw [hlength]
          exact hroom.pos
        · exact Nat.le_of_eq (List.length_map _).symm
        · rw [hlength]
          exact hroom.within
      · rw [← hthread.take_blocks hroom.le_length]
    | _ => exact Or.inl ⟨rfl, rfl⟩
  | read hmove => cases hmove <;> exact Or.inl ⟨rfl, rfl⟩

end Thread

/-- A slot is one that the orders take, or it lies before or behind them. -/
theorem takes_or_outside {position offset : Nat} (orders : List Order)
    (hposition : position % recordSize = 0) (hoffset : offset % recordSize = 0) :
    Takes position orders offset ∨ offset + recordSize ≤ position ∨
      position + orders.length * recordSize ≤ offset := by
  by_cases hbefore : offset < position
  · right; left
    unfold recordSize at *
    omega
  · by_cases hbehind : position + orders.length * recordSize ≤ offset
    · exact Or.inr (Or.inr hbehind)
    · left
      refine ⟨(offset - position) / recordSize, ?_, ?_⟩
      · rw [Nat.div_lt_iff_lt_mul recordSize_pos]
        omega
      · have haligned : (offset - position) % recordSize = 0 := by
          unfold recordSize at *
          omega
        rw [Nat.div_mul_cancel (Nat.dvd_of_mod_eq_zero haligned)]
        omega

namespace Setup

/-- A thread that is about to copy has claimed the room. -/
theorem claimed_of_copying (c : Setup) (schedule : Schedule) :
    ∀ u position orders, ((c.system schedule).threads u).Copying position orders →
      (u, .reserve position orders) ∈ c.history schedule := by
  apply c.invariant (motive := fun history s => ∀ u position orders,
    (s.threads u).Copying position orders → (u, .reserve position orders) ∈ history)
  · rintro u position orders ⟨request, blocks, wraps, hthread, -⟩
    cases hthread
  · intro earlier t event s' hclaimed hmoves u position orders hcopying
    by_cases hu : u = t
    · subst hu
      obtain rfl := hmoves.move.event_of_copying_next hcopying
      exact List.mem_cons_self
    · rw [hmoves.others u hu] at hcopying
      exact List.mem_cons_of_mem _ (hclaimed u position orders hcopying)

/-- A claimed room has been copied in the same call, or is about to be. -/
theorem claim_cases (c : Setup) (schedule : Schedule) :
    ∀ after u position orders, ClaimedBefore after (c.history schedule) u position orders →
      CopiedInCall after u position orders ∨
        (((c.system schedule).threads u).Copying position orders ∧
          ∀ request, (u, .start request) ∉ after) := by
  apply c.invariant (motive := fun history s => ∀ after u position orders,
    ClaimedBefore after history u position orders → CopiedInCall after u position orders ∨
      ((s.threads u).Copying position orders ∧ ∀ request, (u, .start request) ∉ after))
  · rintro after u position orders ⟨before, hhistory⟩
    cases after <;> cases hhistory
  · rintro earlier t event s' hcases hmoves after u position orders ⟨before, hhistory⟩
    have hmove := hmoves.move
    cases after with
    | nil =>
      -- the room has been claimed right now
      obtain ⟨hhead, -⟩ := List.cons.inj hhistory
      obtain ⟨rfl, rfl⟩ := Prod.mk.inj hhead
      rcases hmove.position_cases ((c.sound earlier).2 t) with
        ⟨-, hevent⟩ | ⟨-, hrewind⟩ | ⟨claimed, hevent, -, hcopying, -⟩
      · exact absurd rfl (hevent position orders)
      · cases hrewind
      · obtain ⟨rfl, rfl⟩ := Event.reserve.inj hevent
        exact Or.inr ⟨hcopying, fun _ => List.not_mem_nil⟩
    | cons entry after =>
      obtain ⟨rfl, htail⟩ := List.cons.inj hhistory
      rcases hcases after u position orders ⟨before, htail⟩ with
        ⟨later, between, rfl, hstart⟩ | ⟨hcopying, hstart⟩
      · exact Or.inl ⟨(t, event) :: later, between, rfl, hstart⟩
      · by_cases hu : u = t
        · subst hu
          obtain rfl := hmove.event_of_copying hcopying
          exact Or.inl ⟨[], after, rfl, hstart⟩
        · rw [← hmoves.others u hu] at hcopying
          refine Or.inr ⟨hcopying, fun request hmem => ?_⟩
          rcases List.mem_cons.mp hmem with heq | hmem
          · exact hu (Prod.mk.inj heq).1
          · exact hstart request hmem

/-- Every slot below the position lies in a claimed room. -/
theorem slots_claimed (c : Setup) (schedule : Schedule) :
    ∀ slot, slot % recordSize = 0 →
      slot + recordSize ≤ (c.system schedule).buffer.tracker.position →
        ∃ u position orders, (u, .reserve position orders) ∈ c.history schedule ∧
          Takes position orders slot := by
  apply c.invariant (motive := fun history s => ∀ slot, slot % recordSize = 0 →
    slot + recordSize ≤ s.buffer.tracker.position →
      ∃ u position orders, (u, .reserve position orders) ∈ history ∧ Takes position orders slot)
  · intro slot _ hslot
    have hpos := recordSize_pos
    have hzero : slot + recordSize ≤ 0 := hslot
    omega
  · intro earlier t event s' hslots hmoves slot haligned hslot
    obtain ⟨hsound, hfits⟩ := c.sound earlier
    -- a slot that was below the position before still lies in its room
    have hbefore (hbelow : slot + recordSize ≤ (c.system earlier).buffer.tracker.position) :
        ∃ u position orders, (u, .reserve position orders) ∈ (t, event) :: c.history earlier ∧
          Takes position orders slot := by
      obtain ⟨u, position, orders, hclaim, htakes⟩ := hslots slot haligned hbelow
      exact ⟨u, position, orders, List.mem_cons_of_mem _ hclaim, htakes⟩
    rcases hmoves.move.position_cases (hfits t) with
      ⟨hsame, -⟩ | ⟨hzero, -⟩ | ⟨orders, rfl, -, -, hmoved⟩
    · exact hbefore (hsame ▸ hslot)
    · have := recordSize_pos
      omega
    · by_cases hbelow : slot + recordSize ≤ (c.system earlier).buffer.tracker.position
      · exact hbefore hbelow
      · have := recordSize_pos
        rcases takes_or_outside orders hsound.aligned haligned with htakes | hout | hout
        · exact ⟨t, _, orders, List.mem_cons_self, htakes⟩
        · omega
        · omega

/-- While no write is in flight, every claimed room has been copied by the call
that claimed it. -/
theorem copied_of_quiescent (c : Setup) {schedule : Schedule}
    (hquiescent : (c.system schedule).Quiescent) {after : History} {u position : Nat}
    {orders : List Order} (hclaim : ClaimedBefore after (c.history schedule) u position orders) :
    CopiedInCall after u position orders := by
  rcases c.claim_cases schedule after u position orders hclaim with hcopied | ⟨hcopying, -⟩
  · exact hcopied
  · obtain ⟨request, blocks, wraps, hthread, -⟩ := hcopying
    have hflight := hquiescent u
    rw [hthread] at hflight
    cases hflight

/-- While no write is in flight, every slot below the position has been copied by
the call that claimed it. -/
theorem slots_copied_of_quiescent (c : Setup) {schedule : Schedule}
    (hquiescent : (c.system schedule).Quiescent) {slot : Nat} (haligned : slot % recordSize = 0)
    (hslot : slot + recordSize ≤ (c.system schedule).buffer.tracker.position) :
    ∃ after u position orders, ClaimedBefore after (c.history schedule) u position orders ∧
      CopiedInCall after u position orders ∧ Takes position orders slot := by
  obtain ⟨u, position, orders, hmem, htakes⟩ := c.slots_claimed schedule slot haligned hslot
  obtain ⟨after, before, hhistory⟩ := List.append_of_mem hmem
  have hclaim : ClaimedBefore after (c.history schedule) u position orders := ⟨before, hhistory⟩
  exact ⟨after, u, position, orders, hclaim, c.copied_of_quiescent hquiescent hclaim, htakes⟩

/-- While no write is in flight, some order was copied last into each slot below
the position. -/
theorem exists_latest_of_quiescent (c : Setup) {schedule : Schedule}
    (hquiescent : (c.system schedule).Quiescent) {slot : Nat} (haligned : slot % recordSize = 0)
    (hslot : slot + recordSize ≤ (c.system schedule).buffer.tracker.position) :
    ∃ order, latest (copies (c.history schedule)) slot = some order := by
  obtain ⟨after, u, position, orders, ⟨before, hhistory⟩, ⟨later, between, rfl, -⟩, i, hi, rfl⟩ :=
    c.slots_copied_of_quiescent hquiescent haligned hslot
  have hcopied : (u, .copyIn position orders) ∈ c.history schedule := by
    rw [hhistory, List.append_assoc]
    exact List.mem_append_right _ List.mem_cons_self
  exact exists_latest_of_mem (mem_copies hcopied hi)

/-- Every slot that was ever copied holds the record of the order copied last. -/
theorem read_arena_of_latest (c : Setup) (schedule : Schedule) :
    ∀ offset order, offset % recordSize = 0 →
      latest (copies (c.history schedule)) offset = some order →
        (c.system schedule).buffer.arena.read offset = some (encode order) := by
  apply c.invariant (motive := fun history s => ∀ offset order, offset % recordSize = 0 →
    latest (copies history) offset = some order → s.buffer.arena.read offset = some (encode order))
  · intro offset order _ hlatest
    cases hlatest
  · intro earlier t event s' hread hmoves offset order haligned hlatest
    obtain ⟨hsound, hfits⟩ := c.sound earlier
    rw [copies_cons, latest_append] at hlatest
    rcases hmoves.move.arena_cases (hfits t) with
      ⟨harena, hcopied⟩ | ⟨position, orders, rfl, -, hroom, harena⟩
    · rw [hcopied] at hlatest
      rw [harena]
      exact hread offset order haligned hlatest
    · rw [harena]
      change (latest (landingsFrom position orders) offset).or _ = some order at hlatest
      rcases takes_or_outside orders hroom.aligned haligned with ⟨i, hi, rfl⟩ | hout
      · rw [latest_landingsFrom, List.getElem?_eq_getElem hi, Option.some_or] at hlatest
        rw [Arena.read_writeAll_of_inside, List.getElem?_map, List.getElem?_eq_getElem hi,
          ← Option.some.inj hlatest, Option.map_some]
        · rw [List.length_map, hsound.arena_capacity]
          exact hroom.within
        · rwa [List.length_map]
      · rw [Arena.read_writeAll_of_outside (by rwa [List.length_map])]
        apply hread offset order haligned
        rwa [latest_eq_none, Option.none_or] at hlatest
        intro landing hlanding
        obtain ⟨i, hget, hlands⟩ := mem_landingsFrom_iff.mp hlanding
        obtain ⟨hi, -⟩ := List.getElem?_eq_some_iff.mp hget
        have hslots := Nat.mul_lt_mul_of_pos_right hi recordSize_pos
        have := recordSize_pos
        omega

end Setup

end OrderStore
