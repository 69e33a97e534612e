import OrderStore.Proofs.Optimistic.Copies
import Mathlib.Algebra.GroupWithZero.Nat

/-!
# Reads trust no unfinished write

A read that returns an order copied its bytes at a moment when no write was in
flight. The reader loads the stamp of finished writes first: as that one is never
ahead, the stamps can only agree if no write is in flight when the second is
loaded, and as long as no further write begins it stays so. Hence every slot
below the position had been copied by the call that claimed it, and the bytes
were those of the last copy into the slot.
-/

namespace OrderStore

/-- While no write is in flight and none begins, the position and the bytes
stay as they are. -/
theorem System.Moves.quiescent {s s' : System} {t : Nat} {event : Event}
    (h : s.Moves t event s') (hquiescent : s.Quiescent) (hevent : event ≠ .begin) :
    s'.Quiescent ∧ s'.buffer.tracker = s.buffer.tracker ∧ s'.buffer.arena = s.buffer.arena := by
  refine ⟨fun u => ?_, h.move.frame (hquiescent t)⟩
  by_cases hu : u = t
  · subst hu
    rcases h.move.stamps with ⟨hbegin, -⟩ | ⟨-, -, -, hopen, -⟩ | ⟨-, -, -, -, hsame⟩
    · exact absurd hbegin hevent
    · rw [hquiescent u] at hopen
      cases hopen
    · rw [hsame]
      exact hquiescent u
  · rw [h.others u hu]
    exact hquiescent u

/-- Unless some write has begun since the stamp was taken, `claim` holds. -/
def Since (history : History) (stamp : UInt64) (claim : Prop) : Prop :=
  ∃ k, k ≤ begun history ∧ stamp = UInt64.ofNat k ∧ (k = begun history → claim)

theorem Since.cons {history : History} {stamp : UInt64} {claim claim' : Prop} {t : Nat}
    {event : Event} (h : Since history stamp claim) (himp : event ≠ .begin → claim → claim') :
    Since ((t, event) :: history) stamp claim' := by
  obtain ⟨k, hk, hstamp, hclaim⟩ := h
  refine ⟨k, Nat.le_trans hk (begun_le_cons _ _), hstamp, fun heq => ?_⟩
  by_cases hbegin : event = .begin
  · subst hbegin
    rw [begun_cons_begin] at heq
    omega
  · rw [begun_cons_of_ne hbegin] at heq
    exact himp hbegin (hclaim heq)

/-- Different counts below the wrap have different stamps. -/
theorem ofNat_inj_of_lt {m n : Nat} (h : UInt64.ofNat m = UInt64.ofNat n) (hm : m < 2 ^ 64)
    (hn : n < 2 ^ 64) : m = n := by
  have hnat := congrArg UInt64.toNat h
  rwa [UInt64.toNat_ofNat_of_lt' hm, UInt64.toNat_ofNat_of_lt' hn] at hnat

/-- If the first stamp is still what it was, no write has begun since. -/
theorem Since.holds {history : History} {s : System} {claim : Prop}
    (h : Since history s.buffer.begun claim) (hstamped : Stamped history s)
    (hwrites : begun history < 2 ^ 64) : claim := by
  obtain ⟨k, hk, hstamp, hclaim⟩ := h
  rw [hstamped.begun_eq] at hstamp
  exact hclaim (ofNat_inj_of_lt hstamp hwrites (by omega)).symm

/-- After `earlier`, thread `t` copied the bytes at `offset` out, in the call that
it is still in after `schedule`. -/
def CopiedOutAfter (c : Setup) (earlier schedule : Schedule) (t offset : Nat) : Prop :=
  earlier <:+ schedule ∧ ∃ between,
    c.history schedule = between ++ (t, .copyOut offset) :: c.history earlier ∧
      ∀ request, (t, .start request) ∉ between

/-- Thread `t` copied `block` out at a moment when no write was in flight and the
record at `offset` was written. -/
def TrustedCopy (c : Setup) (schedule : Schedule) (t offset : Nat) (block : Block) : Prop :=
  ∃ earlier, CopiedOutAfter c earlier schedule t offset ∧ (c.system earlier).Quiescent ∧
    (c.system earlier).buffer.tracker.isWritten offset = true ∧
    (c.system earlier).buffer.arena.read offset = some block

/-- What a read call knows when it comes to a phase. -/
def ReadPhase.Justified (c : Setup) (schedule : Schedule) (t offset : Nat) : ReadPhase → Prop
  | loadBegun _ stamp =>
    ∃ k, k ≤ OrderStore.finished (c.history schedule) ∧ stamp = UInt64.ofNat k
  | loadPosition _ stamp => Since (c.history schedule) stamp (c.system schedule).Quiescent
  | copy _ stamp =>
    Since (c.history schedule) stamp ((c.system schedule).Quiescent ∧
      (c.system schedule).buffer.tracker.isWritten offset = true)
  | check _ stamp block =>
    Since (c.history schedule) stamp (TrustedCopy c schedule t offset block)
  | done (some order) => ∃ block, TrustedCopy c schedule t offset block ∧
      decodeBlock block = .ok order
  | _ => True

/-- What the read call of a thread knows, if there is one. -/
def Thread.Justified (c : Setup) (schedule : Schedule) (t : Nat) : Thread → Prop
  | reading r => r.phase.Justified c schedule t r.offset
  | _ => True

theorem ReadPhase.justified_attempt (c : Setup) (schedule : Schedule) (t offset retries : Nat) :
    (attempt retries).Justified c schedule t offset := by
  cases retries <;> trivial

section Step

variable {c : Setup} {earlier : Schedule} {t u offset : Nat} {request : Request} {event : Event}
  {s' : System}

theorem Setup.history_cons (hstep : (c.system earlier).step t request = (event, s')) :
    c.history ((t, request) :: earlier) = (t, event) :: c.history earlier := by
  rw [Setup.history, hstep]

theorem Setup.system_cons (hstep : (c.system earlier).step t request = (event, s')) :
    c.system ((t, request) :: earlier) = s' := by
  rw [Setup.system, hstep]

theorem System.moves_of_step {s : System} (hstep : s.step t request = (event, s')) :
    s.Moves t event s' := by
  have hmoves := s.moves_step t request
  rwa [hstep] at hmoves

/-- A copy stays trusted while its call goes on. -/
theorem TrustedCopy.cons {block : Block} (h : TrustedCopy c earlier u offset block)
    (hstep : (c.system earlier).step t request = (event, s'))
    (hcall : u = t → event.isStart = false) :
    TrustedCopy c ((t, request) :: earlier) u offset block := by
  obtain ⟨before, ⟨hsuffix, between, hhistory, hstart⟩, hmoment⟩ := h
  refine ⟨before, ⟨hsuffix.trans (List.suffix_cons ..), (t, event) :: between, ?_, ?_⟩, hmoment⟩
  · rw [Setup.history_cons hstep, hhistory, List.cons_append]
  · intro asked hmem
    rcases List.mem_cons.mp hmem with heq | hmem
    · obtain ⟨hu, rfl⟩ := Prod.mk.inj heq
      cases hcall hu
    · exact hstart asked hmem

/-- What a call knows is not lost while other threads go on. -/
theorem ReadPhase.Justified.cons {phase : ReadPhase} (h : phase.Justified c earlier u offset)
    (hstep : (c.system earlier).step t request = (event, s'))
    (hcall : u = t → event.isStart = false) :
    phase.Justified c ((t, request) :: earlier) u offset := by
  have hmoves := System.moves_of_step hstep
  cases phase with
  | loadBegun retries stamp =>
    obtain ⟨k, hk, hstamp⟩ := h
    refine ⟨k, ?_, hstamp⟩
    rw [Setup.history_cons hstep]
    exact Nat.le_trans hk (finished_le_cons _ _)
  | loadPosition retries stamp =>
    change Since _ _ _
    rw [Setup.history_cons hstep, Setup.system_cons hstep]
    exact Since.cons h fun hbegin hquiescent => (hmoves.quiescent hquiescent hbegin).1
  | copy retries stamp =>
    change Since _ _ _
    rw [Setup.history_cons hstep, Setup.system_cons hstep]
    refine Since.cons h fun hbegin hclaim => ?_
    obtain ⟨hquiescent, htracker, -⟩ := hmoves.quiescent hclaim.1 hbegin
    exact ⟨hquiescent, htracker ▸ hclaim.2⟩
  | check retries stamp block =>
    change Since _ _ _
    rw [Setup.history_cons hstep]
    exact Since.cons h fun _ htrusted => htrusted.cons hstep hcall
  | done order =>
    cases order with
    | none => trivial
    | some order =>
      obtain ⟨block, htrusted, hdecode⟩ := h
      exact ⟨block, htrusted.cons hstep hcall, hdecode⟩
  | loadFinished retries => trivial

/-- What a thread knows is not lost while other threads go on. -/
theorem Thread.Justified.cons {thread : Thread} (h : thread.Justified c earlier u)
    (hstep : (c.system earlier).step t request = (event, s'))
    (hcall : u = t → event.isStart = false) : thread.Justified c ((t, request) :: earlier) u := by
  cases thread with
  | reading r => exact ReadPhase.Justified.cons h hstep hcall
  | _ => trivial

/-- A step of a read call takes it to a phase that is justified. -/
theorem Thread.ReadMove.justified {r : ReadCall} {thread : Thread}
    (hwrites : begun (c.history earlier) < 2 ^ 64)
    (hstep : (c.system earlier).step t request = (event, s'))
    (h : ReadMove (c.system earlier).buffer r event thread)
    (hr : r.phase.Justified c earlier t r.offset) :
    thread.Justified c ((t, request) :: earlier) t := by
  have hmoves := System.moves_of_step hstep
  have hstamped := c.stamped earlier
  cases h with
  | @loadFinished offset retries =>
    refine ⟨_, ?_, hstamped.finished_eq⟩
    rw [Setup.history_cons hstep]
    exact finished_le_cons _ _
  | @quiet offset retries =>
    obtain ⟨k, hk, hstamp⟩ := hr
    have hle := hstamped.finished_le_begun
    have hequal : begun (c.history earlier) = k :=
      ofNat_inj_of_lt (hstamped.begun_eq.symm.trans hstamp) hwrites (by omega)
    have hquiescent := hstamped.quiescent_of_le (hequal ▸ hk)
    refine ⟨begun (c.history earlier), ?_, hstamped.begun_eq, fun _ => ?_⟩
    · rw [Setup.history_cons hstep]
      exact begun_le_cons _ _
    · rw [Setup.system_cons hstep]
      exact (hmoves.quiescent hquiescent nofun).1
  | busy hdiffer => exact ReadPhase.justified_attempt ..
  | written hwritten =>
    change Since _ _ _
    rw [Setup.history_cons hstep, Setup.system_cons hstep]
    refine Since.cons hr fun hbegin hquiescent => ?_
    obtain ⟨hquiescent', htracker, -⟩ := hmoves.quiescent hquiescent hbegin
    exact ⟨hquiescent', htracker ▸ hwritten⟩
  | unwritten hwritten => trivial
  | copyOut hblock =>
    change Since _ _ _
    rw [Setup.history_cons hstep]
    refine Since.cons hr fun _ hclaim => ?_
    refine ⟨earlier, ⟨List.suffix_cons .., [], ?_, by simp⟩, hclaim.1, hclaim.2, hblock⟩
    rw [Setup.history_cons hstep, List.nil_append]
  | outside hblock => trivial
  | @unchanged offset retries block =>
    have htrusted := (Since.holds hr hstamped hwrites).cons hstep fun _ => rfl
    change ReadPhase.Justified _ _ _ _ (.done (decodeBlock block).toOption)
    cases hdecode : decodeBlock block with
    | error fault => trivial
    | ok order => exact ⟨block, htrusted, hdecode⟩
  | changed hchanged => exact ReadPhase.justified_attempt ..
  | got => trivial

/-- A step of any thread takes it to a phase that is justified. -/
theorem Thread.Move.justified {before thread : Thread} {b' : OptimisticBuffer}
    (hwrites : begun (c.history earlier) < 2 ^ 64)
    (hstep : (c.system earlier).step t request = (event, s'))
    (h : Move (c.system earlier).buffer before event b' thread)
    (hbefore : before.Justified c earlier t) :
    thread.Justified c ((t, request) :: earlier) t := by
  cases h with
  | start asked =>
    cases asked with
    | read offset => exact ReadPhase.justified_attempt ..
    | _ => trivial
  | write hmove => cases hmove <;> trivial
  | read hmove => exact hmove.justified hwrites hstep hbefore

end Step

/-- Under every schedule with fewer writes than the stamps can count, each read
call knows what its phase says. -/
theorem Setup.justified (c : Setup) (schedule : Schedule)
    (hwrites : begun (c.history schedule) < 2 ^ 64) :
    ∀ u, ((c.system schedule).threads u).Justified c schedule u := by
  induction schedule with
  | nil => exact fun _ => trivial
  | cons entry earlier ih =>
    obtain ⟨t, request⟩ := entry
    cases hstep : (c.system earlier).step t request with
    | mk event s' =>
      have hmoves := System.moves_of_step hstep
      have hearlier : begun (c.history earlier) < 2 ^ 64 := by
        rw [Setup.history_cons hstep] at hwrites
        exact Nat.lt_of_le_of_lt (begun_le_cons _ _) hwrites
      intro u
      rw [Setup.system_cons hstep]
      by_cases hu : u = t
      · subst hu
        exact hmoves.move.justified hearlier hstep (ih hearlier u)
      · rw [hmoves.others u hu]
        exact (ih hearlier u).cons hstep fun heq => absurd heq hu

/-- A thread that returns an order has come to the end of a read call. -/
theorem System.reading_of_got {s : System} {t offset : Nat} {request : Request}
    {order : Option Order} (h : (s.step t request).1 = .got offset order) :
    s.threads t = .reading ⟨offset, .done order⟩ := by
  have hmove := (s.moves_step t request).move
  rw [h] at hmove
  generalize (s.step t request).2.threads t = after at hmove
  generalize (s.step t request).2.buffer = b' at hmove
  generalize s.threads t = before at hmove ⊢
  cases hmove with
  | write hmove => cases hmove
  | read hmove =>
    cases hmove
    rfl

/-- Reads never see an unfinished write. Under every schedule with fewer writes
than the stamps can count, no more writes have finished than have begun, and for
every read call that returns an order there is a moment in the call, when it
copied the bytes, at which no write was in flight, every room claimed so far and
every slot below the position had been copied by the call that had claimed it, and
the slot read held the order returned, copied there last. -/
theorem reads_only_finished_writes (c : Setup) (schedule : Schedule)
    (hwrites : begun (c.history schedule) < 2 ^ 64) :
    (c.system schedule).buffer.finished ≤ (c.system schedule).buffer.begun ∧
      ∀ t request offset order,
        ((c.system schedule).step t request).1 = .got offset (some order) →
          ∃ earlier, CopiedOutAfter c earlier schedule t offset ∧
            (∀ u, ((c.system earlier).threads u).inFlight = false) ∧
            (∀ after u position orders,
              ClaimedBefore after (c.history earlier) u position orders →
                CopiedInCall after u position orders) ∧
            (∀ slot, slot % recordSize = 0 →
              slot + recordSize ≤ (c.system earlier).buffer.tracker.position →
                ∃ after u position orders,
                  ClaimedBefore after (c.history earlier) u position orders ∧
                    CopiedInCall after u position orders ∧ Takes position orders slot) ∧
            ∃ original, latest (copies (c.history earlier)) offset = some original ∧
              decodeBlock (encode original) = .ok order := by
  have hstamped := c.stamped schedule
  have hle := hstamped.finished_le_begun
  constructor
  · rw [hstamped.begun_eq, hstamped.finished_eq, UInt64.le_iff_toNat_le,
      UInt64.toNat_ofNat_of_lt' hwrites,
      UInt64.toNat_ofNat_of_lt' (Nat.lt_of_le_of_lt hle hwrites)]
    exact hle
  · intro t request offset order hgot
    have hthread := System.reading_of_got hgot
    have hjustified := c.justified schedule hwrites t
    rw [hthread] at hjustified
    obtain ⟨block, ⟨earlier, hmoment, hquiescent, hwritten, hblock⟩, hdecode⟩ := hjustified
    obtain ⟨haligned, hbelow⟩ : offset % recordSize = 0 ∧
        offset + recordSize ≤ (c.system earlier).buffer.tracker.position := by
      simpa [Tracker.isWritten, isRecordWithin] using hwritten
    obtain ⟨original, hlatest⟩ := c.exists_latest_of_quiescent hquiescent haligned hbelow
    refine ⟨earlier, hmoment, hquiescent, ?_, ?_, original, hlatest, ?_⟩
    · intro after u position orders hclaim
      exact c.copied_of_quiescent hquiescent hclaim
    · intro slot hslot hlow
      exact c.slots_copied_of_quiescent hquiescent hslot hlow
    · have hread := c.read_arena_of_latest earlier offset original haligned hlatest
      rw [hblock] at hread
      rw [← Option.some.inj hread]
      exact hdecode

/-- A read of the one record that another thread has written. -/
theorem reads_only_finished_writes_one_record :
    let c : Setup := ⟨64, {}⟩
    let schedule : Schedule := .replicate 6 (1, .read 0) ++ .replicate 7 (0, .append {})
    begun (c.history schedule) < 2 ^ 64 ∧
      ((c.system schedule).step 1 (.read 0)).1 = .got 0 (some (Order.stored {})) ∧
      ∃ earlier, CopiedOutAfter c earlier schedule 1 0 ∧ ∃ original,
        latest (copies (c.history earlier)) 0 = some original ∧
          decodeBlock (encode original) = .ok (Order.stored {}) := by
  intro c schedule
  have hwrites : begun (c.history schedule) < 2 ^ 64 := by decide +kernel
  have hgot : ((c.system schedule).step 1 (.read 0)).1 = .got 0 (some (Order.stored {})) := by
    decide +kernel
  obtain ⟨-, hreads⟩ := reads_only_finished_writes c schedule hwrites
  obtain ⟨earlier, hmoment, -, -, -, hlatest⟩ := hreads 1 _ _ _ hgot
  exact ⟨hwrites, hgot, earlier, hmoment, hlatest⟩

end OrderStore
