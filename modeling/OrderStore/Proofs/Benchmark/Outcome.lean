import OrderStore.Proofs.Benchmark.Memory
import OrderStore.Proofs.Benchmark.Workload

/-!
# How a run of the benchmark ends

What the program reports is determined by its options and the size of the store, not
by the strategy, the segments or the clock. Only the configuration that remains when
the options have replaced the values of the file has to be valid; if it is not, the
program ends before anything is run. A valid configuration is no promise that there are
reports: one strategy that asks for too much memory at once stops the program, and the
reports of those before it are lost.
-/

namespace OrderStore

/-! ## Counting answers -/

/-- A recorder counts the answers that its outcomes stand for. -/
theorem counts_of_answers {outcomes : List (Bool × Nat)} {written refused : Nat}
    (h : outcomes.map answerOf =
      List.replicate written (.flag true) ++ List.replicate refused (.flag false)) :
    (Recorder.ofOutcomes outcomes).succeeded = written ∧
      (Recorder.ofOutcomes outcomes).failed = refused := by
  have hflags : outcomes.map Prod.fst =
      List.replicate written true ++ List.replicate refused false := by
    apply List.map_injective_iff.mpr fun _ _ => Answer.flag.inj
    rw [List.map_map, List.map_append, List.map_replicate, List.map_replicate]
    exact h
  have hcount (p : Bool → Bool) : outcomes.countP (p ∘ Prod.fst) =
      (if p true then written else 0) + if p false then refused else 0 := by
    rw [← List.countP_map, hflags, List.countP_append, List.countP_replicate, List.countP_replicate]
  obtain ⟨hsucceeded, hfailed⟩ := Recorder.counts_ofOutcomes outcomes
  exact ⟨hsucceeded.trans (hcount id), hfailed.trans ((hcount not).trans (Nat.zero_add refused))⟩

namespace Store

/-- What a store that was built answers to synthetic writes: while it has room or may
overwrite it takes every one, and then none. -/
theorem answers_syntheticWrites {strategy : Strategy} {config : StoreConfig} {s : Store}
    (hbuild : build strategy config = .ok s) (ring : Bool) (ids : List UInt32) :
    let written := if ring then ids.length else min ids.length config.recordCapacity
    s.answers (ids.map (syntheticWrite ring)) = List.replicate written (.flag true) ++
      List.replicate (ids.length - written) (.flag false) := by
  cases ring with
  | true =>
    have hcalls : ids.map (syntheticWrite true) = (ids.map syntheticOrder).map .appendRing := by
      rw [List.map_map]
      rfl
    have hanswers := answers_appendRing hbuild [] (ids.map syntheticOrder)
    rw [List.length_map] at hanswers
    dsimp only
    rw [if_pos rfl, Nat.sub_self, List.replicate_zero, List.append_nil, hcalls]
    exact hanswers
  | false =>
    have hcalls : ids.map (syntheticWrite false) = (ids.map syntheticOrder).map .append := by
      rw [List.map_map]
      rfl
    have hnew := isNew_of_build hbuild
    have hcapacity : s.capacity = config.capacity.toNat := by
      obtain ⟨-, rfl⟩ := build_eq_ok_iff.mp hbuild
      cases strategy <;> rfl
    obtain ⟨hanswers, -⟩ := answers_append hnew.atRest (ids.map syntheticOrder)
    rw [hnew.roomIn_eq, hcapacity, List.length_map] at hanswers
    have hrefused : ids.length - min ids.length config.recordCapacity =
        ids.length - config.recordCapacity := by omega
    dsimp only
    rw [if_neg Bool.false_ne_true, hrefused, hcalls]
    exact hanswers

end Store

/-! ## Reports -/

/-- The report of a strategy counts every write once, as many successful ones as there
may be, and nothing corrupt. -/
structure Report.Exact (r : Report) (strategy : Strategy) (total written : Nat) : Prop where
  /-- It is a report of that strategy. -/
  strategy_eq : r.strategy = strategy
  /-- Every write has an outcome. -/
  total_eq : r.writes.succeeded + r.writes.failed = total
  /-- So many were successful. -/
  succeeded_eq : r.writes.succeeded = written
  /-- Every order was read as it was written. -/
  corrupt_eq : r.corrupt = 0

variable {σ : Type} {footprint : Footprint} {o : Options} {config : StoreConfig}

/-- A run of one strategy that fits, with a valid configuration, has an exact report. -/
theorem returns_runStrategy (now : StateM σ Nat) (hvalid : config.validate = .ok ())
    {strategy : Strategy} (hfits : o.Fits footprint config strategy) :
    let total := o.writers.toNat * o.records.toNat
    Returns (runStrategy footprint now o config strategy) fun result =>
      ∃ report, result = .ok report ∧ report.Exact strategy total
        (if o.ring then total else min total config.recordCapacity) := by
  intro total
  have hbuild : Store.build strategy config = .ok (.new strategy config.capacity.toNat
      config.segmentCount.toNat config.optimistic) := Store.build_eq_ok_iff.mpr ⟨hvalid, rfl⟩
  have hworkload := leaves_runWorkload now o config.recordCapacity (Store.isNew_of_build hbuild)
  have hclock : Returns now fun _ => True := fun _ => trivial
  rw [runStrategy_of_fits now hvalid hfits]
  refine hclock.bind fun start _ => Returns.bind hworkload ?_
  rintro ⟨_, s'⟩ ⟨writes, reads, rfl, hwrites⟩
  refine hclock.bind fun stop _ => Returns.pure ⟨_, rfl, ?_⟩
  rw [Store.answers_syntheticWrites hbuild, length_orderIds] at hwrites
  obtain ⟨hsucceeded, hfailed⟩ := counts_of_answers hwrites
  refine ⟨rfl, ?_, hsucceeded, rfl⟩
  change (Recorder.ofOutcomes writes).succeeded + (Recorder.ofOutcomes writes).failed = total
  rw [hsucceeded, hfailed]
  split <;> omega

/-- If every selected strategy fits, every one has an exact report, in that order. -/
theorem returns_runStrategies (now : StateM σ Nat) (hvalid : config.validate = .ok ())
    {strategies : List Strategy} (hfits : ∀ strategy ∈ strategies, o.Fits footprint config strategy) :
    let total := o.writers.toNat * o.records.toNat
    Returns (runStrategies footprint now o config strategies) fun result =>
      ∃ reports, result = .ok reports ∧
        List.Forall₂ (fun report strategy => report.Exact strategy total
          (if o.ring then total else min total config.recordCapacity)) reports strategies := by
  intro total
  induction strategies with
  | nil => exact Returns.pure ⟨[], rfl, .nil⟩
  | cons strategy strategies ih =>
    obtain ⟨hfirst, hrest⟩ := List.forall_mem_cons.mp hfits
    refine (returns_runStrategy now hvalid hfirst).bind ?_
    rintro _ ⟨report, rfl, hreport⟩
    refine (ih hrest).bind ?_
    rintro _ ⟨reports, rfl, hreports⟩
    exact Returns.pure ⟨report :: reports, rfl, .cons hreport hreports⟩

/-- If one of the selected strategies does not fit, there is no report of any. -/
theorem returns_runStrategies_of_not_fits (now : StateM σ Nat)
    (hvalid : config.validate = .ok ()) {strategies : List Strategy}
    (hlarge : ∃ strategy ∈ strategies, ¬ o.Fits footprint config strategy) :
    Returns (runStrategies footprint now o config strategies) (· = .error (.memory {})) := by
  induction strategies with
  | nil =>
    obtain ⟨strategy, hmem, -⟩ := hlarge
    cases hmem
  | cons strategy strategies ih =>
    rw [runStrategies]
    by_cases hfirst : o.Fits footprint config strategy
    · -- The first one is run for nothing: the fault is with one of the others.
      obtain ⟨other, hmem, hother⟩ := hlarge
      have hrest : other ∈ strategies :=
        (List.mem_cons.mp hmem).resolve_left fun heq => hother (heq ▸ hfirst)
      refine (returns_runStrategy now hvalid hfirst).bind ?_
      rintro _ ⟨report, rfl, -⟩
      refine (ih ⟨other, hrest, hother⟩).bind ?_
      rintro _ rfl
      exact Returns.pure rfl
    · rw [runStrategy_of_not_fits now hvalid hfirst, pure_bind]
      exact Returns.pure rfl

/-- The selected strategies are in the order of reports. -/
theorem Strategy.sublist_of_select {name : String} {strategies : List Strategy}
    (h : select name = .ok strategies) : strategies.Sublist all := by
  unfold select at h
  split at h
  · obtain rfl := Except.ok.inj h
    exact List.Sublist.refl _
  · split at h
    · next strategy _ =>
      obtain rfl := Except.ok.inj h
      rw [List.singleton_sublist]
      cases strategy <;> decide
    · cases h

/-- What exact reports have in common, and that the program is content with them. -/
theorem exact_reports {reports : List Report} {strategies : List Strategy} {total written : Nat}
    (h : List.Forall₂ (fun report strategy => report.Exact strategy total written)
      reports strategies) :
    exitStatus (.ok reports) = 0 ∧ reports.map (·.strategy) = strategies ∧
      ∀ report ∈ reports, ∃ strategy, report.Exact strategy total written := by
  have hcorrupt : reports.foldr (fun report total => report.corrupt + total) 0 = 0 := by
    induction h with
    | nil => rfl
    | cons hreport _ ih => rw [List.foldr_cons, hreport.corrupt_eq, ih]
  have hmap : reports.map (·.strategy) = strategies := by
    clear hcorrupt
    induction h with
    | nil => rfl
    | cons hreport _ ih => rw [List.map_cons, hreport.strategy_eq, ih]
  refine ⟨by rw [exitStatus, checkReports, if_pos hcorrupt], hmap, fun report hreport => ?_⟩
  obtain ⟨i, hi, rfl⟩ := List.mem_iff_getElem.mp hreport
  exact ⟨_, h.get hi (h.length_eq ▸ hi)⟩

/-! ## The program -/

namespace Options

variable {fileText : String → Option String} (hlog : LogFilter.check o.logLevel = .ok ())
  (hids : o.checkIdSpace = .ok ()) (hfile : o.fileConfig fileText = .ok config)

include hfile

theorem loadConfig_of_valid (h : (o.override config).validate = .ok ()) :
    o.loadConfig fileText = .ok (o.override config) := by
  rw [loadConfig, hfile]
  dsimp only
  rw [h]

theorem loadConfig_of_invalid {fault : ConfigError}
    (h : (o.override config).validate = .error fault) :
    o.loadConfig fileText = .error (.config fault) := by
  rw [loadConfig, hfile]
  dsimp only
  rw [h]

include hlog hids

/-- With nothing to object to, the configuration and the strategies are known. -/
theorem prepare_of_valid {strategies : List Strategy}
    (hstrategies : Strategy.select o.strategy = .ok strategies)
    (h : (o.override config).validate = .ok ()) :
    o.prepare fileText = .ok (o.override config, strategies) := by
  rw [prepare, hlog, hids, loadConfig_of_valid hfile h, hstrategies]

/-- A configuration that is not valid is found before the strategies are looked at. -/
theorem prepare_of_invalid {fault : ConfigError}
    (h : (o.override config).validate = .error fault) :
    o.prepare fileText = .error (.config fault) := by
  rw [prepare, hlog, hids, loadConfig_of_invalid hfile h]

end Options

/-- How the program ends, for all options that pass the checks before the configuration
is known, and whatever the clock shows. The configuration that counts is the one in which
the options have replaced values of the file; whether the file alone would be valid does
not matter.

If that configuration is valid and every selected strategy fits, the program reports one
run of each in the order of reports and ends with status 0. In every run each write has an
outcome; all of them are successful if old records are overwritten, and otherwise as many
as records fit; and no order is read other than it was written, also by a reader that
looks between any two writes. If a selected strategy does not fit, the program stops with
status 101 and reports nothing. A capacity of less than 2^63 bytes always fits, as far as
the tables of the segments and of the readers' handles do.

If that configuration is not valid, the program fails and does nothing else, not even look
at the clock. -/
theorem runOptions_outcome (footprint : Footprint) (now : StateM σ Nat)
    (fileText : String → Option String) {strategies : List Strategy}
    (hlog : LogFilter.check o.logLevel = .ok ()) (hids : o.checkIdSpace = .ok ())
    (hstrategies : Strategy.select o.strategy = .ok strategies)
    (hfile : o.fileConfig fileText = .ok config) :
    let effective : StoreConfig :=
      { config with
        capacity := o.capacity.getD config.capacity
        segmentCount := o.segments.getD config.segmentCount }
    let total := o.writers.toNat * o.records.toNat
    (effective.validate = .ok () →
      strategies.Sublist Strategy.all ∧
      (effective.capacity.toNat < 2 ^ 63 →
        footprint.segment * effective.segmentCount.toNat < 2 ^ 63 →
        footprint.handle * o.readers.toNat < 2 ^ 63 →
        ∀ strategy ∈ strategies, o.Fits footprint effective strategy) ∧
      ((∀ strategy ∈ strategies, o.Fits footprint effective strategy) →
        ∀ time, ∃ reports, ((runOptions now fileText o footprint).run time).1 = .ok reports ∧
          exitStatus (.ok reports) = 0 ∧ reports.map (·.strategy) = strategies ∧
          ∀ report ∈ reports, report.writes.succeeded + report.writes.failed = total ∧
            report.corrupt = 0 ∧ report.writes.succeeded =
              if o.ring then total else min total (effective.capacity.toNat / recordSize)) ∧
      ((∃ strategy ∈ strategies, ¬ o.Fits footprint effective strategy) →
        ∀ time, ((runOptions now fileText o footprint).run time).1 = .error (.memory {}) ∧
          exitStatus (.error (.memory {})) = 101) ∧
      ∀ strategy ∈ strategies, ∀ store, Store.build strategy effective = .ok store →
        ∀ (ids : List UInt32) (offset : Nat) (order : Order),
          (store.after (ids.map (syntheticWrite o.ring))).read offset = some order →
            order.isCorrupt = false) ∧
    ∀ fault, effective.validate = .error fault →
      runOptions now fileText o footprint = pure (.error (.config fault)) ∧
        exitStatus (.error (.config fault)) = 1 := by
  intro effective total
  constructor
  · intro hvalid
    have hprepare : o.prepare fileText = .ok (effective, strategies) :=
      Options.prepare_of_valid hlog hids hfile hstrategies hvalid
    have hrun : runOptions now fileText o footprint =
        runStrategies footprint now o effective strategies := by rw [runOptions, hprepare]
    rw [hrun]
    refine ⟨Strategy.sublist_of_select hstrategies, ?_, fun hfits time => ?_, fun hlarge time => ?_,
      ?_⟩
    · intro hcapacity htable hhandles strategy _
      exact Options.fits_of_capacity_lt hcapacity htable hhandles
    · obtain ⟨reports, hreports, hexact⟩ := returns_runStrategies now hvalid hfits time
      obtain ⟨hstatus, hmap, hall⟩ := exact_reports hexact
      refine ⟨reports, hreports, hstatus, hmap, fun report hreport => ?_⟩
      obtain ⟨strategy, hreport⟩ := hall report hreport
      exact ⟨hreport.total_eq, hreport.corrupt_eq, hreport.succeeded_eq⟩
    · exact ⟨returns_runStrategies_of_not_fits now hvalid hlarge time, rfl⟩
    · intro strategy _ store hbuild ids offset order hread
      exact Store.not_isCorrupt_of_read (Store.isNew_of_build hbuild) hread
  · intro fault hfault
    have hprepare := Options.prepare_of_invalid hlog hids hfile hfault
    exact ⟨by rw [runOptions, hprepare], rfl⟩

/-- A file that is not valid by itself is repaired by the options, one that is valid is
spoilt by them, and with a larger capacity the first strategy already stops the program. -/
theorem runOptions_outcome_override :
    let o : Options :=
      { strategy := "All", capacity := some 256, segments := some 2, writers := 2, records := 3
        config := some "store.json" }
    let spoilt : Options := { o with segments := some 5, strategy := "cas" }
    let large : Options := { o with capacity := some 0x8000000000000000 }
    let small : StoreConfig := { capacity := 10, segmentCount := 0 }
    let fileText (_ : String) : Option String :=
      some "\x7b\"capacity\": 10, \"segment_count\": 0\x7d"
    (LogFilter.check o.logLevel = .ok () ∧ o.checkIdSpace = .ok () ∧
      Strategy.select o.strategy = .ok Strategy.all ∧ o.fileConfig fileText = .ok small) ∧
    small.validate = .error (.capacityTooSmall 10) ∧
    (∃ reports, ((runOptions (pure 0) fileText o : StateM Unit _).run ()).1 = .ok reports ∧
      exitStatus (.ok reports) = 0 ∧ reports.map (·.strategy) = Strategy.all ∧
      ∀ report ∈ reports, report.writes.succeeded = 4) ∧
    ((runOptions (pure 0) fileText large : StateM Unit _).run ()).1 = .error (.memory {}) ∧
    spoilt.fileConfig (fun _ => some "\x7b\x7d") = .ok {} ∧ ({} : StoreConfig).validate = .ok () ∧
    runOptions (pure 0) (fun _ => some "\x7b\x7d") spoilt =
      (pure (.error (.config (.segmentTooSmall 256 5))) : StateM Unit _) := by
  intro o spoilt large small fileText
  have hlog : LogFilter.check o.logLevel = .ok () := by decide +kernel
  have hids : o.checkIdSpace = .ok () := by decide +kernel
  have hstrategies : Strategy.select o.strategy = .ok Strategy.all := by decide +kernel
  have hfile : o.fileConfig fileText = .ok small := by decide +kernel
  have hsmall : small.validate = .error (.capacityTooSmall 10) := by decide +kernel
  have hvalid : (o.override small).validate = .ok () := by decide +kernel
  have hlarge : (large.override small).validate = .ok () := by decide +kernel
  have hspoilt : Strategy.select spoilt.strategy = .ok [.optimistic] := by decide +kernel
  have hempty : spoilt.fileConfig (fun _ => some "\x7b\x7d") = .ok {} := by decide +kernel
  have hdefault : ({} : StoreConfig).validate = .ok () := by decide +kernel
  have hfault : (spoilt.override {}).validate = .error (.segmentTooSmall 256 5) := by
    decide +kernel
  obtain ⟨-, hfit, hruns, -⟩ := (runOptions_outcome {} (pure 0 : StateM Unit Nat) fileText hlog hids
    hstrategies hfile).1 hvalid
  obtain ⟨-, -, -, hstops, -⟩ := (runOptions_outcome (o := large) {} (pure 0 : StateM Unit Nat)
    fileText hlog hids hstrategies hfile).1 hlarge
  obtain ⟨reports, hreports, hstatus, hmap, hcounts⟩ :=
    hruns (hfit (by decide) (by decide) (by decide)) ()
  have hregion : ¬ large.Fits {} (large.override small) .exclusive := fun h =>
    absurd (h.regions _ List.mem_cons_self) (by decide +kernel)
  refine ⟨⟨hlog, hids, hstrategies, hfile⟩, hsmall, ⟨reports, hreports, hstatus, hmap, ?_⟩,
    (hstops ⟨.exclusive, List.mem_cons_self, hregion⟩ ()).1, hempty, hdefault,
    ((runOptions_outcome (o := spoilt) {} (pure 0) _ hlog hids hspoilt hempty).2 _ hfault).1⟩
  intro report hreport
  obtain ⟨-, -, hsucceeded⟩ := hcounts report hreport
  exact hsucceeded.trans (by decide)

/-- Options that pass all checks, with a valid configuration, and yet the program stops:
one byte more than a region can have, whether the store has one region by its strategy or
by its number of segments. -/
theorem runOptions_outcome_stopped :
    let stops (o : Options) (strategy : Strategy) : Prop :=
      LogFilter.check o.logLevel = .ok () ∧ o.checkIdSpace = .ok () ∧
        Strategy.select o.strategy = .ok [strategy] ∧
        o.fileConfig (fun _ => none) = .ok {} ∧ (o.override {}).validate = .ok () ∧
        Id.run (runOptions (pure 0) (fun _ => none) o) = .error (.memory {})
    stops { strategy := "exclusive", capacity := some 0x8000000000000000
            writers := 0, readers := 0 } .exclusive ∧
      stops { strategy := "segmented", capacity := some 0x8000000000000000, segments := some 1
              writers := 1, readers := 0, records := 1 } .segmented ∧
      exitStatus (.error (.memory {})) ≠ 0 := by
  decide +kernel

end OrderStore
