import MojangApi.Library.Progress
import MojangApi.Reporter

/-! # Reports partition the counters

Every value of a snapshot was a counter's when the snapshot loaded it, and every report
is the difference of the snapshot taken for it and the one of the last accepted report.
-/

namespace MojangApi.Reporter
open MojangApi Library

/-- The counter that is loaded next. -/
def State.nextLoad (s : State) : Option Counter :=
  match s.phase with
  | .baseline (c :: _) _ => some c
  | .loading _ (c :: _) _ => some c
  | _ => none

section Runs
variable (M : Machine State Event)

/-- Among the events `reads` after `before` is the load of a counter, which had the value that
the snapshot shows. -/
def Read (before reads : List Event) (snapshot : MetricsSnapshot) (c : Counter) : Prop :=
  ∃ earlier later s, reads = earlier ++ .load :: later ∧ M.run (before ++ earlier) = some s ∧
    s.nextLoad = some c ∧ snapshot.counter c = s.metrics.counter c

/-- The reporter was started at this time, with the snapshot that was loaded until then. -/
def Began (es : List Event) (time : ℕ) (snapshot : MetricsSnapshot) : Prop :=
  ∃ before after s, es = before ++ .start :: after ∧ M.run before = some s ∧ time = s.now ∧
    ∀ c, Read M [] before snapshot c

/-- The last tick came at this time, and all but the unread counters were loaded since. -/
def Loaded (es : List Event) (time : ℕ) (unread : List Counter) (snapshot : MetricsSnapshot) :
    Prop :=
  ∃ before reads s, es = before ++ .tick :: reads ∧ .tick ∉ reads ∧ M.run before = some s ∧
    time = s.now ∧ ∀ c ∉ unread, Read M (before ++ [.tick]) reads snapshot c

/-- At some point of the run the snapshot was complete that was begun at this time. -/
def Taken (es : List Event) (time : ℕ) (snapshot : MetricsSnapshot) : Prop :=
  ∃ during after, es = during ++ after ∧ Loaded M during time [] snapshot

end Runs

/-- Every report is the difference of the snapshot taken for it and the one before. -/
inductive Chain (taken : ℕ → MetricsSnapshot → Prop) (initial : MetricsSnapshot) :
    List Report → MetricsSnapshot → Prop
  | nil : Chain taken initial [] initial
  | snoc {reports : List Report} {last current : MetricsSnapshot} {r : Report}
      (h : Chain taken initial reports last) (htaken : taken r.madeAt current)
      (hle : ∀ c, last.counter c ≤ current.counter c)
      (hdiff : ∀ c, r.snapshot.counter c = current.counter c - last.counter c) :
      Chain taken initial (reports ++ [r]) current

section Longer
variable {M : Machine State Event} {before reads es : List Event} {snapshot : MetricsSnapshot}
  {c : Counter} {time : ℕ} {unread : List Counter}

theorem Read.append (h : Read M before reads snapshot c) (more : List Event) :
    Read M before (reads ++ more) snapshot c := by
  obtain ⟨earlier, later, s, rfl, hs, hnext, hvalue⟩ := h
  exact ⟨earlier, later ++ more, s, by simp, hs, hnext, hvalue⟩

theorem Began.append (h : Began M es time snapshot) (more : List Event) :
    Began M (es ++ more) time snapshot := by
  obtain ⟨before, after, s, rfl, hs, htime, hread⟩ := h
  exact ⟨before, after ++ more, s, by simp, hs, htime, hread⟩

theorem Loaded.snoc (h : Loaded M es time unread snapshot) {e : Event} (he : e ≠ .tick) :
    Loaded M (es ++ [e]) time unread snapshot := by
  obtain ⟨before, reads, s, rfl, htick, hs, htime, hread⟩ := h
  refine ⟨before, reads ++ [e], s, by simp, ?_, hs, htime, fun c hc => (hread c hc).append [e]⟩
  simp only [List.mem_append, List.mem_singleton, not_or]
  exact ⟨htick, he.symm⟩

theorem Taken.append (h : Taken M es time snapshot) (more : List Event) :
    Taken M (es ++ more) time snapshot := by
  obtain ⟨during, after, rfl, hloaded⟩ := h
  exact ⟨during, after ++ more, by simp, hloaded⟩

theorem Chain.mono {taken taken' : ℕ → MetricsSnapshot → Prop} {initial last : MetricsSnapshot}
    {reports : List Report} (h : Chain taken initial reports last)
    (hmono : ∀ time snapshot, taken time snapshot → taken' time snapshot) :
    Chain taken' initial reports last := by
  induction h with
  | nil => exact .nil
  | snoc _ htaken hle hdiff ih => exact ih.snoc (hmono _ _ htaken) hle hdiff

/-- The last snapshot is the one that was taken for the last report. -/
theorem Chain.taken_last {taken : ℕ → MetricsSnapshot → Prop} {initial last : MetricsSnapshot}
    {reports : List Report} {r : Report} (h : Chain taken initial reports last)
    (hr : reports.getLast? = some r) : taken r.madeAt last := by
  cases h with
  | nil => simp at hr
  | snoc _ htaken _ _ =>
    rw [List.getLast?_concat, Option.some.injEq] at hr
    exact hr ▸ htaken

/-- The load that comes next adds the value that its counter has. -/
theorem read_load {rest : List Counter} {s : State} (hs : M.run (before ++ reads) = some s)
    (hnext : s.nextLoad = some c) (h : ∀ d ∉ c :: rest, Read M before reads snapshot d)
    {d : Counter} (hd : d ∉ rest) :
    Read M before (reads ++ [.load]) (snapshot.load s.metrics c) d := by
  by_cases hcd : c = d
  · subst hcd
    exact ⟨reads, [], s, rfl, hs, hnext, by simp⟩
  · have hread := h d (by simp [Ne.symm hcd, hd])
    obtain ⟨earlier, later, u, hsplit, hu, hnext', hvalue⟩ := hread.append [.load]
    exact ⟨earlier, later, u, hsplit, hu, hnext', by simpa [hcd] using hvalue⟩

end Longer

/-- Where the snapshot in the making comes from. -/
def PhaseSourced (M : Machine State Event) (es : List Event) (s : State) : Phase → Prop
  | .baseline unread snapshot => s.accepted = [] ∧ ∀ c ∉ unread, Read M [] es snapshot c
  | .loading now unread currentSnapshot => Loaded M es now unread currentSnapshot
  | .sending now currentSnapshot snapshot => Taken M es now currentSnapshot ∧
      ∀ c, s.lastSuccessfulSnapshot.counter c ≤ currentSnapshot.counter c ∧
        snapshot.counter c = currentSnapshot.counter c - s.lastSuccessfulSnapshot.counter c
  | _ => True

/-- Where the baseline and the reports come from, once the reporter was started. -/
structure Sourced (M : Machine State Event) (es : List Event) (s : State) : Prop where
  phase : PhaseSourced M es s s.phase
  started : (∃ unread snapshot, s.phase = .baseline unread snapshot) ∨
    Began M es s.reporterStartedAt s.initialSnapshot ∧
      Chain (Taken M es) s.initialSnapshot s.accepted s.lastSuccessfulSnapshot

section Steps
variable {metrics : Metrics} {now : ℕ} {M : Machine State Event} {es : List Event} {s t : State}
  {e : Event}

/-- An event between the steps of the reporter changes nothing of this. -/
theorem Sourced.keep (h : Sourced M es s) (he : e ≠ .tick) (hphase : t.phase = s.phase)
    (hinitial : t.initialSnapshot = s.initialSnapshot)
    (hstarted : t.reporterStartedAt = s.reporterStartedAt)
    (hlast : t.lastSuccessfulSnapshot = s.lastSuccessfulSnapshot)
    (haccepted : t.accepted = s.accepted) : Sourced M (es ++ [e]) t where
  phase := by
    have hp := h.phase
    rw [hphase]
    cases hcase : s.phase <;> rw [hcase] at hp
    case baseline => exact ⟨haccepted.trans hp.1, fun c hc => (hp.2 c hc).append [e]⟩
    case loading => exact hp.snoc he
    case sending =>
      refine ⟨hp.1.append [e], ?_⟩
      rw [hlast]
      exact hp.2
    all_goals trivial
  started := by
    rw [hphase, hinitial, hstarted, hlast, haccepted]
    exact h.started.imp_right fun hs =>
      ⟨hs.1.append [e], hs.2.mono fun _ _ htaken => htaken.append [e]⟩

/-- The reporter goes on without touching its records. -/
theorem Sourced.setPhase (h : Sourced M es s) (e : Event) {p : Phase}
    (hbaseline : ∀ unread snapshot, s.phase ≠ .baseline unread snapshot)
    (hp : PhaseSourced M (es ++ [e]) s p) : Sourced M (es ++ [e]) { s with phase := p } where
  phase := by
    cases p <;> exact hp
  started := by
    rcases h.started with ⟨unread, snapshot, hphase⟩ | ⟨hbegan, hchain⟩
    · exact absurd hphase (hbaseline unread snapshot)
    · exact .inr ⟨hbegan.append [e], hchain.mono fun _ _ htaken => htaken.append [e]⟩

theorem Sourced.moves (h : Sourced M es s) (hs : M.run es = some s) (hbalanced : Balanced s)
    (hm : Moves s e t) : Sourced M (es ++ [e]) t := by
  have hp := h.phase
  cases hm with
  | count c k => exact h.keep (by simp) rfl rfl rfl rfl rfl
  | elapse d => exact h.keep (by simp) rfl rfl rfl rfl rfl
  | signalShutdown => exact h.keep (by simp) rfl rfl rfl rfl rfl
  | @loadBaseline c unread snapshot hphase =>
    rw [hphase] at hp
    have hnext : s.nextLoad = some c := by rw [State.nextLoad, hphase]
    exact ⟨⟨hp.1, fun d hd => read_load hs hnext hp.2 hd⟩, .inl ⟨_, _, rfl⟩⟩
  | @load now c unread currentSnapshot hphase =>
    rw [hphase] at hp
    have hnext : s.nextLoad = some c := by rw [State.nextLoad, hphase]
    apply h.setPhase .load (by simp [hphase])
    obtain ⟨before, reads, u, rfl, htick, hu, htime, hread⟩ := hp
    rw [List.append_cons] at hs
    refine ⟨before, reads ++ [.load], u, by simp, ?_, hu, htime, fun d hd => ?_⟩
    · simp [htick]
    · exact read_load hs hnext hread hd
  | start hphase =>
    rw [hphase] at hp
    refine ⟨trivial, .inr ⟨⟨es, [], s, rfl, hs, rfl, fun c => hp.2 c (by simp)⟩, ?_⟩⟩
    dsimp only
    rw [hp.1]
    exact .nil
  | tick hphase =>
    apply h.setPhase _ (by simp [hphase])
    exact ⟨es, [], s, rfl, by simp, hs, rfl, fun c hc => absurd c.mem_all hc⟩
  | send hphase =>
    have hcounters := hbalanced.phase
    rw [hphase] at hp hcounters
    apply h.setPhase .send (by simp [hphase])
    exact ⟨⟨es, [.send], rfl, hp⟩, fun c => ⟨(hcounters.2.2 c (by simp)).1, by simp⟩⟩
  | accept hphase =>
    rw [hphase] at hp
    rcases h.started with ⟨unread, initial, hbaseline⟩ | ⟨hbegan, hchain⟩
    · cases hphase.symm.trans hbaseline
    · refine ⟨trivial, .inr ⟨hbegan.append _, ?_⟩⟩
      have hlonger := hchain.mono fun _ _ htaken => htaken.append [.answer true]
      exact hlonger.snoc (hp.1.append _) (fun c => (hp.2 c).1) fun c => (hp.2 c).2
  | buildClient hphase => exact h.setPhase _ (by simp [hphase]) trivial
  | noClient hphase => exact h.setPhase _ (by simp [hphase]) trivial
  | stop hphase => exact h.setPhase _ (by simp [hphase]) trivial
  | refuse hphase => exact h.setPhase _ (by simp [hphase]) trivial

theorem sourced_run (h : ((reporter metrics now).restrict noWrap).run es = some s) :
    Sourced ((reporter metrics now).restrict noWrap) es s := by
  refine Machine.runFrom_history (P := fun es s =>
    Sourced ((reporter metrics now).restrict noWrap) es s) ?_ ?_ h
  · exact ⟨⟨rfl, fun c hc => absurd c.mem_all hc⟩, .inl ⟨_, _, rfl⟩⟩
  · intro es u e v hu hsourced hv
    exact hsourced.moves hu (reachable_balanced (Machine.reachable_of_run hu))
      (step_moves (Machine.restrict_step hv).2)

end Steps

/-- Before the start there are no reports. -/
theorem Sourced.origin {M : Machine State Event} {es : List Event} {s : State}
    (h : Sourced M es s) :
    (∃ unread snapshot, s.phase = .baseline unread snapshot) ∧ s.accepted = [] ∨
      Began M es s.reporterStartedAt s.initialSnapshot ∧
        Chain (Taken M es) s.initialSnapshot s.accepted s.lastSuccessfulSnapshot := by
  rcases h.started with ⟨unread, snapshot, hphase⟩ | hstarted
  · have hp := h.phase
    rw [hphase] at hp
    exact .inl ⟨⟨unread, snapshot, hphase⟩, hp.1⟩
  · exact .inr hstarted

/-- In every run: the accepted reports and what is not yet reported make up what was counted
since the start. Reports are contiguous in time, and no difference of snapshots saturates. The
snapshot of the start was loaded from the counters before it, and each report is the difference
of the last one and the snapshot that was loaded from the counters after its tick. -/
theorem reports_partition (metrics : Metrics) (now : ℕ) (es : List Event) (s : State)
    (h : ((reporter metrics now).restrict noWrap).run es = some s) :
    (∀ c, (s.accepted.map fun r => r.snapshot.counter c).sum +
        (s.metrics.counter c - s.lastSuccessfulSnapshot.counter c) =
          s.metrics.counter c - s.initialSnapshot.counter c ∧
      s.initialSnapshot.counter c ≤ s.lastSuccessfulSnapshot.counter c ∧
      s.lastSuccessfulSnapshot.counter c ≤ s.metrics.counter c) ∧
    Contiguous s.reporterStartedAt s.accepted ∧
    s.lastSuccessfulReportAt = lastAt s.reporterStartedAt s.accepted ∧
    s.reporterStartedAt ≤ lastAt s.reporterStartedAt s.accepted ∧
    (s.accepted.map fun r => r.snapshot.reportPeriod).sum =
      lastAt s.reporterStartedAt s.accepted - s.reporterStartedAt ∧
    ((∃ unread snapshot, s.phase = .baseline unread snapshot) ∧ s.accepted = [] ∨
      Began ((reporter metrics now).restrict noWrap) es s.reporterStartedAt s.initialSnapshot ∧
        Chain (Taken ((reporter metrics now).restrict noWrap) es) s.initialSnapshot s.accepted
          s.lastSuccessfulSnapshot) ∧
    ∀ reportAt currentSnapshot snapshot,
      s.phase = .sending reportAt currentSnapshot snapshot →
        s.lastSuccessfulReportAt ≤ reportAt ∧
        snapshot.reportPeriod = reportAt - s.lastSuccessfulReportAt ∧
        Taken ((reporter metrics now).restrict noWrap) es reportAt currentSnapshot ∧
        ∀ c, s.lastSuccessfulSnapshot.counter c ≤ currentSnapshot.counter c ∧
          snapshot.counter c =
            currentSnapshot.counter c - s.lastSuccessfulSnapshot.counter c := by
  have hs := reachable_balanced (Machine.reachable_of_run h)
  have hsourced := sourced_run h
  have hsum := hs.contiguous.sum
  refine ⟨?_, hs.contiguous, hs.last, by omega, by omega, hsourced.origin, ?_⟩
  · intro c
    have hc := hs.counted c
    have hb := hs.behind c
    exact ⟨by omega, by omega, hb⟩
  · intro reportAt currentSnapshot snapshot hphase
    have hp := hs.phase
    have htaken := hsourced.phase
    rw [hphase] at hp htaken
    obtain ⟨hlast, -, rfl, hcounters⟩ := hp
    exact ⟨hlast, rfl, htaken.1, fun c => ⟨(hcounters c).1, by simp⟩⟩

/-- Two requests, a report that is refused, one more request, a report that is accepted. -/
def refusedReport : List Event :=
  List.replicate 12 Event.load ++ [.start, .buildClient true, .count .uuidRequests 2,
    .elapse (Duration.fromMins 5), .tick] ++ List.replicate 12 Event.load ++ [.send, .answer false,
    .count .uuidRequests 1, .elapse (Duration.fromMins 5), .tick] ++
    List.replicate 12 Event.load ++ [.send, .answer true]

/-- The one accepted report covers all three requests and both periods. -/
theorem reports_partition_refused : ∃ s r,
    ((reporter {} 0).restrict noWrap).run refusedReport = some s ∧ s.accepted = [r] ∧
      r.snapshot.counter .uuidRequests = 3 ∧ r.snapshot.reportPeriod = Duration.fromMins 10 ∧
      Taken ((reporter {} 0).restrict noWrap) refusedReport (Duration.fromMins 10)
        s.lastSuccessfulSnapshot := by
  have hrun : (((reporter {} 0).restrict noWrap).run refusedReport).map (fun s =>
      (s.accepted.map Report.madeAt, s.reporterStartedAt, s.metrics.uuidRequests,
        s.lastSuccessfulSnapshot.uuidRequests, s.initialSnapshot.uuidRequests)) =
      some ([Duration.fromMins 10], 0, 3, 3, 0) := by decide +kernel
  obtain ⟨s, hs, hvalues⟩ := Option.map_eq_some_iff.mp hrun
  simp only [Prod.mk.injEq] at hvalues
  obtain ⟨haccepted, hstarted, hmetrics, hlast, hinitial⟩ := hvalues
  obtain ⟨r, hr, hmade⟩ : ∃ r, s.accepted = [r] ∧ r.madeAt = Duration.fromMins 10 := by
    simpa [List.map_eq_singleton_iff] using haccepted
  obtain ⟨hcounters, -, -, -, hperiods, hsources, -⟩ := reports_partition {} 0 refusedReport s hs
  have hcount := (hcounters .uuidRequests).1
  simp only [hr, Metrics.counter, MetricsSnapshot.counter, hmetrics, hlast, hinitial,
    List.map_cons, List.map_nil, List.sum_singleton] at hcount
  simp only [hr, List.map_cons, List.map_nil, List.sum_singleton, lastAt, hstarted] at hperiods
  refine ⟨s, r, hs, hr, by simpa [MetricsSnapshot.counter] using hcount, ?_, ?_⟩
  · simpa [hmade] using hperiods
  · rcases hsources with ⟨-, hnone⟩ | ⟨-, hchain⟩
    · simp [hr] at hnone
    · exact hmade ▸ hchain.taken_last (by rw [hr]; rfl)

end MojangApi.Reporter
