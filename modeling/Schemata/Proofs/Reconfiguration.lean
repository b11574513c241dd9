import Schemata.Proofs.Handlers

/-!
# Requests after a failed one

A request that is carried out leaves the handlers it prescribes, whatever was there before: what is
put up depends on the request and the host only. A request that fails leaves the handlers it got to,
and the log still remembers the one before it. Making that one again is taken for no work, so it
returns although its handlers are gone.

`LogHistory` keeps, next to the state, the hosts there have been and the requests that failed since
one was carried out. `LogHistory.prescribed_iff` says when a request that returns leaves what it
prescribes: always, if it is carried out; and if it needs no work, exactly if nothing failed since
the remembered one was carried out, or what the last failed request got to happens to be the same.
`Consoles.gone_after_failure` is the history in which nothing is left.
-/

namespace Schemata

/-! ## What a request prescribes -/

namespace LogRequest

variable {host : LogHost} {r : LogRequest} {cs : List LogChannel}

/-- The files that a request opens on a host: one if it names one. -/
def Opens (host : LogHost) (r : LogRequest) (files : List Location) : Prop :=
  match r.normal.outputFile with
  | none => files = []
  | some path => ∃ l, host.openFile path = .ok l ∧ files = [l]

/-- The channels that a request prescribes on a host: at its level, one for each of its sinks for
the streams and one for the file. -/
def Prescribes (host : LogHost) (r : LogRequest) (cs : List LogChannel) : Prop :=
  ∃ threshold files, r.level.threshold = .ok threshold ∧ r.Opens host files ∧
    cs = (r.streamSinks host.terminal ++ files.map fun l ↦ Sink.data (.file l)).map
      (r.channelAt threshold)

@[simp] theorem normal_normal (r : LogRequest) : r.normal.normal = r.normal := by
  rw [normal, normal, Option.filter_filter]
  simp

theorem prescribes_normal : r.normal.Prescribes host cs ↔ r.Prescribes host cs := by
  unfold Prescribes Opens
  rw [normal_normal]
  rfl

theorem streamSinks_ne_nil (terminal : Bool) (r : LogRequest) : r.streamSinks terminal ≠ [] := by
  unfold streamSinks
  split_ifs <;> exact List.cons_ne_nil _ _

theorem Prescribes.ne_nil (h : r.Prescribes host cs) : cs ≠ [] := by
  obtain ⟨threshold, files, -, -, rfl⟩ := h
  intro hnil
  have hsinks := List.map_eq_nil_iff.mp hnil
  exact streamSinks_ne_nil _ r (List.append_eq_nil_iff.mp hsinks).1

theorem eq_map_of_channels {sinks : List Sink} {threshold : Nat}
    (hlevel : r.level.threshold = .ok threshold) (h : (r.channels host sinks).1 = .ok ()) :
    (r.channels host sinks).2 = sinks.map (r.channelAt threshold) := by
  induction sinks with
  | nil => rfl
  | cons sink sinks ih =>
    unfold channels at h ⊢
    cases hc : r.channel host sink with
    | error e =>
      rw [hc] at h
      cases h
    | ok c =>
      rw [hc] at h
      obtain ⟨threshold', hlevel', rfl⟩ := eq_of_channel hc
      obtain rfl := Except.ok.inj (hlevel'.symm.trans hlevel)
      exact congrArg (_ :: ·) (ih h)

theorem exists_threshold_of_channels {sinks : List Sink} (hsinks : sinks ≠ [])
    (h : (r.channels host sinks).1 = .ok ()) : ∃ threshold, r.level.threshold = .ok threshold := by
  obtain ⟨sink, sinks, rfl⟩ := List.exists_cons_of_ne_nil hsinks
  unfold channels at h
  cases hc : r.channel host sink with
  | error e =>
    rw [hc] at h
    cases h
  | ok c =>
    obtain ⟨threshold, hlevel, -⟩ := eq_of_channel hc
    exact ⟨threshold, hlevel⟩

theorem opens_nil (hfile : r.normal.outputFile = none) : r.Opens host [] := by
  unfold Opens
  rw [hfile]

theorem opens_singleton {path : String} {l : Location} (hfile : r.normal.outputFile = some path)
    (hopen : host.openFile path = .ok l) : r.Opens host [l] := by
  unfold Opens
  rw [hfile]
  exact ⟨l, hopen, rfl⟩

/-- **A request that gets to its end puts up what it prescribes.** -/
theorem prescribes_installed (h : (r.installed host).1 = .ok ()) :
    r.Prescribes host (r.installed host).2 := by
  unfold installed at h ⊢
  rcases hstreams : r.channels host (r.streamSinks host.terminal) with ⟨e | ⟨⟨⟩⟩, cs⟩
  · rw [hstreams] at h
    exact nomatch h
  have hok : (r.channels host (r.streamSinks host.terminal)).1 = .ok () := by rw [hstreams]
  obtain ⟨threshold, hlevel⟩ := exists_threshold_of_channels (streamSinks_ne_nil _ r) hok
  have hcs := eq_map_of_channels hlevel hok
  rw [hstreams] at h hcs
  dsimp only at h hcs ⊢
  cases hfile : r.normal.outputFile with
  | none =>
    refine ⟨threshold, [], hlevel, opens_nil hfile, ?_⟩
    rw [List.map_nil, List.append_nil]
    exact hcs
  | some path =>
    rw [hfile] at h
    dsimp only at h ⊢
    cases hopen : host.openFile path with
    | error e =>
      rw [hopen] at h
      exact nomatch h
    | ok l =>
      rw [hopen] at h
      dsimp only at h ⊢
      refine ⟨threshold, [l], hlevel, opens_singleton hfile hopen, ?_⟩
      rw [List.map_append, hcs, eq_map_of_channels hlevel h]
      rfl

end LogRequest

/-! ## The log's own channels -/

namespace LogState

variable {s : LogState} {host : LogHost} {force : Bool} {r : LogRequest}

/-- What the live handlers are for that the log put up, in order. -/
def channels (s : LogState) : List LogChannel :=
  (s.handlers.filter (·.isOwn)).map (·.toLogChannel)

theorem channels_addAll {cs : List LogChannel} (hcs : ∀ c ∈ cs, c.sink ≠ .foreign) :
    (s.addAll cs).channels = s.channels ++ cs := by
  induction cs generalizing s with
  | nil => exact (List.append_nil _).symm
  | cons c cs ih =>
    obtain ⟨hc, hcs⟩ := List.forall_mem_cons.mp hcs
    have hadd : (s.add c).channels = s.channels ++ [c] := by
      have hown : (LogHandler.mk c s.next).isOwn = true := decide_eq_true hc
      rw [channels, channels, add, List.filter_append, List.map_append]
      simp only [List.filter_singleton, hown, Bool.cond_true, List.map_singleton]
    rw [addAll, List.foldl_cons, ← addAll, ih hcs, hadd, List.append_assoc]
    rfl

theorem Owned.channels_release (hs : s.Owned) : s.release.channels = [] := by
  rw [channels, List.map_eq_nil_iff, List.filter_eq_nil_iff]
  intro h hh
  rw [hs.isOwn_of_mem_release hh]
  exact Bool.false_ne_true

/-- A request that is carried out leaves what it puts up, as far as it gets, and nothing else. -/
theorem Owned.channels_carryOut (hs : s.Owned) (host : LogHost) (hdone : s.isDone force r = false) :
    (s.carryOut host force r).2.channels = (r.installed host).2 := by
  have hforeign : ∀ c ∈ (r.installed host).2, c.sink ≠ .foreign :=
    fun c hc ↦ LogRequest.sink_ne_foreign_of_mem_installed hc
  rw [carryOut_eq, if_neg (Bool.not_eq_true _ ▸ hdone), channels, handlers_settle, ← channels,
    channels_addAll hforeign, hs.channels_release, List.nil_append]

theorem fst_carryOut (host : LogHost) (hdone : s.isDone force r = false) :
    (s.carryOut host force r).1 = (r.installed host).1 := by
  rw [carryOut_eq, if_neg (Bool.not_eq_true _ ▸ hdone)]

theorem carryOut_of_isDone (host : LogHost) (hdone : s.isDone force r = true) :
    s.carryOut host force r = (.ok (), s) := by
  rw [carryOut_eq, if_pos hdone]

theorem channels_addForeign (s : LogState) (threshold : Nat) :
    (s.addForeign threshold).channels = s.channels := by
  rw [channels, channels, addForeign, List.filter_append]
  simp [LogHandler.isOwn]

theorem channels_remove {id : Nat} (h : ∀ h ∈ s.handlers, h.isOwn = true → h.id ≠ id) :
    (s.remove id).channels = s.channels := by
  rw [channels, channels, remove, List.filter_filter]
  congr 1
  refine List.filter_congr fun x hx ↦ ?_
  cases hown : x.isOwn with
  | false => rfl
  | true => simpa using h x hx hown

/-- Nobody else takes down a handler that the log put up. -/
def Spared : LogState → List LogEvent → Prop
  | _, [] => True
  | s, e :: events =>
    (∀ id, e = .remove id → ∀ h ∈ s.handlers, h.isOwn = true → h.id ≠ id) ∧
      Spared (s.step e) events

end LogState

/-! ## Histories -/

/-- The log with what has been as far as later requests depend on it. -/
structure LogHistory where
  /-- The log. -/
  log : LogState := {}
  /-- The hosts on which requests were made. -/
  hosts : List LogHost := []
  /-- The requests that failed since one was carried out, the last one first. -/
  failed : List (LogHost × LogRequest) := []

namespace LogHistory

variable {p : LogHistory} {e : LogEvent} {events : List LogEvent} {host : LogHost} {force : Bool}
  {r : LogRequest}

/-- The history after a request. -/
def request (p : LogHistory) (host : LogHost) (force : Bool) (r : LogRequest) : LogHistory where
  log := (p.log.carryOut host force r).2
  hosts := host :: p.hosts
  failed := match (p.log.carryOut host force r).1 with
    | .error _ => (host, r) :: p.failed
    | .ok () => if p.log.isDone force r then p.failed else []

/-- The history after an event. -/
def step (p : LogHistory) (e : LogEvent) : LogHistory :=
  match p.log.call? e with
  | some (host, force, r) => p.request host force r
  | none => { p with log := p.log.step e }

/-- The history after several events. -/
def run (p : LogHistory) (events : List LogEvent) : LogHistory := events.foldl step p

/-- What is known of the log's own handlers: they are those of the request that failed last, or else
of the one that was carried out. -/
structure Sound (p : LogHistory) : Prop where
  owned : p.log.Owned
  left : ∀ host r rest, p.failed = (host, r) :: rest → p.log.channels = (r.installed host).2
  carried : p.failed = [] → ∀ r, p.log.remembered = some r →
    ∃ host ∈ p.hosts, r.Prescribes host p.log.channels

theorem sound_start : Sound {} where
  owned := LogState.owned_start
  left _ _ _ h := nomatch h
  carried _ _ h := nomatch h

theorem request_of_isDone (hdone : p.log.isDone force r = true) :
    p.request host force r = { p with hosts := host :: p.hosts } := by
  rw [request, p.log.carryOut_of_isDone host hdone, hdone]
  rfl

theorem failed_request_of_error {fault : Error}
    (hfault : (p.log.carryOut host force r).1 = .error fault) :
    (p.request host force r).failed = (host, r) :: p.failed := by
  rw [request, hfault]

theorem failed_request_of_ok (hdone : p.log.isDone force r = false)
    (hok : (p.log.carryOut host force r).1 = .ok ()) : (p.request host force r).failed = [] := by
  rw [request, hok, hdone]
  rfl

theorem Sound.request (h : p.Sound) (host : LogHost) (force : Bool) (r : LogRequest) :
    (p.request host force r).Sound := by
  cases hdone : p.log.isDone force r with
  | true =>
    -- the log and the failures stay as they are
    rw [request_of_isDone hdone]
    refine ⟨h.owned, h.left, fun hfailed r hr ↦ ?_⟩
    obtain ⟨host', hmem, hprescribes⟩ := h.carried hfailed r hr
    exact ⟨host', List.mem_cons_of_mem host hmem, hprescribes⟩
  | false =>
    have howned := h.owned.carryOut host force r
    have hchannels := h.owned.channels_carryOut host hdone
    have hfst := LogState.fst_carryOut host hdone
    cases hok : (r.installed host).1 with
    | error fault =>
      -- what was put up before the failure is what is left
      have hfailed := failed_request_of_error (hfst.trans hok)
      refine ⟨howned, fun host' r' rest hcons ↦ ?_, fun hnil ↦ ?_⟩
      · obtain ⟨⟨rfl, rfl⟩, -⟩ : (host = host' ∧ r = r') ∧ p.failed = rest := by
          simpa using hfailed.symm.trans hcons
        exact hchannels
      · rw [hfailed] at hnil
        exact nomatch hnil
    | ok _ =>
      -- nothing has failed since this request, which is the remembered one now
      have hfailed := failed_request_of_ok hdone (hfst.trans hok)
      refine ⟨howned, fun host' r' rest hcons ↦ ?_, fun _ r' hr' ↦ ?_⟩
      · rw [hfailed] at hcons
        exact nomatch hcons
      · have hremembered := LogState.remembered_carryOut_of_ok (hfst.trans hok)
        obtain rfl : r.normal = r' := Option.some.inj (hremembered.symm.trans hr')
        refine ⟨host, List.mem_cons_self, ?_⟩
        change r.normal.Prescribes host (p.log.carryOut host force r).2.channels
        rw [hchannels, LogRequest.prescribes_normal]
        exact LogRequest.prescribes_installed hok

theorem Sound.of_channels_eq (h : p.Sound) {s : LogState} (hs : s.Owned)
    (hchannels : s.channels = p.log.channels) (hremembered : s.remembered = p.log.remembered) :
    Sound { p with log := s } where
  owned := hs
  left host r rest hfailed := hchannels.trans (h.left host r rest hfailed)
  carried hfailed r hr := by
    obtain ⟨host, hhost, hprescribes⟩ := h.carried hfailed r (hremembered.symm.trans hr)
    refine ⟨host, hhost, ?_⟩
    rw [hchannels]
    exact hprescribes

/-- **Events keep what is known**, as long as nobody else takes down the log's own handlers. -/
theorem Sound.step (h : p.Sound) (e : LogEvent)
    (hspared : ∀ id, e = .remove id → ∀ x ∈ p.log.handlers, x.isOwn = true → x.id ≠ id) :
    (p.step e).Sound := by
  have hs := h.owned.step e
  rcases p.log.step_cases e with ⟨host, force, r, hcall, -⟩ | ⟨hcall, hstep⟩
  · rw [LogHistory.step, hcall]
    exact h.request host force r
  · rw [LogHistory.step, hcall]
    dsimp only
    rcases hstep with hstep | ⟨threshold, hstep⟩ | ⟨id, he, hstep⟩
    · exact h.of_channels_eq hs (by rw [hstep]) (by rw [hstep])
    · rw [hstep] at hs ⊢
      exact h.of_channels_eq hs (p.log.channels_addForeign threshold) rfl
    · rw [hstep] at hs ⊢
      exact h.of_channels_eq hs (LogState.channels_remove (hspared id he)) rfl

theorem log_step (p : LogHistory) (e : LogEvent) : (p.step e).log = p.log.step e := by
  rw [step]
  rcases p.log.step_cases e with ⟨host, force, r, hcall, hstep⟩ | ⟨hcall, -⟩
  · rw [hcall, hstep]
    rfl
  · rw [hcall]

theorem Sound.run (h : p.Sound) (hspared : p.log.Spared events) : (p.run events).Sound := by
  induction events generalizing p with
  | nil => exact h
  | cons e events ih =>
    obtain ⟨he, hevents⟩ := hspared
    refine ih (h.step e he) ?_
    rw [log_step]
    exact hevents

/-- A request that is carried out leaves what it prescribes, whatever was before. -/
theorem Sound.prescribes_carryOut (h : p.Sound) (hdone : p.log.isDone force r = false)
    (hok : (p.log.carryOut host force r).1 = .ok ()) :
    r.Prescribes host (p.log.carryOut host force r).2.channels := by
  rw [LogState.fst_carryOut host hdone] at hok
  rw [h.owned.channels_carryOut host hdone]
  exact LogRequest.prescribes_installed hok

/-- A request that needs no work finds what it prescribes, or what the last failure has left. -/
theorem Sound.prescribed_of_isDone (h : p.Sound) (hdone : p.log.isDone force r = true) :
    (∃ host' ∈ p.hosts, r.Prescribes host' p.log.channels) ∨
      ∃ host₀ r₀ rest, p.failed = (host₀, r₀) :: rest ∧
        p.log.channels = (r₀.installed host₀).2 := by
  rcases hfailed : p.failed with _ | ⟨⟨host₀, r₀⟩, rest⟩
  · left
    have hremembered := (LogState.isDone_iff.mp hdone).2
    obtain ⟨host', hmem, hprescribes⟩ := h.carried hfailed r.normal hremembered
    exact ⟨host', hmem, LogRequest.prescribes_normal.mp hprescribes⟩
  · right
    exact ⟨host₀, r₀, rest, rfl, h.left host₀ r₀ rest hfailed⟩

/-- **When a request that returns leaves what it prescribes.** In any history in which nobody else
took down the log's own handlers: a request that is carried out leaves exactly the handlers that it
prescribes, whatever was before. In general, the handlers that are left are those that the request
prescribes, on this or an earlier host, if and only if it does not rely on one from before a
failure: if it needs no work and some request failed since the remembered one was carried out, then
what the last failed one got to has to be prescribed by chance. -/
theorem prescribed_iff (hp : p = run {} events) (hspared : LogState.Spared {} events)
    {s : LogState} (hreturns : p.log.carryOut host force r = (.ok (), s)) :
    (p.log.isDone force r = false → r.Prescribes host s.channels) ∧
      ((∃ host' ∈ host :: p.hosts, r.Prescribes host' s.channels) ↔
        (p.log.isDone force r = true → ∀ host₀ r₀ rest, p.failed = (host₀, r₀) :: rest →
          ∃ host' ∈ host :: p.hosts, r.Prescribes host' (r₀.installed host₀).2)) := by
  have h : p.Sound := by
    rw [hp]
    exact sound_start.run hspared
  cases hdone : p.log.isDone force r with
  | false =>
    have hprescribes : r.Prescribes host s.channels := by
      have hcarried := h.prescribes_carryOut hdone (congrArg Prod.fst hreturns)
      rwa [hreturns] at hcarried
    refine ⟨fun _ ↦ hprescribes, iff_of_true ⟨host, List.mem_cons_self, hprescribes⟩ ?_⟩
    exact fun hfalse ↦ absurd hfalse Bool.false_ne_true
  | true =>
    rw [p.log.carryOut_of_isDone host hdone] at hreturns
    obtain rfl : p.log = s := congrArg Prod.snd hreturns
    refine ⟨fun hfalse ↦ absurd hfalse.symm Bool.false_ne_true, ?_⟩
    constructor
    · intro hprescribes _ host₀ r₀ rest hfailed
      rwa [← h.left host₀ r₀ rest hfailed]
    · intro hleft
      rcases h.prescribed_of_isDone hdone with ⟨host', hmem, hprescribes⟩ | hfailure
      · exact ⟨host', List.mem_cons_of_mem host hmem, hprescribes⟩
      · obtain ⟨host₀, r₀, rest, hfailed, hchannels⟩ := hfailure
        rw [hchannels]
        exact hleft rfl host₀ r₀ rest hfailed

end LogHistory

/-! ## A console that is gone

One request for a console, and one for a level that there is not. -/

namespace Consoles

/-- A host without files. -/
def host : LogHost where
  openFile _ := .error (.badPath "NotADirectoryError")

/-- A console of a level. -/
def console (level : String) : LogRequest := { level := .named level, format := "console" }

/-- The console is set up, and then a level is asked for that is not known. -/
def events : List LogEvent :=
  [.configure host false (console "INFO"), .configure host false (console "LOUD")]

theorem spared_events : LogState.Spared {} events :=
  ⟨fun _ h ↦ LogEvent.noConfusion h, fun _ h ↦ LogEvent.noConfusion h, trivial⟩

/-- After the failure, another console is set up as prescribed. -/
theorem prescribed_iff_console :
    let p := LogHistory.run {} events
    let s := (p.log.carryOut host false (console "ERROR")).2
    (p.failed.map fun x ↦ x.2.level) = [.named "LOUD"] ∧
      (console "ERROR").Prescribes host s.channels ∧
      ∃ host' ∈ host :: p.hosts, (console "ERROR").Prescribes host' s.channels := by
  intro p s
  have hreturns : p.log.carryOut host false (console "ERROR") = (.ok (), s) := rfl
  have hdone : p.log.isDone false (console "ERROR") = false := by decide
  have h := LogHistory.prescribed_iff rfl spared_events hreturns
  refine ⟨rfl, h.1 hdone, h.2.mpr fun hfalse ↦ ?_⟩
  rw [hdone] at hfalse
  exact absurd hfalse Bool.false_ne_true

/-- **The request before the failure returns and leaves no handler at all.** -/
theorem gone_after_failure :
    let p := LogHistory.run {} events
    LogState.Spared {} events ∧
      (p.log.carryOut host false (console "INFO")).1.isOk = true ∧
      (p.log.carryOut host false (console "INFO")).2.channels = [] ∧
      ∀ host', ¬ (console "INFO").Prescribes host' [] :=
  ⟨spared_events, rfl, rfl, fun _ h ↦ h.ne_nil rfl⟩

end Consoles

end Schemata
