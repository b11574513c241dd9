import Mathlib.Data.List.Nodup
import Schemata.Logging.State
import Schemata.Proofs.Outcome

/-!
# Who owns the handlers of the log

Applications put up and take down handlers next to the log's own ones, and the log may fail between
two handlers of one request. Still every live handler that the log put up is in its records, so the
next request finds it and takes it down, and the handlers of others stay where they are
(`LogState.accounted_run`).

What a request puts up depends on the request and the host only, `LogRequest.installed`, and on
nothing that happened before. Carrying a request out is then three steps, each of which is described
by what it does to the live handlers: the log's own are released, the channels of the request are
added in order, and the request is noted if all went well (`LogState.carryOut_eq`). The invariant is
`LogState.Owned`; a handler is the log's own exactly if its sink is not somebody else's.
-/

namespace Schemata

/-! ## What a request puts up -/

namespace LogRequest

/-- The channels for several sinks, as far as nothing forbids them, and whether something did. -/
def channels (host : LogHost) (r : LogRequest) : List Sink → Except Error Unit × List LogChannel
  | [] => (.ok (), [])
  | sink :: sinks =>
    match r.channel host sink with
    | .error e => (.error e, [])
    | .ok c => ((r.channels host sinks).1, c :: (r.channels host sinks).2)

/-- The channels that a request puts up on a host, and whether it gets to its end. -/
def installed (host : LogHost) (r : LogRequest) : Except Error Unit × List LogChannel :=
  match r.channels host (r.streamSinks host.terminal) with
  | (.error e, cs) => (.error e, cs)
  | (.ok (), cs) =>
    match r.normal.outputFile with
    | none => (.ok (), cs)
    | some path =>
      match host.openFile path with
      | .error e => (.error e, cs)
      | .ok l =>
        ((r.channels host [.data (.file l)]).1, cs ++ (r.channels host [.data (.file l)]).2)

variable {host : LogHost} {r : LogRequest}

theorem length_streamSinks_le (terminal : Bool) (r : LogRequest) :
    (r.streamSinks terminal).length ≤ 2 := by
  unfold streamSinks
  split
  · exact Nat.le_refl 2
  all_goals split_ifs <;> exact Nat.le_succ 1

theorem foreign_not_mem_streamSinks (terminal : Bool) (r : LogRequest) :
    .foreign ∉ r.streamSinks terminal := by
  unfold streamSinks
  split_ifs <;> simp

theorem eq_of_channel {sink : Sink} {c : LogChannel} (h : r.channel host sink = .ok c) :
    ∃ threshold, r.level.threshold = .ok threshold ∧ c = r.channelAt threshold sink := by
  unfold channel at h
  obtain ⟨-, -, h⟩ := bind_eq_ok_iff.mp h
  obtain ⟨threshold, hlevel, h⟩ := bind_eq_ok_iff.mp h
  exact ⟨threshold, hlevel, (Except.ok.inj h).symm⟩

theorem prefix_sinks_channels (host : LogHost) (r : LogRequest) (sinks : List Sink) :
    (r.channels host sinks).2.map (·.sink) <+: sinks := by
  induction sinks with
  | nil => exact List.prefix_refl []
  | cons sink sinks ih =>
    unfold channels
    split
    · exact List.nil_prefix
    next c hc =>
      obtain ⟨threshold, -, rfl⟩ := eq_of_channel hc
      exact (List.prefix_cons_inj sink).mpr ih

theorem length_channels_le (host : LogHost) (r : LogRequest) (sinks : List Sink) :
    (r.channels host sinks).2.length ≤ sinks.length := by
  have h := (prefix_sinks_channels host r sinks).length_le
  rwa [List.length_map] at h

theorem sink_mem_of_mem_channels {sinks : List Sink} {c : LogChannel}
    (h : c ∈ (r.channels host sinks).2) : c.sink ∈ sinks :=
  (prefix_sinks_channels host r sinks).subset (List.mem_map_of_mem h)

/-- What is put up is for the streams, or for the file after them. -/
theorem installed_cases (host : LogHost) (r : LogRequest) :
    (r.installed host).2 = (r.channels host (r.streamSinks host.terminal)).2 ∨
      ∃ l, (r.installed host).2 = (r.channels host (r.streamSinks host.terminal)).2 ++
        (r.channels host [.data (.file l)]).2 := by
  unfold installed
  split
  next e cs h =>
    left
    rw [h]
  next cs h =>
    rw [h]
    split
    · exact .inl rfl
    · split
      · exact .inl rfl
      next l _ => exact .inr ⟨l, rfl⟩

theorem length_installed_le (host : LogHost) (r : LogRequest) :
    (r.installed host).2.length ≤ 3 := by
  have hstreams := length_channels_le host r (r.streamSinks host.terminal)
  have htwo := length_streamSinks_le host.terminal r
  rcases installed_cases host r with h | ⟨l, h⟩
  · rw [h]
    omega
  · have hfile := length_channels_le host r [.data (.file l)]
    rw [List.length_singleton] at hfile
    rw [h, List.length_append]
    omega

theorem sink_ne_foreign_of_mem_installed {c : LogChannel} (h : c ∈ (r.installed host).2) :
    c.sink ≠ .foreign := by
  have hstreams : c ∈ (r.channels host (r.streamSinks host.terminal)).2 → c.sink ≠ .foreign := by
    intro hc hforeign
    have hmem := sink_mem_of_mem_channels hc
    rw [hforeign] at hmem
    exact foreign_not_mem_streamSinks _ r hmem
  rcases installed_cases host r with hall | ⟨l, hall⟩
  · rw [hall] at h
    exact hstreams h
  · rw [hall] at h
    rcases List.mem_append.mp h with hc | hc
    · exact hstreams hc
    · rw [List.mem_singleton.mp (sink_mem_of_mem_channels hc)]
      exact Sink.noConfusion

end LogRequest

/-! ## Putting up and taking down -/

/-- Whether the log put up the handler itself. -/
def LogHandler.isOwn (h : LogHandler) : Bool := h.sink ≠ .foreign

namespace LogState

variable {s : LogState} {h : LogHandler} {host : LogHost} {force : Bool} {r : LogRequest}

/-- The state with a handler of its own put up for each channel. -/
def addAll (s : LogState) (cs : List LogChannel) : LogState := cs.foldl add s

theorem attachAll_eq (host : LogHost) (r : LogRequest) (s : LogState) (sinks : List Sink) :
    s.attachAll host r sinks =
      ((r.channels host sinks).1, s.addAll (r.channels host sinks).2) := by
  induction sinks generalizing s with
  | nil => rfl
  | cons sink sinks ih =>
    rw [attachAll, LogRequest.channels]
    cases r.channel host sink with
    | error e => rfl
    | ok c => exact ih (s.add c)

theorem install_eq (host : LogHost) (s : LogState) (r : LogRequest) :
    s.install host r = ((r.installed host).1, s.addAll (r.installed host).2) := by
  rw [install, LogRequest.installed, attachAll_eq]
  rcases r.channels host (r.streamSinks host.terminal) with ⟨e | ⟨⟨⟩⟩, cs⟩
  · rfl
  · dsimp only
    cases r.normal.outputFile with
    | none => rfl
    | some path =>
      dsimp only
      cases host.openFile path with
      | error e => rfl
      | ok l =>
        dsimp only
        rw [attachAll_eq, addAll, addAll, addAll, List.foldl_append]

/-- The state after a request was carried out as far as it got; the request is noted if it got to
its end. -/
def settle (s : LogState) (r : LogRequest) : Except Error Unit → LogState
  | .ok () => { if r.switches.bridge then s.bridge else s with remembered := some r.normal }
  | .error _ => s

/-- **Carrying a request out**: unless it needs no work, the log's own handlers are released, what
the request puts up is added, and the request is noted if it gets to its end. -/
theorem carryOut_eq (host : LogHost) (s : LogState) (force : Bool) (r : LogRequest) :
    s.carryOut host force r =
      if s.isDone force r then (.ok (), s)
      else ((r.installed host).1,
        (s.release.addAll (r.installed host).2).settle r (r.installed host).1) := by
  rw [carryOut, install_eq]
  rcases r.installed host with ⟨e | ⟨⟨⟩⟩, cs⟩ <;> rfl

theorem isDone_iff : s.isDone force r = true ↔ force = false ∧ s.remembered = some r.normal := by
  rw [isDone, Bool.and_eq_true, Bool.not_eq_true', beq_iff_eq]

@[simp] theorem handlers_settle (s : LogState) (r : LogRequest) (x : Except Error Unit) :
    (s.settle r x).handlers = s.handlers := by
  rcases x with e | ⟨⟨⟩⟩
  · rfl
  · rw [settle]
    split_ifs <;> rfl

@[simp] theorem own_settle (s : LogState) (r : LogRequest) (x : Except Error Unit) :
    (s.settle r x).own = s.own := by
  rcases x with e | ⟨⟨⟩⟩
  · rfl
  · rw [settle]
    split_ifs <;> rfl

@[simp] theorem next_settle (s : LogState) (r : LogRequest) (x : Except Error Unit) :
    (s.settle r x).next = s.next := by
  rcases x with e | ⟨⟨⟩⟩
  · rfl
  · rw [settle]
    split_ifs <;> rfl

theorem foldl_remove (ids : List Nat) (s : LogState) :
    ids.foldl remove s = { s with handlers := s.handlers.filter (·.id ∉ ids) } := by
  induction ids generalizing s with
  | nil => simp
  | cons id ids ih =>
    rw [List.foldl_cons, ih, remove, List.filter_filter]
    simp only [List.mem_cons, not_or, Bool.decide_and, Bool.and_comm]

/-- A release takes down the log's own handlers, and the first one of all as long as nothing is
remembered. -/
theorem release_eq (s : LogState) :
    s.release = { s with
      handlers := s.handlers.filter fun h ↦ h.id ∉ s.own ∧ (s.remembered = none → h.id ≠ 0)
      own := [] } := by
  cases hr : s.remembered <;> simp [release, hr, foldl_remove, remove, List.filter_filter]

theorem mem_release : h ∈ s.release.handlers ↔
    h ∈ s.handlers ∧ h.id ∉ s.own ∧ (s.remembered = none → h.id ≠ 0) := by
  rw [release_eq, List.mem_filter, decide_eq_true_iff]

@[simp] theorem next_release (s : LogState) : s.release.next = s.next := by rw [release_eq]

@[simp] theorem remembered_release (s : LogState) : s.release.remembered = s.remembered := by
  rw [release_eq]

@[simp] theorem remembered_addAll (s : LogState) (cs : List LogChannel) :
    (s.addAll cs).remembered = s.remembered := by
  induction cs generalizing s with
  | nil => rfl
  | cons c cs ih => exact ih (s.add c)

theorem mem_addAll_of_mem {cs : List LogChannel} (hh : h ∈ s.handlers) :
    h ∈ (s.addAll cs).handlers := by
  induction cs generalizing s with
  | nil => exact hh
  | cons c cs ih => exact ih (s := s.add c) (List.mem_append_left _ hh)

theorem mem_addAll {cs : List LogChannel} (hh : h ∈ (s.addAll cs).handlers) :
    h ∈ s.handlers ∨ h.toLogChannel ∈ cs := by
  induction cs generalizing s with
  | nil => exact .inl hh
  | cons c cs ih =>
    rcases ih (s := s.add c) hh with hold | hnew
    · rcases List.mem_append.mp hold with hold | hc
      · exact .inl hold
      · right
        rw [List.mem_singleton.mp hc]
        exact List.mem_cons_self
    · exact .inr (List.mem_cons_of_mem c hnew)

/-! ## The records -/

/-- The log's records fit the live handlers. -/
structure Owned (s : LogState) : Prop where
  /-- Numbers are not used again. -/
  fresh : ∀ h ∈ s.handlers, h.id < s.next
  fresh_own : ∀ id ∈ s.own, id < s.next
  distinct : (s.handlers.map (·.id)).Nodup
  nodup : s.own.Nodup
  /-- The live handlers in the records are those that the log put up. -/
  recorded : ∀ h ∈ s.handlers, h.id ∈ s.own ↔ h.isOwn
  few : s.own.length ≤ 3

theorem owned_start : Owned {} where
  fresh h hh := by
    rw [List.mem_singleton.mp hh]
    exact Nat.one_pos
  fresh_own _ hid := absurd hid List.not_mem_nil
  distinct := List.nodup_singleton _
  nodup := List.nodup_nil
  recorded h hh := by
    rw [List.mem_singleton.mp hh]
    decide
  few := Nat.zero_le 3

theorem Owned.remove (hs : s.Owned) (id : Nat) : (s.remove id).Owned where
  fresh h hh := hs.fresh h (List.mem_of_mem_filter hh)
  fresh_own := hs.fresh_own
  distinct := hs.distinct.sublist (List.filter_sublist.map _)
  nodup := hs.nodup
  recorded h hh := hs.recorded h (List.mem_of_mem_filter hh)
  few := hs.few

theorem Owned.distinct_concat (hs : s.Owned) {new : LogHandler} (hnew : new.id = s.next) :
    ((s.handlers ++ [new]).map (·.id)).Nodup := by
  rw [List.map_append, List.map_singleton]
  refine hs.distinct.append (List.nodup_singleton _) ?_
  rw [List.disjoint_singleton]
  intro hmem
  obtain ⟨h, hh, hid⟩ := List.mem_map.mp hmem
  have hlt := hs.fresh h hh
  omega

theorem Owned.fresh_concat (hs : s.Owned) {new : LogHandler} (hnew : new.id = s.next) :
    ∀ h ∈ s.handlers ++ [new], h.id < s.next + 1 := by
  intro h hh
  rcases List.mem_append.mp hh with hh | hh
  · exact Nat.lt_succ_of_lt (hs.fresh h hh)
  · rw [List.mem_singleton.mp hh, hnew]
    exact Nat.lt_succ_self s.next

theorem Owned.addForeign (hs : s.Owned) (threshold : Nat) : (s.addForeign threshold).Owned where
  fresh := hs.fresh_concat rfl
  fresh_own id hid := Nat.lt_succ_of_lt (hs.fresh_own id hid)
  distinct := hs.distinct_concat rfl
  nodup := hs.nodup
  recorded h hh := by
    rcases List.mem_append.mp hh with hh | hh
    · exact hs.recorded h hh
    · rw [List.mem_singleton.mp hh]
      have hnext : s.next ∉ s.own := fun hmem ↦ Nat.lt_irrefl _ (hs.fresh_own _ hmem)
      exact ⟨fun hmem ↦ absurd hmem hnext, fun hown ↦ absurd hown Bool.false_ne_true⟩
  few := hs.few

theorem Owned.add (hs : s.Owned) {c : LogChannel} (hc : c.sink ≠ .foreign)
    (hlength : s.own.length < 3) : (s.add c).Owned where
  fresh := hs.fresh_concat rfl
  fresh_own id hid := by
    rcases List.mem_append.mp hid with hid | hid
    · exact Nat.lt_succ_of_lt (hs.fresh_own id hid)
    · rw [List.mem_singleton.mp hid]
      exact Nat.lt_succ_self s.next
  distinct := hs.distinct_concat rfl
  nodup := by
    refine hs.nodup.append (List.nodup_singleton _) ?_
    rw [List.disjoint_singleton]
    exact fun hmem ↦ Nat.lt_irrefl _ (hs.fresh_own _ hmem)
  recorded h hh := by
    change h.id ∈ s.own ++ [s.next] ↔ h.isOwn
    rw [List.mem_append, List.mem_singleton]
    rcases List.mem_append.mp hh with hh | hh
    · have hne : h.id ≠ s.next := Nat.ne_of_lt (hs.fresh h hh)
      rw [hs.recorded h hh]
      exact or_iff_left hne
    · rw [List.mem_singleton.mp hh]
      exact iff_of_true (.inr rfl) (decide_eq_true hc)
  few := by
    change (s.own ++ [s.next]).length ≤ 3
    rw [List.length_append, List.length_singleton]
    exact hlength

theorem Owned.addAll (hs : s.Owned) {cs : List LogChannel} (hcs : ∀ c ∈ cs, c.sink ≠ .foreign)
    (hlength : s.own.length + cs.length ≤ 3) : (s.addAll cs).Owned := by
  induction cs generalizing s with
  | nil => exact hs
  | cons c cs ih =>
    obtain ⟨hc, hcs⟩ := List.forall_mem_cons.mp hcs
    rw [List.length_cons] at hlength
    refine ih (s := s.add c) (hs.add hc (by omega)) hcs ?_
    change (s.own ++ [s.next]).length + cs.length ≤ 3
    rw [List.length_append, List.length_singleton]
    omega

theorem Owned.isOwn_of_mem_release (hs : s.Owned) (hh : h ∈ s.release.handlers) :
    h.isOwn = false := by
  obtain ⟨hmem, hid, -⟩ := mem_release.mp hh
  rw [hs.recorded h hmem] at hid
  exact Bool.eq_false_iff.mpr fun hown ↦ hid hown

theorem Owned.release (hs : s.Owned) : s.release.Owned where
  fresh h hh := by
    rw [next_release]
    exact hs.fresh h (mem_release.mp hh).1
  fresh_own _ hid := absurd hid List.not_mem_nil
  distinct := by
    rw [release_eq]
    exact hs.distinct.sublist (List.filter_sublist.map _)
  nodup := List.nodup_nil
  recorded h hh := by
    rw [hs.isOwn_of_mem_release hh]
    exact iff_of_false List.not_mem_nil Bool.false_ne_true
  few := Nat.zero_le 3

theorem Owned.settle (hs : s.Owned) (r : LogRequest) (x : Except Error Unit) :
    (s.settle r x).Owned where
  fresh := by simpa using hs.fresh
  fresh_own := by simpa using hs.fresh_own
  distinct := by simpa using hs.distinct
  nodup := by simpa using hs.nodup
  recorded := by simpa using hs.recorded
  few := by simpa using hs.few

/-- **Carrying out a request keeps the records right**, whether it gets to its end or not. -/
theorem Owned.carryOut (hs : s.Owned) (host : LogHost) (force : Bool) (r : LogRequest) :
    (s.carryOut host force r).2.Owned := by
  rw [carryOut_eq]
  split
  · exact hs
  · -- the records are empty after the release, so there is room for all channels
    have hlength := LogRequest.length_installed_le host r
    rw [← Nat.zero_add (r.installed host).2.length] at hlength
    have hforeign : ∀ c ∈ (r.installed host).2, c.sink ≠ .foreign :=
      fun c hc ↦ LogRequest.sink_ne_foreign_of_mem_installed hc
    exact (hs.release.addAll hforeign hlength).settle r _

theorem Owned.length_filter_le (hs : s.Owned) :
    (s.handlers.filter (·.id ∈ s.own)).length ≤ 3 := by
  have hnodup : ((s.handlers.filter (·.id ∈ s.own)).map (·.id)).Nodup :=
    hs.distinct.sublist (List.filter_sublist.map _)
  have hsub : (s.handlers.filter (·.id ∈ s.own)).map (·.id) ⊆ s.own := by
    intro id hid
    obtain ⟨h, hh, rfl⟩ := List.mem_map.mp hid
    simpa using (List.mem_filter.mp hh).2
  have hle := hnodup.length_le_of_subset hsub
  rw [List.length_map] at hle
  exact Nat.le_trans hle hs.few

/-! ## What a request does to the handlers of others -/

/-- A handler of somebody else stays, the first one of all excepted as long as no request was
carried out. -/
theorem Owned.foreign_stays (hs : s.Owned) (host : LogHost) (force : Bool) (r : LogRequest)
    (hh : h ∈ s.handlers) (hforeign : h.isOwn = false) :
    h ∈ (s.carryOut host force r).2.handlers ∨ (h.id = 0 ∧ s.remembered = none) := by
  rw [carryOut_eq]
  split
  · exact .inl hh
  · -- only the first handler of all is taken down without being the log's own
    by_cases hzero : h.id = 0 ∧ s.remembered = none
    · exact .inr hzero
    · left
      dsimp only
      rw [handlers_settle]
      have hid : h.id ∉ s.own := by
        rw [hs.recorded h hh, hforeign]
        exact Bool.false_ne_true
      refine mem_addAll_of_mem (mem_release.mpr ⟨hh, hid, fun hnone hid ↦ ?_⟩)
      exact hzero ⟨hid, hnone⟩

theorem isOwn_of_mem_carryOut (hh : h ∈ (s.carryOut host force r).2.handlers) :
    h ∈ s.handlers ∨ h.isOwn = true := by
  rw [carryOut_eq] at hh
  split at hh
  · exact .inl hh
  · dsimp only at hh
    rw [handlers_settle] at hh
    rcases mem_addAll hh with hold | hnew
    · exact .inl (mem_release.mp hold).1
    · exact .inr (decide_eq_true (LogRequest.sink_ne_foreign_of_mem_installed hnew))

end LogState

/-! ## Runs -/

/-- What happens to the log. -/
inductive LogEvent where
  /-- A request is made. -/
  | configure (host : LogHost) (force : Bool) (r : LogRequest)
  /-- A logger is asked for, which makes the request of the environment if there was none. -/
  | ask (host : LogHost) (env : Environment)
  /-- Somebody else puts up a handler. -/
  | add (threshold : Nat)
  /-- Somebody else takes a handler down, whosever it is. -/
  | remove (id : Nat)

namespace LogState

variable {s : LogState} {e : LogEvent} {events : List LogEvent}

/-- The request that an event makes. -/
def call? (s : LogState) : LogEvent → Option (LogHost × Bool × LogRequest)
  | .configure host force r => some (host, force, r)
  | .ask host env =>
    if s.remembered.isSome then none else some (host, false, environmentRequest env)
  | _ => none

/-- The state after an event. -/
def step (s : LogState) : LogEvent → LogState
  | .configure host force r => (s.carryOut host force r).2
  | .ask host env => (s.makeReady host env).2
  | .add threshold => s.addForeign threshold
  | .remove id => s.remove id

/-- The state after several events. -/
def run (s : LogState) (events : List LogEvent) : LogState := events.foldl step s

/-- An event is a request, or it is about a handler of somebody else's choice, or it does
nothing. -/
theorem step_cases (s : LogState) (e : LogEvent) :
    (∃ host force r, s.call? e = some (host, force, r) ∧ s.step e = (s.carryOut host force r).2) ∨
      (s.call? e = none ∧ (s.step e = s ∨ (∃ threshold, s.step e = s.addForeign threshold) ∨
        ∃ id, e = .remove id ∧ s.step e = s.remove id)) := by
  cases e with
  | configure host force r => exact .inl ⟨host, force, r, rfl, rfl⟩
  | ask host env =>
    rw [call?, step, makeReady]
    split
    · exact .inr ⟨rfl, .inl rfl⟩
    · exact .inl ⟨host, false, environmentRequest env, rfl, rfl⟩
  | add threshold => exact .inr ⟨rfl, .inr (.inl ⟨threshold, rfl⟩)⟩
  | remove id => exact .inr ⟨rfl, .inr (.inr ⟨id, rfl, rfl⟩)⟩

theorem Owned.step (hs : s.Owned) (e : LogEvent) : (s.step e).Owned := by
  rcases step_cases s e with ⟨host, force, r, -, h⟩ | ⟨-, h | ⟨threshold, h⟩ | ⟨id, -, h⟩⟩
  · rw [h]
    exact hs.carryOut host force r
  · rw [h]
    exact hs
  · rw [h]
    exact hs.addForeign threshold
  · rw [h]
    exact hs.remove id

theorem Owned.run (hs : s.Owned) (events : List LogEvent) : (s.run events).Owned := by
  induction events generalizing s with
  | nil => exact hs
  | cons e events ih => exact ih (hs.step e)

/-- None of the requests that were made got to its end. -/
def NoneCarriedOut (events : List LogEvent) : Prop :=
  ∀ before e after, events = before ++ e :: after →
    ∀ host force r, (run {} before).call? e = some (host, force, r) →
      ((run {} before).carryOut host force r).1 ≠ .ok ()

theorem remembered_carryOut_of_ok {host : LogHost} {force : Bool} {r : LogRequest}
    (h : (s.carryOut host force r).1 = .ok ()) :
    (s.carryOut host force r).2.remembered = some r.normal := by
  rw [carryOut_eq] at h ⊢
  split
  next hdone => exact (isDone_iff.mp hdone).2
  next hdone =>
    rw [if_neg hdone] at h
    dsimp only at h ⊢
    rw [h]
    rfl

theorem remembered_carryOut_ne_none {host : LogHost} {force : Bool} {r : LogRequest}
    (h : s.remembered ≠ none) : (s.carryOut host force r).2.remembered ≠ none := by
  cases hok : (s.carryOut host force r).1 with
  | ok _ =>
    rw [remembered_carryOut_of_ok hok]
    exact Option.some_ne_none _
  | error e =>
    rw [carryOut_eq] at hok ⊢
    split
    · exact h
    next hdone =>
      rw [if_neg hdone] at hok
      dsimp only at hok ⊢
      rw [hok, settle, remembered_addAll, remembered_release]
      exact h

theorem remembered_step_ne_none (h : s.remembered ≠ none) (e : LogEvent) :
    (s.step e).remembered ≠ none := by
  rcases step_cases s e with ⟨host, force, r, -, hs⟩ | ⟨-, hs | ⟨threshold, hs⟩ | ⟨id, -, hs⟩⟩
  · rw [hs]
    exact remembered_carryOut_ne_none h
  all_goals
    rw [hs]
    exact h

theorem remembered_run_ne_none (h : s.remembered ≠ none) (events : List LogEvent) :
    (s.run events).remembered ≠ none := by
  induction events generalizing s with
  | nil => exact h
  | cons e events ih => exact ih (remembered_step_ne_none h e)

theorem noneCarriedOut_of_remembered (h : (run {} events).remembered = none) :
    NoneCarriedOut events := by
  -- a request that got to its end would have been remembered ever since
  rintro before e after rfl host force r hcall hok
  refine remembered_run_ne_none (s := (run {} before).step e) ?_ after ?_
  · rcases step_cases (run {} before) e with ⟨host', force', r', hcall', hs⟩ | ⟨hnone, -⟩
    · obtain ⟨rfl, rfl, rfl⟩ : host = host' ∧ force = force' ∧ r = r' := by
        simpa using hcall.symm.trans hcall'
      rw [hs, remembered_carryOut_of_ok hok]
      exact Option.some_ne_none _
    · rw [hnone] at hcall
      exact nomatch hcall
  · rw [run, List.foldl_append, List.foldl_cons] at h
    exact h

/-- **Every handler is accounted for.** After any requests, carried out, failed or repeated, and
whatever others put up and took down in between: each live handler that the log put up is in its
records, which name nothing twice and at most three live handlers. A further request leaves the
handlers of others alone, except that the first one of all goes as long as no request got to its
end; what it puts up is the log's own. If it is the remembered one and not forced, it changes
nothing. -/
theorem accounted_run (events : List LogEvent) :
    let s := run {} events
    (∀ h ∈ s.handlers, h.isOwn = true → h.id ∈ s.own) ∧ s.own.Nodup ∧
      (s.handlers.filter (·.id ∈ s.own)).length ≤ 3 ∧
      ∀ host force r,
        (∀ h ∈ s.handlers, h.isOwn = false →
          h ∈ (s.carryOut host force r).2.handlers ∨ (h.id = 0 ∧ NoneCarriedOut events)) ∧
        (∀ h ∈ (s.carryOut host force r).2.handlers, h ∈ s.handlers ∨ h.isOwn = true) ∧
        (force = false → s.remembered = some r.normal → s.carryOut host force r = (.ok (), s)) := by
  intro s
  have hs : s.Owned := owned_start.run events
  refine ⟨fun h hh hown ↦ (hs.recorded h hh).mpr hown, hs.nodup, hs.length_filter_le,
    fun host force r ↦ ⟨fun h hh hforeign ↦ ?_, fun h hh ↦ isOwn_of_mem_carryOut hh,
      fun hforce hremembered ↦ ?_⟩⟩
  · rcases hs.foreign_stays host force r hh hforeign with hstays | ⟨hid, hnone⟩
    · exact .inl hstays
    · exact .inr ⟨hid, noneCarriedOut_of_remembered hnone⟩
  · rw [carryOut_eq, if_pos (isDone_iff.mpr ⟨hforce, hremembered⟩)]

end LogState

end Schemata
