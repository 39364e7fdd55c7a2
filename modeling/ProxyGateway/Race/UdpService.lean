/-
# ProxyGateway.Race.UdpService — `serveUDP`: many races at once, each query answered once

`serveUDP` starts a goroutine for every datagram; each runs its own `raceQuery` and writes one answer
to the address its query came from, or none.  A state holds all of these handlers, each with the
state of its race; a step lets one handler move, or one party of one race.  Upstream goroutines go on
after their race has returned, and after their handler has.

What the service owes its clients is read off the races: an answer is the winner of the query's own
race or a SERVFAIL for it (`answers_of_reaches`), it is written once (`log_nodup`), and no handler is
ever stuck, since a race that nobody answers can still return (`can_return`).
-/
import ProxyGateway.Race.ErrorResponse
import ProxyGateway.Race.TcpService

namespace ProxyGateway.Race

open ProxyGateway.Lang ProxyGateway.Logic
open ProxyGateway.Quic (Bytes)

universe u

/-! ## A race that nobody answers still ends -/

section Returning

variable {A : Type} {p : Call A}

/-- The main goroutine of a race once its timers are armed. -/
def Main.armed : Main A → Bool
  | .launching .primaryTCP _ | .launching .fallbackUDP _ | .selecting => true
  | _ => false

/-- **`Timed st`** — until `raceQuery` returns, the tick of its timeout is still to come. -/
def Timed (st : State A) : Prop :=
  st.main.armed = true → ∃ t, st.timeoutTimer = some t ∧ t.tick ≠ .received

/-- The moves of the runtime and of the main goroutine, for which no upstream has to answer. -/
def Event.own : Event → Bool
  | .pass _ | .fire _ | .main | .select _ => true
  | _ => false

theorem timed_step {st st' : State A} {e : Event} (h : Timed st) (hstep : step p st e = some st') :
    Timed st' := by
  -- a worker leaves the main goroutine and the timers alone
  have hworker : ∀ {i : Nat} {e : Event}, stepWorker p st i e = some st' → Timed st' := by
    intro i e hs
    obtain ⟨w, -, rfl⟩ := Option.map_eq_some_iff.mp hs
    exact h
  -- what `raceQuery` leaves with is not waiting for the timer
  have hleft : ∀ {st : State A}, st.main.armed = false → Timed st := by
    intro st hmain harmed
    rw [hmain] at harmed
    cases harmed
  cases e with
  | pass d =>
    cases hstep
    exact h
  | fire name =>
    cases name with
    | tcp | fallback =>
      obtain ⟨t, -, rfl⟩ := Option.map_eq_some_iff.mp hstep
      exact h
    | timeout =>
      obtain ⟨t, ht, rfl⟩ := Option.map_eq_some_iff.mp hstep
      obtain ⟨t₀, -, hfire⟩ := Option.bind_eq_some_iff.mp ht
      simp only [Timer.fire] at hfire
      split at hfire <;> cases hfire
      exact fun _ => ⟨_, rfl, Tick.noConfusion⟩
  | main =>
    simp only [step, stepMain] at hstep
    split at hstep <;> cases hstep
    · rename_i batch upstream rest hmain
      intro harmed
      refine h ?_
      rw [hmain]
      cases batch <;> exact harmed
    · exact hleft rfl
    · rename_i hmain
      exact fun _ => h (by rw [hmain]; rfl)
    · rename_i hmain
      exact fun _ => h (by rw [hmain]; rfl)
    · exact hleft rfl
    · exact hleft rfl
    · exact fun _ => ⟨_, rfl, Tick.noConfusion⟩
  | select c =>
    simp only [step] at hstep
    split at hstep
    · rename_i hmain
      have harmed : st.main.armed = true := by
        cases hm : st.main <;> simp_all [Main.armed]
      cases c with
      | response =>
        obtain ⟨x, -, rfl⟩ := Option.map_eq_some_iff.mp hstep
        exact hleft rfl
      | tcp | fallback =>
        obtain ⟨t, -, rfl⟩ := Option.map_eq_some_iff.mp hstep
        exact fun _ => h harmed
      | timeout =>
        obtain ⟨t, -, rfl⟩ := Option.map_eq_some_iff.mp hstep
        exact hleft rfl
    · cases hstep
  | ask i => exact hworker hstep
  | answer i c => exact hworker hstep
  | fail i => exact hworker hstep
  | push i =>
    simp only [step, stepPush] at hstep
    split at hstep
    · obtain ⟨responses, -, rfl⟩ := Option.map_eq_some_iff.mp hstep
      exact h
    · cases hstep

theorem timed_of_reaches {st : State A} (h : Reaches (step p) Always (start p) st) : Timed st := by
  refine h.invariant (fun harmed => ?_) fun _ _ _ hs _ hstep => timed_step hs hstep
  simp only [start] at harmed
  split at harmed <;> cases harmed

/-- A race that comes to a state from which it can return can return. -/
def CanReturn (p : Call A) (st : State A) : Prop :=
  ∃ es st' r, run (step p) st es = some st' ∧ st'.main = .returned r ∧ ∀ e ∈ es, e.own = true

theorem CanReturn.step {st st' : State A} {e : Event} (h : CanReturn p st')
    (hstep : step p st e = some st') (hown : e.own = true) : CanReturn p st := by
  obtain ⟨es, st'', r, hrun, hmain, hes⟩ := h
  refine ⟨e :: es, st'', r, ?_, hmain, ?_⟩
  · rw [run, hstep]
    exact hrun
  · simpa [hown] using hes

/-- In the `select`, the timeout can be waited for. -/
theorem canReturn_selecting {st : State A} (h : Timed st) (hmain : st.main = .selecting) :
    CanReturn p st := by
  obtain ⟨t, ht, hne⟩ := h (by rw [hmain]; rfl)
  -- once the tick is there, the `select` can take it
  have hready : ∀ st : State A, st.main = .selecting →
      (∃ t, st.timeoutTimer = some t ∧ t.tick = .ready) → CanReturn p st := by
    intro st hmain ⟨t, ht, htick⟩
    have hstep : step p st (.select .timeout) = some { st with
        timeoutTimer := some { t with tick := .received }
        main := .returned (.error .timedOut) } := by
      simp [step, hmain, stepSelect, ht, Timer.recv, htick]
    exact CanReturn.step ⟨[], _, _, rfl, rfl, by simp⟩ hstep rfl
  cases htick : t.tick with
  | received => exact absurd htick hne
  | ready => exact hready st hmain ⟨t, ht, htick⟩
  | pending =>
    have hdue : t.due ≤ st.clock + (t.due - st.clock).toNat := by omega
    have hpass : step p st (.pass (t.due - st.clock).toNat) =
        some { st with clock := st.clock + (t.due - st.clock).toNat } := rfl
    have hfire : step p { st with clock := st.clock + (t.due - st.clock).toNat } (.fire .timeout) =
        some { st with
          clock := st.clock + (t.due - st.clock).toNat
          timeoutTimer := some { t with tick := .ready } } := by
      simp only [step, stepFire, ht, Option.bind_some, Timer.fire, htick, hdue, and_self, if_true,
        Option.map_some]
    refine CanReturn.step (CanReturn.step ?_ hfire rfl) hpass rfl
    exact hready _ hmain ⟨_, rfl, rfl⟩

/-- `time.NewTimer`, as often as it takes. -/
theorem canReturn_arming {st : State A}
    (h : st.main = .armTCP ∨ st.main = .armFallback ∨ st.main = .armTimeout) : CanReturn p st := by
  have htimeout : ∀ st : State A, st.main = .armTimeout → CanReturn p st := by
    intro st hmain
    have hstep : step p st .main = some { st with
        main := .selecting, timeoutTimer := some (.new st.clock p.timeout) } := by
      simp [step, stepMain, hmain]
    have htimed : Timed { st with
        main := .selecting, timeoutTimer := some (.new st.clock p.timeout) } :=
      fun _ => ⟨_, rfl, by simp [Timer.new]⟩
    exact (canReturn_selecting htimed rfl).step hstep rfl
  have hfallback : ∀ st : State A, st.main = .armFallback → CanReturn p st := by
    intro st hmain
    have hstep : step p st .main = some { st with
        main := .armTimeout, fallbackTimer := some (.new st.clock p.clampedFallbackDelay) } := by
      simp [step, stepMain, hmain]
    exact (htimeout _ rfl).step hstep rfl
  rcases h with hmain | hmain | hmain
  · have hstep : step p st .main = some { st with
        main := .armFallback, tcpTimer := some (.new st.clock p.tcpDelay) } := by
      simp [step, stepMain, hmain]
    exact (hfallback _ rfl).step hstep rfl
  · exact hfallback st hmain
  · exact htimeout st hmain

/-- `startQueries` comes to the end of its list. -/
theorem canReturn_launching {batch : Batch} {rest : List A} {st : State A} (h : Timed st)
    (hmain : st.main = .launching batch rest) : CanReturn p st := by
  induction rest generalizing st with
  | nil =>
    cases batch with
    | primaryUDP =>
      have hstep : step p st .main = some { st with main := .armTCP } := by
        simp [step, stepMain, hmain]
      exact (canReturn_arming (Or.inl rfl)).step hstep rfl
    | primaryTCP =>
      have hstep : step p st .main = some { st with main := .selecting, tcpStarted := true } := by
        simp [step, stepMain, hmain]
      exact (canReturn_selecting (timed_step h hstep) rfl).step hstep rfl
    | fallbackUDP =>
      have hstep : step p st .main =
          some { st with main := .selecting, fallbackStarted := true } := by
        simp [step, stepMain, hmain]
      exact (canReturn_selecting (timed_step h hstep) rfl).step hstep rfl
  | cons upstream rest ih =>
    have hstep : step p st .main = some { st with
        main := .launching batch rest, workers := st.workers ++ [.fresh batch upstream] } := by
      simp [step, stepMain, hmain]
    exact (ih (timed_step h hstep) rfl).step hstep rfl

/-- **`can_return`** — whatever has happened so far, `raceQuery` can return without any upstream. -/
theorem can_return {st : State A} (h : Reaches (step p) Always (start p) st) : CanReturn p st := by
  have htimed := timed_of_reaches h
  cases hmain : st.main with
  | launching batch rest => exact canReturn_launching htimed hmain
  | armTCP => exact canReturn_arming (Or.inl hmain)
  | armFallback => exact canReturn_arming (Or.inr (Or.inl hmain))
  | armTimeout => exact canReturn_arming (Or.inr (Or.inr hmain))
  | selecting => exact canReturn_selecting htimed hmain
  | returned r => exact ⟨[], st, r, rfl, hmain, by simp⟩

end Returning

/-! ## The service -/

/-- What `main` hands to every race. -/
structure Settings (A : Type) where
  primary : List A
  fallback : List A
  tcpDelay : Int
  fallbackDelay : Int
  timeout : Int
  deriving DecidableEq, Repr

/-- The call of `raceQuery` for one query. -/
def Settings.call {A : Type} (cfg : Settings A) (query : Bytes) : Call A :=
  ⟨query, cfg.primary, cfg.fallback, cfg.tcpDelay, cfg.fallbackDelay, cfg.timeout⟩

/-- One goroutine of `handleRaceQuery`, with its race. -/
structure Handler (K A : Type) where
  addr : K
  query : Bytes
  race : State A
  finished : Bool

/-- How a handler ended. -/
inductive Ending where
  /-- wrote this answer -/
  | wrote (response : Bytes)
  /-- `WriteTo` failed -/
  | failed
  /-- the race was lost, and the query is none that an error can be made for -/
  | silent
  deriving DecidableEq, Repr

/-- An ended handler, and what it did. -/
structure Report (K : Type) where
  handler : Nat
  addr : K
  ending : Ending
  deriving DecidableEq, Repr

/-- The UDP service: every handler started so far, and what the ended ones did. -/
structure Udp (K A : Type) where
  handlers : List (Handler K A)
  log : List (Report K)

/-- One move: a datagram arrives, a party of one race moves, or a handler writes. -/
inductive UdpEvent (K : Type) where
  | receive (addr : K) (datagram : Bytes)
  | race (i : Nat) (e : Event)
  | reply (i : Nat) (ok : Bool)
  deriving DecidableEq, Repr

section Service

variable {K A : Type} (cfg : Settings A)

/-- `handleRaceQuery` when it is started; `ReadFrom` cuts a datagram to its buffer of 4096 bytes. -/
def Handler.start (addr : K) (datagram : Bytes) : Handler K A where
  addr := addr
  query := datagram.take 4096
  race := Race.start (cfg.call (datagram.take 4096))
  finished := false

/-- `handleRaceQuery` once `raceQuery` has returned. -/
def Handler.ending (h : Handler K A) (outcome : Except RaceError Bytes) (ok : Bool) : Option Ending :=
  match (respond outcome h.query).1 with
  | .ok response => some (if ok then .wrote response else .failed)
  | .reject => some .silent
  | .panic => none

/-- **`Udp.step`** — one move of the service.  The parties of a race go on after it has returned. -/
def Udp.step (t : Udp K A) : UdpEvent K → Option (Udp K A)
  | .receive addr datagram =>
    some { t with handlers := t.handlers ++ [Handler.start cfg addr datagram] }
  | .race i e =>
    match t.handlers[i]? with
    | some h =>
      (Race.step (cfg.call h.query) h.race e).map fun st =>
        { t with handlers := t.handlers.set i { h with race := st } }
    | none => none
  | .reply i ok =>
    match t.handlers[i]? with
    | some h =>
      match h.finished, h.race.main with
      | false, .returned outcome =>
        (h.ending outcome ok).map fun ending =>
          { handlers := t.handlers.set i { h with finished := true }
            log := t.log ++ [⟨i, h.addr, ending⟩] }
      | _, _ => none
    | none => none

/-- Before the first datagram. -/
def Udp.init : Udp K A := ⟨[], []⟩

end Service

/-! ## Every query is answered once, from its own race -/

section Answers

variable {K A : Type} {cfg : Settings A}

/-- What a race has returned it does not take back. -/
theorem returned_step {p : Call A} {st st' : State A} {e : Event} {r : Except RaceError Bytes}
    (h : st.main = .returned r) (hstep : step p st e = some st') : st'.main = .returned r := by
  cases move_of_step hstep with
  | quiet _ _ _ hmain => exact hmain.trans h
  | worker | push => exact h
  | launch _ _ _ hmain | launchedUDP hmain | launchedTCP hmain | launchedFallback hmain =>
    cases h.symm.trans hmain
  | arm _ _ _ _ hmain => rcases hmain with hmain | hmain | hmain <;> cases h.symm.trans hmain
  | receive _ _ hmain | tickTCP _ hmain | tickFallback _ hmain | timeout _ hmain =>
    cases h.symm.trans hmain

/-- What is reported of a handler: its race has returned, and this is how the handler ended. -/
def Handler.Reported (h : Handler K A) (rep : Report K) : Prop :=
  rep.addr = h.addr ∧ h.finished = true ∧
    ∃ outcome ok, h.race.main = .returned outcome ∧ h.ending outcome ok = some rep.ending

/-- **`Accounted cfg t`** — every race is a run of `raceQuery`, and the log has one report for each
handler that has ended. -/
structure Accounted (cfg : Settings A) (t : Udp K A) : Prop where
  races : ∀ h ∈ t.handlers, Reaches (step (cfg.call h.query)) Always (start (cfg.call h.query)) h.race
  nodup : (t.log.map Report.handler).Nodup
  reports : ∀ rep ∈ t.log, ∃ h, t.handlers[rep.handler]? = some h ∧ h.Reported rep
  ended : ∀ i h, t.handlers[i]? = some h → h.finished = true → i ∈ t.log.map Report.handler

/-- A new handler is nobody's. -/
theorem accounted_receive {t : Udp K A} (h : Accounted cfg t) (addr : K) (datagram : Bytes) :
    Accounted cfg { t with handlers := t.handlers ++ [Handler.start cfg addr datagram] } := by
  refine ⟨fun g hg => ?_, h.nodup, fun rep hrep => ?_, fun i g hg hfinished => ?_⟩
  · rcases List.mem_append.mp hg with hg | hg
    · exact h.races g hg
    · obtain rfl := List.mem_singleton.mp hg
      exact .init
  · obtain ⟨g, hg, hreported⟩ := h.reports rep hrep
    exact ⟨g, by rw [List.getElem?_append_left (List.getElem?_eq_some_iff.mp hg).1, hg], hreported⟩
  · by_cases hi : i < t.handlers.length
    · rw [List.getElem?_append_left hi] at hg
      exact h.ended i g hg hfinished
    · rw [List.getElem?_append_right (by omega), List.getElem?_singleton] at hg
      split at hg
      · cases hg
        cases hfinished
      · cases hg

/-- A handler whose race moves is reported as before. -/
theorem accounted_race {t : Udp K A} (h : Accounted cfg t) {i : Nat} {e : Event} {g : Handler K A}
    {st : State A} (hget : t.handlers[i]? = some g)
    (hstep : step (cfg.call g.query) g.race e = some st) :
    Accounted cfg { t with handlers := t.handlers.set i { g with race := st } } := by
  obtain ⟨hlt, rfl⟩ := List.getElem?_eq_some_iff.mp hget
  refine ⟨fun g' hg' => ?_, h.nodup, fun rep hrep => ?_, fun j g' hg' hfinished => ?_⟩
  · rcases List.mem_or_eq_of_mem_set hg' with hmem | rfl
    · exact h.races g' hmem
    · exact (h.races _ (List.getElem_mem hlt)).step trivial hstep
  · obtain ⟨g', hg', haddr, hfinished, outcome, ok, hmain, hending⟩ := h.reports rep hrep
    by_cases hj : i = rep.handler
    · subst hj
      rw [hget] at hg'
      obtain rfl := Option.some.inj hg'
      refine ⟨_, List.getElem?_set_self hlt, haddr, hfinished, outcome, ok, ?_, hending⟩
      exact returned_step hmain hstep
    · exact ⟨g', by rw [List.getElem?_set_ne hj, hg'], haddr, hfinished, outcome, ok, hmain, hending⟩
  · by_cases hj : i = j
    · subst hj
      rw [List.getElem?_set_self hlt] at hg'
      cases hg'
      exact h.ended _ _ hget hfinished
    · rw [List.getElem?_set_ne hj] at hg'
      exact h.ended j g' hg' hfinished

/-- A handler ends, and is reported. -/
theorem accounted_reply {t : Udp K A} (h : Accounted cfg t) {i : Nat} {ok : Bool} {g : Handler K A}
    {outcome : Except RaceError Bytes} {ending : Ending} (hget : t.handlers[i]? = some g)
    (hopen : g.finished = false) (hmain : g.race.main = .returned outcome)
    (hending : g.ending outcome ok = some ending) :
    Accounted cfg
      { handlers := t.handlers.set i { g with finished := true }
        log := t.log ++ [⟨i, g.addr, ending⟩] } := by
  obtain ⟨hlt, rfl⟩ := List.getElem?_eq_some_iff.mp hget
  -- nobody has reported for it yet
  have hnew : ∀ rep ∈ t.log, rep.handler ≠ i := by
    rintro rep hrep rfl
    obtain ⟨g', hg', -, hfinished, -⟩ := h.reports rep hrep
    rw [hget] at hg'
    obtain rfl := Option.some.inj hg'
    rw [hopen] at hfinished
    cases hfinished
  refine ⟨fun g' hg' => ?_, ?_, fun rep hrep => ?_, fun j g' hg' hfinished => ?_⟩
  · rcases List.mem_or_eq_of_mem_set hg' with hmem | rfl
    · exact h.races g' hmem
    · exact h.races t.handlers[i] (List.getElem_mem hlt)
  · rw [List.map_append]
    refine h.nodup.append (List.nodup_singleton _) ?_
    simpa [List.disjoint_singleton] using hnew
  · rcases List.mem_append.mp hrep with hrep | hrep
    · obtain ⟨g', hg', hreported⟩ := h.reports rep hrep
      exact ⟨g', by rw [List.getElem?_set_ne (Ne.symm (hnew rep hrep)), hg'], hreported⟩
    · obtain rfl := List.mem_singleton.mp hrep
      exact ⟨_, List.getElem?_set_self hlt, rfl, rfl, outcome, ok, hmain, hending⟩
  · by_cases hj : i = j
    · subst hj
      simp
    · rw [List.getElem?_set_ne hj] at hg'
      rw [List.map_append]
      exact List.mem_append_left _ (h.ended j g' hg' hfinished)

/-- **`step_accounted`** — one move of the service keeps the account. -/
theorem step_accounted {t t' : Udp K A} {e : UdpEvent K} (h : Accounted cfg t)
    (hstep : t.step cfg e = some t') : Accounted cfg t' := by
  cases e with
  | receive addr datagram =>
    cases hstep
    exact accounted_receive h addr datagram
  | race i e =>
    simp only [Udp.step] at hstep
    split at hstep
    · rename_i g hget
      obtain ⟨st, hst, rfl⟩ := Option.map_eq_some_iff.mp hstep
      exact accounted_race h hget hst
    · cases hstep
  | reply i ok =>
    simp only [Udp.step] at hstep
    split at hstep
    · rename_i g hget
      split at hstep
      · rename_i outcome hopen hmain
        obtain ⟨ending, hending, rfl⟩ := Option.map_eq_some_iff.mp hstep
        exact accounted_reply h hget hopen hmain hending
      · cases hstep
    · cases hstep

theorem accounted_of_reaches {t : Udp K A} (h : Reaches (Udp.step cfg) Always Udp.init t) :
    Accounted cfg t := by
  induction h with
  | init => exact ⟨by simp [Udp.init], by simp [Udp.init], by simp [Udp.init], by simp [Udp.init]⟩
  | step _ _ hstep ih => exact step_accounted ih hstep

/-- What a handler owes its client. -/
def Handler.Keeps (h : Handler K A) : Ending → Prop
  | .wrote response =>
    validDNSResponse h.query response = true ∧
      (h.race.main = .returned (.ok response) ∧ h.race.responses.sent.head? = some response ∨
        ∃ e, h.race.main = .returned (.error e) ∧ ErrorAnswer h.query 2 response)
  | .failed => True
  | .silent => ∃ e, h.race.main = .returned (.error e) ∧ ¬ Parses h.query

/-- An ending is what the race of the query makes it. -/
theorem keeps_of_ending {h : Handler K A} {outcome : Except RaceError Bytes} {ok : Bool}
    {ending : Ending}
    (hrace : Reaches (step (cfg.call h.query)) Always (start (cfg.call h.query)) h.race)
    (hmain : h.race.main = .returned outcome) (hending : h.ending outcome ok = some ending) :
    h.Keeps ending := by
  cases outcome with
  | ok response =>
    have hsound := sound_of_reaches hrace
    have hfits := fits_of_returned hrace hmain
    cases ok <;> cases hending
    · trivial
    · exact ⟨hfits.1, Or.inl ⟨hmain, hsound.winner response hmain⟩⟩
  | error e =>
    simp only [Handler.ending, respond] at hending
    cases hd : dnsErrorResponse h.query 2 with
    | ok response =>
      rw [hd] at hending
      obtain ⟨response', h', hanswer, -⟩ :=
        dnsErrorResponse_of_parses 2 (parses_of_dnsErrorResponse hd)
      obtain rfl : response = response' := Scan.ok.inj (hd.symm.trans h')
      have hsafe := dnsErrorResponse_safe h.query 2
      rw [hd] at hsafe
      cases ok <;> cases hending
      · trivial
      · exact ⟨hsafe.2, Or.inr ⟨e, hmain, hanswer⟩⟩
    | reject =>
      rw [hd] at hending
      cases hending
      refine ⟨e, hmain, fun hparses => ?_⟩
      obtain ⟨response, h', -⟩ := dnsErrorResponse_of_parses 2 hparses
      cases hd.symm.trans h'
    | panic => exact absurd hd (dnsErrorResponse_safe h.query 2).ne_panic

/-- **`udp_answers_once`** — in every reachable state of the service, whatever the order in which
clients, handlers, upstream goroutines and timers move: no query is answered twice; an answer goes to
the address its query came from and is the winner of this query's own race, or a SERVFAIL for this
query after its race was lost; and a handler that has ended has written, has failed to write, or has
a query that no error can be made for. -/
theorem udp_answers_once (cfg : Settings A) {t : Udp K A}
    (h : Reaches (Udp.step cfg) Always Udp.init t) :
    (t.log.map Report.handler).Nodup ∧
    (∀ rep ∈ t.log, ∃ g, t.handlers[rep.handler]? = some g ∧ rep.addr = g.addr ∧
      g.Keeps rep.ending) ∧
    ∀ i g, t.handlers[i]? = some g → (g.finished = true ↔ i ∈ t.log.map Report.handler) := by
  have hacc := accounted_of_reaches h
  refine ⟨hacc.nodup, fun rep hrep => ?_, fun i g hg => ⟨hacc.ended i g hg, fun hi => ?_⟩⟩
  · obtain ⟨g, hg, haddr, -, outcome, ok, hmain, hending⟩ := hacc.reports rep hrep
    exact ⟨g, hg, haddr,
      keeps_of_ending (hacc.races g (List.mem_of_getElem? hg)) hmain hending⟩
  · obtain ⟨rep, hrep, rfl⟩ := List.mem_map.mp hi
    obtain ⟨g', hg', -, hfinished, -⟩ := hacc.reports rep hrep
    rw [hg] at hg'
    obtain rfl := Option.some.inj hg'
    exact hfinished

/-! ## No query is stuck -/

/-- A run of one race is a run of the service. -/
theorem run_race {t : Udp K A} {i : Nat} {g : Handler K A} (hget : t.handlers[i]? = some g)
    {es : List Event} {st : State A} (hrun : run (step (cfg.call g.query)) g.race es = some st) :
    run (Udp.step cfg) t (es.map fun e => UdpEvent.race i e) =
      some { t with handlers := t.handlers.set i { g with race := st } } := by
  induction es generalizing t g with
  | nil =>
    obtain ⟨hlt, rfl⟩ := List.getElem?_eq_some_iff.mp hget
    cases hrun
    have hsame : t.handlers.set i t.handlers[i] = t.handlers := List.set_getElem_self hlt
    show some t = some { t with handlers := t.handlers.set i t.handlers[i] }
    rw [hsame]
  | cons e es ih =>
    obtain ⟨hlt, -⟩ := List.getElem?_eq_some_iff.mp hget
    obtain ⟨st', hstep, hrest⟩ := Option.bind_eq_some_iff.mp hrun
    have hnext : ({ t with handlers := t.handlers.set i { g with race := st' } } : Udp K
        A).handlers[i]? = some { g with race := st' } := List.getElem?_set_self hlt
    have htail := ih hnext hrest
    simp only [List.set_set] at htail
    simp only [List.map_cons, run, Udp.step, hget, hstep, Option.map_some, Option.bind_some]
    exact htail

/-- The moves of handler `i`, the main goroutine of its race and the runtime. -/
def UdpEvent.ownOf (i : Nat) : UdpEvent K → Prop
  | .race j e => j = i ∧ e.own = true
  | .reply j _ => j = i
  | .receive .. => False

/-- **`udp_never_stuck`** — from every reachable state every query that is still unanswered can be
brought to its end by its own handler and the passing of time alone, whatever the upstreams and the
other handlers have done or left undone. -/
theorem udp_never_stuck (cfg : Settings A) {t : Udp K A}
    (h : Reaches (Udp.step cfg) Always Udp.init t) {i : Nat} (hi : i < t.handlers.length) :
    ∃ es t', run (Udp.step cfg) t es = some t' ∧ (∀ e ∈ es, e.ownOf i) ∧
      i ∈ t'.log.map Report.handler := by
  have hacc := accounted_of_reaches h
  have hget : t.handlers[i]? = some t.handlers[i] := List.getElem?_eq_getElem hi
  generalize t.handlers[i] = g at hget
  cases hfinished : g.finished with
  | true => exact ⟨[], t, rfl, by simp, hacc.ended i g hget hfinished⟩
  | false =>
    obtain ⟨es, st, outcome, hrun, hmain, hown⟩ :=
      can_return (hacc.races g (List.mem_of_getElem? hget))
    obtain ⟨ending, hending⟩ : ∃ ending, g.ending outcome true = some ending := by
      unfold Handler.ending respond
      cases outcome with
      | ok response => exact ⟨_, rfl⟩
      | error e =>
        cases hd : dnsErrorResponse g.query 2 with
        | ok response => exact ⟨_, rfl⟩
        | reject => exact ⟨_, rfl⟩
        | panic => exact absurd hd (dnsErrorResponse_safe g.query 2).ne_panic
    have hreply : Udp.step cfg { t with handlers := t.handlers.set i { g with race := st } }
        (.reply i true) = some
          { handlers := t.handlers.set i { g with race := st, finished := true }
            log := t.log ++ [⟨i, g.addr, ending⟩] } := by
      simp only [Udp.step, List.getElem?_set_self hi, hfinished, hmain, List.set_set]
      exact Option.map_eq_some_iff.mpr ⟨ending, hending, rfl⟩
    have hwhole : run (Udp.step cfg) t ((es.map fun e => UdpEvent.race i e) ++ [.reply i true]) =
        some
          { handlers := t.handlers.set i { g with race := st, finished := true }
            log := t.log ++ [⟨i, g.addr, ending⟩] } := by
      rw [run_append, run_race hget hrun, Option.bind_some, run, hreply]
      rfl
    refine ⟨_, _, hwhole, fun e he => ?_, by simp⟩
    rcases List.mem_append.mp he with he | he
    · obtain ⟨e', he', rfl⟩ := List.mem_map.mp he
      exact ⟨rfl, hown e' he'⟩
    · obtain rfl := List.mem_singleton.mp he
      exact rfl

end Answers

/-! ## Two clients -/

/-- The settings of `oneEach`. -/
def oneEachSettings : Settings String :=
  ⟨oneEach.primary, oneEach.fallback, oneEach.tcpDelay, oneEach.fallbackDelay, oneEach.timeout⟩

/-- The first client's query is answered by the domestic resolver; the second client's is not, and
gets a SERVFAIL; a third has sent three bytes. -/
def twoClients : List (UdpEvent Nat) :=
  [.receive 1 oneEach.query, .receive 2 (rootQuery 9), .receive 3 [1, 2, 3]] ++
  toSelect.map (UdpEvent.race 0) ++ toSelect.map (UdpEvent.race 1) ++
  [.race 0 (.ask 0), .race 0 (.answer 0 ⟨[oneEachAnswer], .eof⟩), .race 0 (.push 0),
   .race 0 (.select .response), .race 1 (.pass 2000000000), .race 1 (.fire .timeout),
   .race 1 (.select .timeout), .reply 1 true, .reply 0 true]

theorem twoClients_run :
    (run (Udp.step oneEachSettings) Udp.init twoClients).map
      (fun t => (t.log.map fun rep => (rep.handler, rep.addr), t.handlers.length)) =
        some ([(1, 2), (0, 1)], 3) := by decide +kernel

theorem udp_answers_once_two :
    ∃ t, run (Udp.step oneEachSettings) Udp.init twoClients = some t ∧
      (t.log.map fun rep => (rep.handler, rep.addr)) = [(1, 2), (0, 1)] ∧
      ∀ rep ∈ t.log, ∃ g, t.handlers[rep.handler]? = some g ∧ rep.addr = g.addr ∧
        g.Keeps rep.ending := by
  obtain ⟨t, hrun, ht⟩ := Option.map_eq_some_iff.mp twoClients_run
  exact ⟨t, hrun, (Prod.mk.inj ht).1,
    (udp_answers_once oneEachSettings (Reaches.init.of_run hrun)).2.1⟩

theorem udp_never_stuck_third :
    ∃ t, run (Udp.step oneEachSettings) Udp.init twoClients = some t ∧
      ∃ es t', run (Udp.step oneEachSettings) t es = some t' ∧ (∀ e ∈ es, e.ownOf 2) ∧
        2 ∈ t'.log.map Report.handler := by
  obtain ⟨t, hrun, ht⟩ := Option.map_eq_some_iff.mp twoClients_run
  have hlen : 2 < t.handlers.length := by
    rw [(Prod.mk.inj ht).2]
    decide
  exact ⟨t, hrun, udp_never_stuck oneEachSettings (Reaches.init.of_run hrun) hlen⟩

end ProxyGateway.Race
