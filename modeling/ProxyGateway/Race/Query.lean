/-
# ProxyGateway.Race.Query — `raceQuery` under every schedule

`raceQuery` starts one goroutine per upstream and network, arms three timers and waits in a `select`.
`step` lets any party move: the main goroutine by one statement, the `select` by one of the cases
that are ready, a goroutine by one I/O call or by its send on the channel, the runtime by firing a
timer that is due, and the clock.  Nothing orders these moves, so a reachable state is a state of
some schedule.

Two promises are compared with the code.  The race's winner: a response that is returned is the first
that was sent (`sent_valid`, the channel is a queue), but a `select` with several ready cases takes
any of them, so the timeout may be reported over a response that waits.  And the order of the stages:
the fallback timer is due no earlier than the TCP timer, and that alone does not make its case
wait for the other.
-/
import ProxyGateway.Lang.GoChannel
import ProxyGateway.Logic.Machine
import ProxyGateway.Race.Wire

namespace ProxyGateway.Race

open ProxyGateway.Lang
open ProxyGateway.Logic
open ProxyGateway.Quic (Bytes)

/-! ## Data -/

/-- The arguments of `raceQuery`; `A` is the type of upstream addresses, durations are in
nanoseconds. -/
structure Call (A : Type) where
  query : Bytes
  primary : List A
  fallback : List A
  tcpDelay : Int
  fallbackDelay : Int
  timeout : Int
  deriving DecidableEq, Repr

/-- `if fallbackDelay < tcpDelay { fallbackDelay = tcpDelay }`. -/
def Call.clampedFallbackDelay {A : Type} (p : Call A) : Int :=
  if p.fallbackDelay < p.tcpDelay then p.tcpDelay else p.fallbackDelay

/-- The three calls of `startQueries`. -/
inductive Batch where
  | primaryUDP
  | primaryTCP
  | fallbackUDP
  deriving DecidableEq, Repr

def Batch.network : Batch → Network
  | .primaryUDP => .udp
  | .primaryTCP => .tcp
  | .fallbackUDP => .udp

def Batch.upstreams {A : Type} (p : Call A) : Batch → List A
  | .primaryUDP => p.primary
  | .primaryTCP => p.primary
  | .fallbackUDP => p.fallback

/-- Where the goroutine of one upstream stands. -/
inductive Phase where
  /-- started, the query not yet written -/
  | started
  /-- the query is out -/
  | asked
  /-- holds an answer that passed `validDNSResponse`, not yet sent on the channel -/
  | holding (response : Bytes)
  | finished
  deriving DecidableEq, Repr

/-- One goroutine of `startQueries`. -/
structure Worker (A : Type) where
  batch : Batch
  upstream : A
  phase : Phase
  /-- its query was written to the upstream -/
  queried : Bool
  deriving DecidableEq, Repr

/-- The errors of `raceQuery`. -/
inductive RaceError where
  | queryTooShort
  | timedOut
  deriving DecidableEq, Repr

/-- `err.Error()`. -/
def RaceError.text : RaceError → String
  | .queryTooShort => "query too short"
  | .timedOut => "all upstreams timed out"

/-- The main goroutine: inside `startQueries`, arming a timer, in the `select`, or returned. -/
inductive Main (A : Type) where
  | launching (batch : Batch) (rest : List A)
  | armTCP
  | armFallback
  | armTimeout
  | selecting
  | returned (result : Except RaceError Bytes)
  deriving DecidableEq

/-- The state of one call. -/
structure State (A : Type) where
  clock : Int
  main : Main A
  workers : List (Worker A)
  responses : Chan Bytes
  tcpTimer : Option Timer
  fallbackTimer : Option Timer
  timeoutTimer : Option Timer
  tcpStarted : Bool
  fallbackStarted : Bool
  deriving DecidableEq

/-- The cases of the `select`. -/
inductive Case where
  | response
  | tcp
  | fallback
  | timeout
  deriving DecidableEq, Repr

inductive TimerName where
  | tcp
  | fallback
  | timeout
  deriving DecidableEq, Repr

/-- One move of one party. -/
inductive Event where
  | pass (d : Nat)
  | fire (t : TimerName)
  | main
  | select (c : Case)
  /-- goroutine `i` writes its query -/
  | ask (i : Nat)
  /-- goroutine `i` reads what its connection brings -/
  | answer (i : Nat) (c : Conn)
  /-- goroutine `i` gives up: dial, deadline or write failed -/
  | fail (i : Nat)
  /-- goroutine `i` sends its response on the channel -/
  | push (i : Nat)
  deriving DecidableEq, Repr

/-! ## The step function -/

section Step

variable {A : Type}

/-- A fresh goroutine. -/
def Worker.fresh (batch : Batch) (upstream : A) : Worker A := ⟨batch, upstream, .started, false⟩

/-- The deterministic moves of the main goroutine. -/
def stepMain (p : Call A) (st : State A) : Option (State A) :=
  match st.main with
  | .launching batch (upstream :: rest) =>
    some { st with main := .launching batch rest, workers := st.workers ++ [.fresh batch upstream] }
  | .launching .primaryUDP [] => some { st with main := .armTCP }
  | .launching .primaryTCP [] => some { st with main := .selecting, tcpStarted := true }
  | .launching .fallbackUDP [] => some { st with main := .selecting, fallbackStarted := true }
  | .armTCP =>
    some { st with main := .armFallback, tcpTimer := some (.new st.clock p.tcpDelay) }
  | .armFallback =>
    some { st with
      main := .armTimeout, fallbackTimer := some (.new st.clock p.clampedFallbackDelay) }
  | .armTimeout =>
    some { st with main := .selecting, timeoutTimer := some (.new st.clock p.timeout) }
  | .selecting => none
  | .returned _ => none

/-- One ready case of the `select`. -/
def stepSelect (p : Call A) (st : State A) : Case → Option (State A)
  | .response =>
    st.responses.recv.map fun (response, responses) =>
      { st with main := .returned (.ok response), responses := responses }
  | .tcp =>
    (st.tcpTimer.bind Timer.recv).map fun t =>
      { st with
        tcpTimer := some t
        main := if st.tcpStarted then .selecting else .launching .primaryTCP p.primary }
  | .fallback =>
    (st.fallbackTimer.bind Timer.recv).map fun t =>
      { st with
        fallbackTimer := some t
        main := if st.fallbackStarted then .selecting else .launching .fallbackUDP p.fallback }
  | .timeout =>
    (st.timeoutTimer.bind Timer.recv).map fun t =>
      { st with timeoutTimer := some t, main := .returned (.error .timedOut) }

/-- The runtime fires a timer that is due. -/
def stepFire (st : State A) : TimerName → Option (State A)
  | .tcp => (st.tcpTimer.bind (·.fire st.clock)).map fun t => { st with tcpTimer := some t }
  | .fallback =>
    (st.fallbackTimer.bind (·.fire st.clock)).map fun t => { st with fallbackTimer := some t }
  | .timeout =>
    (st.timeoutTimer.bind (·.fire st.clock)).map fun t => { st with timeoutTimer := some t }

/-- What becomes of a goroutine whose `queryUpstream` has returned. -/
def Worker.answered (query : Bytes) (w : Worker A) (c : Conn) : Worker A :=
  match queryUpstream w.batch.network c with
  | .ok response =>
    if validDNSResponse query response then { w with phase := .holding response }
    else { w with phase := .finished }
  | .error _ => { w with phase := .finished }

/-- A goroutine moves on its own. -/
def Worker.step (query : Bytes) (w : Worker A) : Event → Option (Worker A)
  | .ask _ =>
    if w.phase = .started ∧ w.batch.network.carries query then
      some { w with phase := .asked, queried := true }
    else none
  | .answer _ c => if w.phase = .asked then some (w.answered query c) else none
  | .fail _ =>
    if w.phase = .started ∨ w.phase = .asked then some { w with phase := .finished } else none
  | _ => none

/-- Goroutine `i` of the state moves on its own. -/
def stepWorker (p : Call A) (st : State A) (i : Nat) (e : Event) : Option (State A) :=
  (st.workers[i]?.bind (·.step p.query e)).map fun w => { st with workers := st.workers.set i w }

/-- `responses <- response`. -/
def stepPush (st : State A) (i : Nat) : Option (State A) :=
  match st.workers[i]? with
  | some ⟨batch, upstream, .holding response, queried⟩ =>
    (st.responses.send response).map fun responses =>
      { st with
        responses := responses
        workers := st.workers.set i ⟨batch, upstream, .finished, queried⟩ }
  | _ => none

/-- **`step`** — one move of any party.  Goroutines go on after `raceQuery` has returned. -/
def step (p : Call A) (st : State A) : Event → Option (State A)
  | .pass d => some { st with clock := st.clock + d }
  | .fire t => stepFire st t
  | .main => stepMain p st
  | .select c => if st.main matches .selecting then stepSelect p st c else none
  | .push i => stepPush st i
  | .ask i => stepWorker p st i (.ask i)
  | .answer i c => stepWorker p st i (.answer i c)
  | .fail i => stepWorker p st i (.fail i)

/-- `raceQuery` when it is called. -/
def start (p : Call A) : State A where
  clock := 0
  main := if p.query.length < 2 then .returned (.error .queryTooShort)
    else .launching .primaryUDP p.primary
  workers := []
  responses := .make (p.primary.length * 2 + p.fallback.length)
  tcpTimer := none
  fallbackTimer := none
  timeoutTimer := none
  tcpStarted := p.primary.isEmpty
  fallbackStarted := p.fallback.isEmpty

end Step

/-! ## What one move can do -/

section Moves

variable {A : Type}

/-- What a goroutine may do between its start and its send. -/
inductive Worker.Moves (p : Call A) (w : Worker A) : Worker A → Prop
  | asks (h : w.phase = .started) : w.Moves p { w with phase := .asked, queried := true }
  | holds (response : Bytes) (h : w.phase = .asked)
      (hvalid : validDNSResponse p.query response = true) (hlen : response.length ≤ 65535) :
      w.Moves p { w with phase := .holding response }
  | gives_up (h : w.phase = .started ∨ w.phase = .asked) : w.Moves p { w with phase := .finished }

/-- **`Move`** — everything a step can change, by who moves. -/
inductive Move (p : Call A) (st : State A) : Event → State A → Prop
  /-- the clock and the timers -/
  | quiet (e : Event) (st' : State A) (hwho : ∀ c, e ≠ .select c)
      (hmain : st'.main = st.main) (hworkers : st'.workers = st.workers)
      (hresponses : st'.responses = st.responses) (htcp : st'.tcpStarted = st.tcpStarted)
      (hfallback : st'.fallbackStarted = st.fallbackStarted) : Move p st e st'
  /-- one round of the loop of `startQueries` -/
  | launch (batch : Batch) (upstream : A) (rest : List A)
      (hmain : st.main = .launching batch (upstream :: rest)) :
      Move p st .main
        { st with main := .launching batch rest, workers := st.workers ++ [.fresh batch upstream] }
  | launchedUDP (hmain : st.main = .launching .primaryUDP []) :
      Move p st .main { st with main := .armTCP }
  | launchedTCP (hmain : st.main = .launching .primaryTCP []) :
      Move p st .main { st with main := .selecting, tcpStarted := true }
  | launchedFallback (hmain : st.main = .launching .fallbackUDP []) :
      Move p st .main { st with main := .selecting, fallbackStarted := true }
  /-- `time.NewTimer` -/
  | arm (main : Main A) (t₁ t₂ t₃ : Option Timer)
      (hmain : st.main = .armTCP ∨ st.main = .armFallback ∨ st.main = .armTimeout)
      (hnext : main = .armFallback ∨ main = .armTimeout ∨ main = .selecting) :
      Move p st .main
        { st with main := main, tcpTimer := t₁, fallbackTimer := t₂, timeoutTimer := t₃ }
  | receive (response : Bytes) (responses : Chan Bytes) (hmain : st.main = .selecting)
      (hrecv : st.responses.recv = some (response, responses)) :
      Move p st (.select .response)
        { st with main := .returned (.ok response), responses := responses }
  | tickTCP (t : Timer) (hmain : st.main = .selecting) :
      Move p st (.select .tcp)
        { st with
          tcpTimer := some t
          main := if st.tcpStarted then .selecting else .launching .primaryTCP p.primary }
  | tickFallback (t : Timer) (hmain : st.main = .selecting) :
      Move p st (.select .fallback)
        { st with
          fallbackTimer := some t
          main := if st.fallbackStarted then .selecting else .launching .fallbackUDP p.fallback }
  | timeout (t : Timer) (hmain : st.main = .selecting) :
      Move p st (.select .timeout)
        { st with timeoutTimer := some t, main := .returned (.error .timedOut) }
  | worker (e : Event) (i : Nat) (w w' : Worker A) (hwho : ∀ c, e ≠ .select c)
      (hget : st.workers[i]? = some w) (hmoves : w.Moves p w') :
      Move p st e { st with workers := st.workers.set i w' }
  | push (i : Nat) (w : Worker A) (response : Bytes) (responses : Chan Bytes)
      (hget : st.workers[i]? = some w) (hphase : w.phase = .holding response)
      (hsend : st.responses.send response = some responses) :
      Move p st (.push i)
        { st with responses := responses, workers := st.workers.set i { w with phase := .finished } }

theorem Worker.moves_of_step {p : Call A} {w w' : Worker A} {e : Event}
    (h : w.step p.query e = some w') : w.Moves p w' := by
  cases e with
  | ask i =>
    simp only [Worker.step] at h
    split at h
    · next hc =>
      obtain rfl := Option.some.inj h
      exact .asks hc.1
    · nomatch h
  | answer i c =>
    simp only [Worker.step] at h
    split at h
    · next hc =>
      obtain rfl := Option.some.inj h
      unfold Worker.answered
      split
      · next response hq =>
        split
        · next hvalid => exact .holds response hc hvalid (queryUpstream_length hq)
        · exact .gives_up (.inr hc)
      · exact .gives_up (.inr hc)
    · nomatch h
  | fail i =>
    simp only [Worker.step] at h
    split at h
    · next hc =>
      obtain rfl := Option.some.inj h
      exact .gives_up hc
    · nomatch h
  | pass _ | fire _ | main | select _ | push _ => nomatch h

theorem move_of_stepMain {p : Call A} {st st' : State A} (h : stepMain p st = some st') :
    Move p st .main st' := by
  unfold stepMain at h
  split at h
  · next batch upstream rest hmain =>
    obtain rfl := Option.some.inj h
    exact .launch batch upstream rest hmain
  · next hmain => obtain rfl := Option.some.inj h; exact .launchedUDP hmain
  · next hmain => obtain rfl := Option.some.inj h; exact .launchedTCP hmain
  · next hmain => obtain rfl := Option.some.inj h; exact .launchedFallback hmain
  · next hmain =>
    obtain rfl := Option.some.inj h
    exact .arm _ _ _ _ (.inl hmain) (.inl rfl)
  · next hmain =>
    obtain rfl := Option.some.inj h
    exact .arm _ _ _ _ (.inr (.inl hmain)) (.inr (.inl rfl))
  · next hmain =>
    obtain rfl := Option.some.inj h
    exact .arm _ _ _ _ (.inr (.inr hmain)) (.inr (.inr rfl))
  · nomatch h
  · nomatch h

theorem move_of_stepSelect {p : Call A} {st st' : State A} {c : Case} (hmain : st.main = .selecting)
    (h : stepSelect p st c = some st') : Move p st (.select c) st' := by
  cases c with
  | response =>
    obtain ⟨⟨response, responses⟩, hrecv, rfl⟩ := Option.map_eq_some_iff.mp h
    exact .receive response responses hmain hrecv
  | tcp =>
    obtain ⟨t, -, rfl⟩ := Option.map_eq_some_iff.mp h
    exact .tickTCP t hmain
  | fallback =>
    obtain ⟨t, -, rfl⟩ := Option.map_eq_some_iff.mp h
    exact .tickFallback t hmain
  | timeout =>
    obtain ⟨t, -, rfl⟩ := Option.map_eq_some_iff.mp h
    exact .timeout t hmain

theorem move_of_stepWorker {p : Call A} {st st' : State A} {i : Nat} {e : Event}
    (hwho : ∀ c, e ≠ .select c) (h : stepWorker p st i e = some st') : Move p st e st' := by
  obtain ⟨w', hw', rfl⟩ := Option.map_eq_some_iff.mp h
  obtain ⟨w, hget, hstep⟩ := Option.bind_eq_some_iff.mp hw'
  exact .worker e i w w' hwho hget (Worker.moves_of_step hstep)

theorem move_of_stepPush {p : Call A} {st st' : State A} {i : Nat} (h : stepPush st i = some st') :
    Move p st (.push i) st' := by
  unfold stepPush at h
  split at h
  · next batch upstream response queried hget =>
    obtain ⟨responses, hsend, rfl⟩ := Option.map_eq_some_iff.mp h
    exact .push i ⟨batch, upstream, .holding response, queried⟩ response responses hget rfl hsend
  · nomatch h

/-- **What a step can do.**  Every invariant below is read off this. -/
theorem move_of_step {p : Call A} {st st' : State A} {e : Event} (h : step p st e = some st') :
    Move p st e st' := by
  cases e with
  | pass d =>
    obtain rfl := Option.some.inj h
    exact .quiet _ _ (fun c hc => nomatch hc) rfl rfl rfl rfl rfl
  | fire t =>
    cases t <;> obtain ⟨t', -, rfl⟩ := Option.map_eq_some_iff.mp h <;>
      exact .quiet _ _ (fun c hc => nomatch hc) rfl rfl rfl rfl rfl
  | main => exact move_of_stepMain h
  | select c =>
    simp only [step] at h
    split at h
    · next hsel =>
      refine move_of_stepSelect ?_ h
      cases hm : st.main <;> simp_all
    · nomatch h
  | push i => exact move_of_stepPush h
  | ask i => exact move_of_stepWorker (fun c hc => nomatch hc) h
  | answer i c => exact move_of_stepWorker (fun c hc => nomatch hc) h
  | fail i => exact move_of_stepWorker (fun c hc => nomatch hc) h

end Moves

/-! ## The winner of the race -/

section Winner

variable {A : Type} {p : Call A}

/-- An answer to this query that a frame can carry. -/
def Call.Fits (p : Call A) (response : Bytes) : Prop :=
  validDNSResponse p.query response = true ∧ response.length ≤ 65535

/-- **`Sound`** — nothing but answers travels to the channel, and nothing is received before
`raceQuery` returns what it received. -/
structure Sound (p : Call A) (st : State A) : Prop where
  unread : (∀ r, st.main ≠ .returned (.ok r)) → st.responses.taken = 0
  winner : ∀ r, st.main = .returned (.ok r) → st.responses.sent.head? = some r
  sent : ∀ r ∈ st.responses.sent, p.Fits r
  held : ∀ w ∈ st.workers, ∀ r, w.phase = .holding r → p.Fits r

theorem sound_start (p : Call A) : Sound p (start p) where
  unread _ := rfl
  winner r h := by
    simp only [start] at h
    split at h <;> nomatch h
  sent r h := nomatch h
  held w h := nomatch h

/-- A goroutine that moves on its own holds nothing, or an answer that fits. -/
theorem Worker.Moves.held {w w' : Worker A} (h : w.Moves p w') (r : Bytes)
    (hr : w'.phase = .holding r) : p.Fits r := by
  cases h with
  | asks _ => nomatch hr
  | holds response _ hvalid hlen =>
    obtain rfl : response = r := by simpa using hr
    exact ⟨hvalid, hlen⟩
  | gives_up _ => nomatch hr

theorem held_set {ws : List (Worker A)} {w' : Worker A} {i : Nat}
    (h : ∀ w ∈ ws, ∀ r, w.phase = .holding r → p.Fits r)
    (hw' : ∀ r, w'.phase = .holding r → p.Fits r) :
    ∀ w ∈ ws.set i w', ∀ r, w.phase = .holding r → p.Fits r := by
  intro w hw r hr
  rcases List.mem_or_eq_of_mem_set hw with hmem | rfl
  · exact h w hmem r hr
  · exact hw' r hr

/-- A move of the main goroutine that receives nothing. -/
theorem Sound.main_moves {st st' : State A} (hs : Sound p st) (hworkers : st'.workers = st.workers)
    (hresponses : st'.responses = st.responses) (hmain : ∀ r, st.main ≠ .returned (.ok r))
    (hmain' : ∀ r, st'.main ≠ .returned (.ok r)) : Sound p st' where
  unread _ := by rw [hresponses]; exact hs.unread hmain
  winner r hr := absurd hr (hmain' r)
  sent := by rw [hresponses]; exact hs.sent
  held := by rw [hworkers]; exact hs.held

theorem sound_move {st st' : State A} {e : Event} (hs : Sound p st) (h : Move p st e st') :
    Sound p st' := by
  cases h with
  | quiet e st' _ hmain hworkers hresponses _ _ =>
    constructor
    · rw [hmain, hresponses]; exact hs.unread
    · rw [hmain, hresponses]; exact hs.winner
    · rw [hresponses]; exact hs.sent
    · rw [hworkers]; exact hs.held
  | launch batch upstream rest hmain =>
    refine ⟨fun _ => hs.unread (by simp [hmain]), fun r h => (nomatch h), hs.sent, ?_⟩
    intro w hw r hr
    rcases List.mem_append.mp hw with hmem | hmem
    · exact hs.held w hmem r hr
    · obtain rfl := List.mem_singleton.mp hmem
      nomatch hr
  | launchedUDP hmain => exact hs.main_moves rfl rfl (by simp [hmain]) (by simp)
  | launchedTCP hmain => exact hs.main_moves rfl rfl (by simp [hmain]) (by simp)
  | launchedFallback hmain => exact hs.main_moves rfl rfl (by simp [hmain]) (by simp)
  | arm main t₁ t₂ t₃ hmain hnext =>
    refine hs.main_moves rfl rfl ?_ ?_
    · rcases hmain with h | h | h <;> simp [h]
    · rcases hnext with rfl | rfl | rfl <;> simp
  | receive response responses hmain hrecv =>
    have htaken : st.responses.taken = 0 := hs.unread (by simp [hmain])
    obtain ⟨hget, hsent, -, -⟩ := Chan.recv_eq_some hrecv
    refine ⟨fun h => absurd rfl (h response), fun r hr => ?_, ?_, hs.held⟩
    · obtain rfl : response = r := by simpa using hr
      show responses.sent.head? = some response
      rw [hsent, List.head?_eq_getElem?, ← htaken]
      exact hget
    · show ∀ r ∈ responses.sent, p.Fits r
      rw [hsent]
      exact hs.sent
  | tickTCP t hmain =>
    refine hs.main_moves rfl rfl (by simp [hmain]) fun r hr => ?_
    dsimp only at hr
    split at hr <;> nomatch hr
  | tickFallback t hmain =>
    refine hs.main_moves rfl rfl (by simp [hmain]) fun r hr => ?_
    dsimp only at hr
    split at hr <;> nomatch hr
  | timeout t hmain => exact hs.main_moves rfl rfl (by simp [hmain]) (by simp)
  | worker e i w w' _ hget hmoves =>
    exact ⟨hs.unread, hs.winner, hs.sent, held_set hs.held hmoves.held⟩
  | push i w response responses hget hphase hsend =>
    obtain ⟨hsent, htaken, -⟩ := Chan.send_eq_some hsend
    have hfits : p.Fits response := hs.held w (List.mem_of_getElem? hget) response hphase
    refine ⟨fun h => ?_, fun r hr => ?_, fun r hr => ?_, held_set hs.held fun r h => nomatch h⟩
    · show responses.taken = 0
      rw [htaken]
      exact hs.unread h
    · show responses.sent.head? = some r
      rw [hsent, List.head?_append, hs.winner r hr]
      rfl
    · rw [show _ = st.responses.sent ++ [response] from hsent] at hr
      rcases List.mem_append.mp hr with hmem | hmem
      · exact hs.sent r hmem
      · obtain rfl := List.mem_singleton.mp hmem
        exact hfits

theorem sound_of_reaches {st : State A} (h : Reaches (step p) Always (start p) st) : Sound p st :=
  h.invariant (sound_start p) fun _ _ _ hs _ hstep => sound_move hs (move_of_step hstep)

/-- A response that is returned answers the query and fits into a frame. -/
theorem fits_of_returned {st : State A} {r : Bytes} (h : Reaches (step p) Always (start p) st)
    (hr : st.main = .returned (.ok r)) : p.Fits r := by
  have hs := sound_of_reaches h
  exact hs.sent r (List.mem_of_mem_head? (hs.winner r hr))

/-- **`ReturnsWinner`** — what a step returns, if it returns: the first response that was sent, which
answers the query, or the timeout when none was sent. -/
def ReturnsWinner (p : Call A) (st : State A) (e : Event) : Prop :=
  ∀ st', step p st e = some st' →
    (∀ r, st'.main = .returned (.ok r) →
      st'.responses.sent.head? = some r ∧ validDNSResponse p.query r = true) ∧
    (st.main ≠ st'.main → st'.main = .returned (.error .timedOut) → st.responses.sent = [])

/-- **`TimeoutYields`** — the `select` does not take the timeout while a response waits. -/
def TimeoutYields (st : State A) (e : Event) : Prop :=
  e = .select .timeout → st.responses.buf = []

/-- A step returns the winner exactly when it is not a timeout taken over a waiting response. -/
theorem returnsWinner_iff {st st' : State A} {e : Event}
    (h : Reaches (step p) Always (start p) st) (hstep : step p st e = some st') :
    ReturnsWinner p st e ↔ TimeoutYields st e := by
  have hs := sound_of_reaches h
  constructor
  · rintro hw rfl
    obtain ⟨-, htimeout⟩ := hw st' hstep
    cases move_of_step hstep with
    | quiet _ _ hwho => exact absurd rfl (hwho _)
    | worker _ _ _ _ hwho => exact absurd rfl (hwho _)
    | timeout t hmain =>
      have hsent := htimeout (by simp [hmain]) rfl
      rw [Chan.buf, hsent, List.drop_nil]
  · intro hyields t ht
    obtain rfl : st' = t := Option.some.inj (hstep.symm.trans ht)
    have hs' := sound_of_reaches (h.step trivial hstep)
    refine ⟨fun r hr => ⟨hs'.winner r hr, (fits_of_returned (h.step trivial hstep) hr).1⟩, ?_⟩
    intro hne hret
    cases move_of_step hstep with
    | timeout t hmain =>
      have htaken : st.responses.taken = 0 := hs.unread (by simp [hmain])
      rw [← Chan.buf_of_taken_zero htaken]
      exact hyields rfl
    | quiet _ _ _ hmain => exact absurd hmain.symm hne
    | launch | launchedUDP | launchedTCP | launchedFallback => cases hret
    | arm _ _ _ _ _ hnext => rcases hnext with h | h | h <;> cases h.symm.trans hret
    | receive => cases hret
    | tickTCP | tickFallback =>
      dsimp only at hret
      split at hret <;> cases hret
    | worker | push => exact absurd rfl hne

end Winner

/-- One domestic and one foreign resolver; the fallback delay is below the TCP delay, so it is
raised to it.  The durations are 150 ms, 100 ms and 2 s. -/
def oneEach : Call String where
  query := [0x12, 0x34, 0x01, 0, 0, 0, 0, 0, 0, 0, 0, 0]
  primary := ["119.29.29.29:53"]
  fallback := ["1.1.1.1:53"]
  tcpDelay := 150000000
  fallbackDelay := 100000000
  timeout := 2000000000

/-- An answer to it. -/
def oneEachAnswer : Bytes := [0x12, 0x34, 0x81, 0, 0, 0, 0, 0, 0, 0, 0, 0]

/-- The main goroutine reaches its `select`. -/
def toSelect : List Event := [.main, .main, .main, .main, .main]

/-- The answer of the domestic resolver arrives at the last moment, and the timer fires too. -/
def answerAtTimeout : List Event :=
  toSelect ++ [.ask 0, .pass 2000000000, .answer 0 ⟨[oneEachAnswer], .eof⟩, .push 0, .fire .timeout]

section Stages

variable {A : Type} {p : Call A}

/-- The upstreams for which the goroutines of a batch were started, in order. -/
def State.launched (st : State A) (batch : Batch) : List A :=
  ((st.workers.map fun w => (w.batch, w.upstream)).filter (·.1 = batch)).map (·.2)

/-- The first `startQueries` is behind the main goroutine. -/
def Main.pastUDP : Main A → Bool
  | .launching .primaryUDP _ => false
  | .returned (.error .queryTooShort) => false
  | _ => true

/-- A batch has been started, or had nothing to start. -/
def State.begun (st : State A) : Batch → Bool
  | .primaryUDP => st.main.pastUDP
  | .primaryTCP => st.tcpStarted
  | .fallbackUDP => st.fallbackStarted

/-- What is left of a batch that was not started in full. -/
def Main.left (p : Call A) (batch : Batch) : Main A → List A
  | .launching b rest => if b = batch then rest else batch.upstreams p
  | _ => batch.upstreams p

/-- The upstreams of a batch whose goroutines are still to be started. -/
def State.unlaunched (p : Call A) (st : State A) (batch : Batch) : List A :=
  cond (st.begun batch) [] (st.main.left p batch)

/-- A query was sent to a fallback upstream. -/
def State.fallbackQueried (st : State A) : Prop :=
  ∃ w ∈ st.workers, w.batch = .fallbackUDP ∧ w.queried = true

/-- **`Staged`** — every batch is started once, in the order of its list. -/
structure Staged (p : Call A) (st : State A) : Prop where
  split : ∀ batch, st.launched batch ++ st.unlaunched p batch = batch.upstreams p
  fresh : ∀ batch rest, st.main = .launching batch rest → st.begun batch = false
  idle : st.fallbackStarted = false → p.fallback ≠ []

theorem cond_isEmpty (l : List A) : cond l.isEmpty [] l = l := by
  cases l <;> rfl

theorem staged_start (p : Call A) : Staged p (start p) where
  split batch := by
    have hlaunched : (start p).launched batch = [] := rfl
    rw [hlaunched, List.nil_append]
    by_cases hq : p.query.length < 2
    · cases batch <;>
        simp [State.unlaunched, State.begun, Main.pastUDP, Main.left, start, hq, Batch.upstreams,
          cond_isEmpty]
    · cases batch <;>
        simp [State.unlaunched, State.begun, Main.pastUDP, Main.left, start, hq, Batch.upstreams,
          cond_isEmpty]
  fresh batch rest h := by
    by_cases hq : p.query.length < 2
    · simp [start, hq] at h
    · obtain ⟨rfl, -⟩ : Batch.primaryUDP = batch ∧ _ := by simpa [start, hq] using h
      simp [State.begun, Main.pastUDP, start, hq]
  idle h := by
    simpa [start] using h

/-- A worker that moves keeps its batch and its upstream. -/
theorem launched_set {ws : List (Worker A)} {i : Nat} {w w' : Worker A} (hget : ws[i]? = some w)
    (hb : w'.batch = w.batch) (hu : w'.upstream = w.upstream) :
    (ws.set i w').map (fun w => (w.batch, w.upstream)) =
      ws.map fun w => (w.batch, w.upstream) := by
  obtain ⟨hi, hw⟩ := List.getElem?_eq_some_iff.mp hget
  rw [List.map_set, hb, hu, ← hw]
  refine List.ext_getElem (by simp) fun n h₁ h₂ => ?_
  rw [List.getElem_set]
  split
  · next h => subst h; simp
  · rfl

theorem Worker.Moves.same {w w' : Worker A} (h : w.Moves p w') :
    w'.batch = w.batch ∧ w'.upstream = w.upstream := by
  cases h <;> exact ⟨rfl, rfl⟩

/-- A move that starts no goroutine and finishes no batch. -/
theorem Staged.stays {st st' : State A} (hs : Staged p st)
    (hworkers : st'.workers.map (fun w => (w.batch, w.upstream)) =
      st.workers.map fun w => (w.batch, w.upstream))
    (hleft : ∀ batch, st'.unlaunched p batch = st.unlaunched p batch)
    (hfresh : ∀ batch rest, st'.main = .launching batch rest → st'.begun batch = false)
    (hidle : st'.fallbackStarted = false → st.fallbackStarted = false) : Staged p st' where
  split batch := by
    rw [← hs.split batch, hleft, State.launched, hworkers]
    rfl
  fresh := hfresh
  idle h := hs.idle (hidle h)

theorem staged_move {st st' : State A} {e : Event} (hs : Staged p st) (h : Move p st e st') :
    Staged p st' := by
  cases h with
  | quiet e st' _ hmain hworkers hresponses htcp hfallback =>
    have hbegun : ∀ batch, st'.begun batch = st.begun batch := by
      intro batch
      cases batch <;> simp [State.begun, hmain, htcp, hfallback]
    refine hs.stays (by rw [hworkers]) (fun batch => ?_) (fun batch rest h => ?_) ?_
    · rw [State.unlaunched, State.unlaunched, hbegun, hmain]
    · rw [hbegun]; exact hs.fresh batch rest (hmain ▸ h)
    · rw [hfallback]; exact id
  | launch batch upstream rest hmain =>
    have hfresh := hs.fresh batch _ hmain
    have hbegun : ∀ b, State.begun
        { st with main := .launching batch rest, workers := st.workers ++ [.fresh batch upstream] } b =
        st.begun b := by
      intro b
      cases b <;> cases batch <;> simp [State.begun, Main.pastUDP, hmain]
    refine ⟨fun b => ?_, fun b rest' h => ?_, hs.idle⟩
    · rw [← hs.split b]
      simp only [State.unlaunched, hbegun, hmain, State.launched, List.map_append,
        List.filter_append]
      by_cases hb : batch = b
      · subst hb
        simp [hfresh, Worker.fresh, Main.left]
      · simp [hb, Worker.fresh, Main.left]
    · obtain ⟨rfl, rfl⟩ : batch = b ∧ rest = rest' := by simpa using h
      rw [hbegun]
      exact hfresh
  | launchedUDP hmain =>
    refine hs.stays rfl (fun batch => ?_) (fun batch rest h => (nomatch h)) id
    cases batch <;> simp [State.unlaunched, State.begun, Main.pastUDP, Main.left, hmain]
  | launchedTCP hmain =>
    have hfresh : st.tcpStarted = false := hs.fresh _ _ hmain
    refine hs.stays rfl (fun batch => ?_) (fun batch rest h => (nomatch h)) id
    cases batch <;> simp [State.unlaunched, State.begun, Main.pastUDP, Main.left, hmain, hfresh]
  | launchedFallback hmain =>
    have hfresh : st.fallbackStarted = false := hs.fresh _ _ hmain
    refine hs.stays rfl (fun batch => ?_) (fun batch rest h => (nomatch h)) (fun h => (nomatch h))
    cases batch <;> simp [State.unlaunched, State.begun, Main.pastUDP, Main.left, hmain, hfresh]
  | arm main t₁ t₂ t₃ hmain hnext =>
    refine hs.stays rfl (fun batch => ?_) (fun batch rest h => ?_) id
    · rcases hmain with h | h | h <;> rcases hnext with rfl | rfl | rfl <;>
        cases batch <;> simp [State.unlaunched, State.begun, Main.pastUDP, Main.left, h]
    · rcases hnext with rfl | rfl | rfl <;> nomatch h
  | receive response responses hmain _ =>
    refine hs.stays rfl (fun batch => ?_) (fun batch rest h => (nomatch h)) id
    cases batch <;> simp [State.unlaunched, State.begun, Main.pastUDP, Main.left, hmain]
  | tickTCP t hmain =>
    refine hs.stays rfl (fun batch => ?_) (fun batch rest h => ?_) id
    · cases batch <;> cases htcp : st.tcpStarted <;>
        simp [State.unlaunched, State.begun, Main.pastUDP, Main.left, hmain, htcp, Batch.upstreams]
    · cases htcp : st.tcpStarted
      · obtain ⟨rfl, -⟩ : Batch.primaryTCP = batch ∧ _ := by simpa [htcp] using h
        rfl
      · simp [htcp] at h
  | tickFallback t hmain =>
    refine hs.stays rfl (fun batch => ?_) (fun batch rest h => ?_) id
    · cases batch <;> cases hfb : st.fallbackStarted <;>
        simp [State.unlaunched, State.begun, Main.pastUDP, Main.left, hmain, hfb, Batch.upstreams]
    · cases hfb : st.fallbackStarted
      · obtain ⟨rfl, -⟩ : Batch.fallbackUDP = batch ∧ _ := by simpa [hfb] using h
        rfl
      · simp [hfb] at h
  | timeout t hmain =>
    refine hs.stays rfl (fun batch => ?_) (fun batch rest h => (nomatch h)) id
    cases batch <;> simp [State.unlaunched, State.begun, Main.pastUDP, Main.left, hmain]
  | worker e i w w' _ hget hmoves =>
    have hsame := hmoves.same
    exact hs.stays (launched_set hget hsame.1 hsame.2) (fun _ => rfl) hs.fresh id
  | push i w response responses hget _ _ =>
    exact hs.stays (launched_set hget rfl rfl) (fun _ => rfl) hs.fresh id

theorem staged_of_reaches {st : State A} (h : Reaches (step p) Always (start p) st) : Staged p st :=
  h.invariant (staged_start p) fun _ _ _ hs _ hstep => staged_move hs (move_of_step hstep)

/-- **`FallbackYields`** — the `select` does not take the fallback timer before the TCP queries
were started, unless there is nothing for it to start. -/
def FallbackYields (st : State A) (e : Event) : Prop :=
  e = .select .fallback → st.tcpStarted = true ∨ st.fallbackStarted = true

instance (st : State A) (e : Event) : Decidable (FallbackYields st e) :=
  inferInstanceAs (Decidable (_ → _ ∨ _))

/-- A fallback goroutine, or the loop that starts them, is only there after the TCP queries. -/
def FallbackLast (st : State A) : Prop :=
  (st.launched .fallbackUDP ≠ [] ∨ ∃ rest, st.main = .launching .fallbackUDP rest) →
    st.tcpStarted = true

theorem fallbackLast_start (p : Call A) : FallbackLast (start p) := by
  rintro (h | ⟨rest, h⟩)
  · exact absurd rfl h
  · simp only [start] at h
    split at h <;> nomatch h

/-- A move that starts no goroutine and no fallback batch. -/
theorem FallbackLast.stays {st st' : State A} (hs : FallbackLast st)
    (hworkers : st'.workers.map (fun w => (w.batch, w.upstream)) =
      st.workers.map fun w => (w.batch, w.upstream))
    (hmain : ∀ rest, st'.main = .launching .fallbackUDP rest →
      ∃ rest, st.main = .launching .fallbackUDP rest)
    (htcp : st.tcpStarted = true → st'.tcpStarted = true) : FallbackLast st' := by
  rintro (h | ⟨rest, h⟩)
  · refine htcp (hs (.inl ?_))
    rwa [State.launched, ← hworkers]
  · exact htcp (hs (.inr (hmain rest h)))

theorem fallbackLast_move {st st' : State A} {e : Event} (hs : FallbackLast st)
    (hyields : FallbackYields st e) (h : Move p st e st') : FallbackLast st' := by
  cases h with
  | quiet e st' _ hmain hworkers _ htcp _ =>
    refine hs.stays (by rw [hworkers]) (fun rest h => ⟨rest, hmain ▸ h⟩) fun h => ?_
    rw [htcp]
    exact h
  | launch batch upstream rest hmain =>
    by_cases hb : batch = .fallbackUDP
    · subst hb
      intro _
      exact hs (.inr ⟨_, hmain⟩)
    · rintro (h | ⟨rest', h⟩)
      · refine hs (.inl ?_)
        simpa [State.launched, Worker.fresh, hb] using h
      · exact absurd (Main.launching.inj h).1 hb
  | launchedUDP hmain => exact hs.stays rfl (fun rest h => (nomatch h)) id
  | launchedTCP hmain => exact hs.stays rfl (fun rest h => (nomatch h)) fun _ => rfl
  | launchedFallback hmain => exact hs.stays rfl (fun rest h => (nomatch h)) id
  | arm main t₁ t₂ t₃ hmain hnext =>
    refine hs.stays rfl (fun rest h => ?_) id
    rcases hnext with rfl | rfl | rfl <;> nomatch h
  | receive response responses hmain _ => exact hs.stays rfl (fun rest h => (nomatch h)) id
  | tickTCP t hmain =>
    refine hs.stays rfl (fun rest h => ?_) id
    dsimp only at h
    split at h <;> nomatch h
  | tickFallback t hmain =>
    rcases hyields rfl with htcp | hfb
    · exact fun _ => htcp
    · exact hs.stays rfl (fun rest h => by simp [hfb] at h) id
  | timeout t hmain => exact hs.stays rfl (fun rest h => (nomatch h)) id
  | worker e i w w' _ hget hmoves =>
    have hsame := hmoves.same
    exact hs.stays (launched_set hget hsame.1 hsame.2) (fun rest h => ⟨rest, h⟩) id
  | push i w response responses hget _ _ =>
    exact hs.stays (launched_set hget rfl rfl) (fun rest h => ⟨rest, h⟩) id

/-- A worker's batch was launched. -/
theorem launched_ne_nil {st : State A} {w : Worker A} (h : w ∈ st.workers) :
    st.launched w.batch ≠ [] := by
  have hmem : w.upstream ∈ st.launched w.batch := by
    rw [State.launched, List.mem_map]
    refine ⟨(w.batch, w.upstream), ?_, rfl⟩
    rw [List.mem_filter]
    exact ⟨List.mem_map_of_mem h, by simp⟩
  exact List.ne_nil_of_mem hmem

/-- Along schedules in which the fallback case yields, no fallback query is out before every domestic
resolver has its TCP goroutine. -/
theorem tcp_before_fallback {st : State A}
    (h : Reaches (step p) FallbackYields (start p) st) (hq : st.fallbackQueried) :
    st.launched .primaryTCP = p.primary := by
  have hlast : Staged p st ∧ FallbackLast st := by
    clear hq
    induction h with
    | init => exact ⟨staged_start p, fallbackLast_start p⟩
    | step _ hyields hstep ih =>
      have hmove := move_of_step hstep
      exact ⟨staged_move ih.1 hmove, fallbackLast_move ih.2 hyields hmove⟩
  obtain ⟨w, hw, hbatch, -⟩ := hq
  have htcp : st.tcpStarted = true := hlast.2 (.inl (hbatch ▸ launched_ne_nil hw))
  have hsplit := hlast.1.split .primaryTCP
  rwa [State.unlaunched, State.begun, htcp, cond_true, List.append_nil] at hsplit

/-- The main goroutine starts one goroutine, which writes its query before anything else moves. -/
theorem run_launch_ask {st : State A} {batch : Batch} {upstream : A} {rest : List A}
    (hmain : st.main = .launching batch (upstream :: rest))
    (hcarries : batch.network.carries p.query = true) :
    run (step p) st [.main, .ask st.workers.length] =
      some { st with
        main := .launching batch rest
        workers := st.workers ++ [⟨batch, upstream, .asked, true⟩] } := by
  simp [run, step, stepMain, hmain, stepWorker, Worker.step, Worker.fresh, hcarries]

/-- Once the fallback case was taken too early, the first fallback goroutine may be the next to
write. -/
theorem fallback_overtakes {st st' : State A} (hprimary : p.primary ≠ [])
    (h : Reaches (step p) Always (start p) st) (hstep : step p st (.select .fallback) = some st')
    (hearly : ¬ FallbackYields st (.select .fallback)) :
    ∃ es t, run (step p) st' es = some t ∧ t.fallbackQueried ∧
      t.launched .primaryTCP ≠ p.primary := by
  have hs := staged_of_reaches h
  obtain ⟨-, hnot⟩ := Classical.not_imp.mp hearly
  obtain ⟨htcp, hfb⟩ : st.tcpStarted = false ∧ st.fallbackStarted = false := by simpa using hnot
  obtain ⟨upstream, rest, hfallback⟩ := List.exists_cons_of_ne_nil (hs.idle hfb)
  have hnone : st.launched .primaryTCP = [] := by
    have hsplit := hs.split .primaryTCP
    cases move_of_step hstep with
    | quiet _ _ hwho => exact absurd rfl (hwho _)
    | worker _ _ _ _ hwho => exact absurd rfl (hwho _)
    | tickFallback t hmain =>
      simpa [State.unlaunched, State.begun, Main.left, htcp, hmain, Batch.upstreams] using hsplit
  obtain ⟨hmain', hworkers⟩ : st'.main = .launching .fallbackUDP (upstream :: rest) ∧
      st'.workers = st.workers := by
    cases move_of_step hstep with
    | quiet _ _ hwho => exact absurd rfl (hwho _)
    | worker _ _ _ _ hwho => exact absurd rfl (hwho _)
    | tickFallback t hmain => exact ⟨by simp [hfb, hfallback], rfl⟩
  refine ⟨_, _, run_launch_ask hmain' rfl, ⟨_, List.mem_append_right _ (List.mem_singleton.mpr rfl),
    rfl, rfl⟩, ?_⟩
  intro heq
  refine hprimary (heq.symm.trans ?_)
  rw [State.launched, List.map_eq_nil_iff] at hnone ⊢
  simpa [hworkers] using hnone

/-- **Domestic TCP before the foreign fallback.**  In every schedule in which the fallback case
yields, no query is sent to a fallback upstream before the TCP queries to all primaries were started;
and any schedule in which it does not yield can go on to send one. -/
theorem fallback_after_tcp (p : Call A) (hprimary : p.primary ≠ []) :
    (∀ st, Reaches (step p) FallbackYields (start p) st → st.fallbackQueried →
      st.launched .primaryTCP = p.primary) ∧
    (∀ st st', Reaches (step p) Always (start p) st → step p st (.select .fallback) = some st' →
      ¬ FallbackYields st (.select .fallback) →
      ∃ es t, run (step p) st' es = some t ∧ t.fallbackQueried ∧
        t.launched .primaryTCP ≠ p.primary) :=
  ⟨fun _ h hq => tcp_before_fallback h hq,
    fun _ _ h hstep hearly => fallback_overtakes hprimary h hstep hearly⟩

end Stages

/-- Both timers are due at 150 ms; the `select` happens to take the fallback timer first. -/
def fallbackFirst : List Event :=
  toSelect ++ [.pass 150000000, .fire .tcp, .fire .fallback, .select .fallback, .main, .ask 1]

theorem fallback_before_tcp :
    oneEach.primary ≠ [] ∧
    ∃ st, Reaches (step oneEach) Always (start oneEach) st ∧ st.fallbackQueried ∧
      st.launched .primaryTCP = [] :=
  ⟨by decide, _, Reaches.of_run .init (show run _ _ fallbackFirst = some _ from rfl),
    ⟨⟨.fallbackUDP, "1.1.1.1:53", .asked, true⟩, by decide, rfl, rfl⟩, by decide⟩

/-- The TCP timer is taken first, then the fallback timer. -/
def tcpFirst : List Event :=
  toSelect ++ [.pass 150000000, .fire .tcp, .fire .fallback, .select .tcp, .main, .main,
    .select .fallback, .main, .ask 2]

theorem fallback_after_tcp_oneEach :
    ∃ st, Reaches (step oneEach) FallbackYields (start oneEach) st ∧ st.fallbackQueried ∧
      st.launched .primaryTCP = oneEach.primary := by
  obtain ⟨st, hrun, hq⟩ : ∃ st, runIf (step oneEach) (fun s e => decide (FallbackYields s e))
      (start oneEach) tcpFirst = some st ∧ st.fallbackQueried :=
    ⟨_, rfl, ⟨.fallbackUDP, "1.1.1.1:53", .asked, true⟩, by decide, rfl, rfl⟩
  have h : Reaches (step oneEach) FallbackYields (start oneEach) st :=
    (Reaches.of_runIf .init hrun).mono fun _ _ => of_decide_eq_true
  exact ⟨st, h, hq, (fallback_after_tcp oneEach (by decide)).1 st h hq⟩

end ProxyGateway.Race
