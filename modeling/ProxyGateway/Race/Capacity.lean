/-
# ProxyGateway.Race.Capacity — no goroutine of `raceQuery` waits on its send

The goroutines of a race outlive it: `raceQuery` returns with the first answer, and whoever answers
later sends on a channel that nobody reads any more.  Such a send must find room, or the goroutine
is never freed.

Two counts meet here.  A goroutine sends at most once, so what was sent and what may still be sent
are together no more than the goroutines (`Counted`).  And every batch is started at most once, so
the goroutines are no more than the capacity (`workers_length_le`, from `Staged`).  Neither count
looks at the main goroutine, so they hold as well after `raceQuery` has returned.
-/
import ProxyGateway.Race.Query

namespace ProxyGateway.Race

open ProxyGateway.Lang
open ProxyGateway.Logic
open ProxyGateway.Quic (Bytes)

variable {A : Type} {p : Call A}

/-! ## Every goroutine sends at most once -/

/-- The goroutine is still on its way to its send. -/
def Worker.mayPush (w : Worker A) : Bool := decide (w.phase ≠ .finished)

/-- **`Counted`** — the channel has the capacity it was made with, and everything that was sent or
may still be sent comes from a goroutine of its own. -/
structure Counted (p : Call A) (st : State A) : Prop where
  cap : st.responses.cap = p.primary.length * 2 + p.fallback.length
  sends : st.responses.sent.length + st.workers.countP Worker.mayPush ≤ st.workers.length

theorem counted_start (p : Call A) : Counted p (start p) where
  cap := rfl
  sends := Nat.le_refl 0

/-- A goroutine that is replaced by one that may push no more than it adds nothing to the count. -/
theorem countP_set_le {ws : List (Worker A)} {i : Nat} {w w' : Worker A} (hget : ws[i]? = some w)
    (hw : w.mayPush = true) : (ws.set i w').countP Worker.mayPush ≤ ws.countP Worker.mayPush := by
  obtain ⟨hi, hwi⟩ := List.getElem?_eq_some_iff.mp hget
  have hpos : 0 < ws.countP Worker.mayPush :=
    List.countP_pos_iff.mpr ⟨w, List.mem_of_getElem? hget, hw⟩
  rw [List.countP_set hi, hwi, if_pos hw]
  split <;> omega

/-- A goroutine that has sent leaves the count. -/
theorem countP_set_finished {ws : List (Worker A)} {i : Nat} {w : Worker A}
    (hget : ws[i]? = some w) (hw : w.mayPush = true) :
    (ws.set i { w with phase := .finished }).countP Worker.mayPush + 1 =
      ws.countP Worker.mayPush := by
  obtain ⟨hi, hwi⟩ := List.getElem?_eq_some_iff.mp hget
  have hpos : 0 < ws.countP Worker.mayPush :=
    List.countP_pos_iff.mpr ⟨w, List.mem_of_getElem? hget, hw⟩
  have hdone : ({ w with phase := .finished } : Worker A).mayPush = false := rfl
  rw [List.countP_set hi, hwi, if_pos hw, hdone, if_neg Bool.false_ne_true]
  omega

/-- A goroutine that moves on its own was still on its way. -/
theorem Worker.Moves.mayPush {w w' : Worker A} (h : w.Moves p w') : w.mayPush = true := by
  cases h with
  | asks hphase => simp [Worker.mayPush, hphase]
  | holds _ hphase _ _ => simp [Worker.mayPush, hphase]
  | gives_up hphase => rcases hphase with h | h <;> simp [Worker.mayPush, h]

theorem counted_move {st st' : State A} {e : Event} (hs : Counted p st) (h : Move p st e st') :
    Counted p st' := by
  have hsends := hs.sends
  cases h with
  | quiet e st' _ _ hworkers hresponses _ _ =>
    constructor
    · rw [hresponses]
      exact hs.cap
    · rw [hresponses, hworkers]
      exact hsends
  | launch batch upstream rest _ =>
    refine ⟨hs.cap, ?_⟩
    show st.responses.sent.length +
      (st.workers ++ [Worker.fresh batch upstream]).countP Worker.mayPush ≤
        (st.workers ++ [Worker.fresh batch upstream]).length
    have hfresh : [Worker.fresh batch upstream].countP Worker.mayPush = 1 := rfl
    rw [List.countP_append, hfresh, List.length_append, List.length_singleton]
    omega
  | launchedUDP | launchedTCP | launchedFallback | arm | tickTCP | tickFallback | timeout =>
    exact ⟨hs.cap, hsends⟩
  | receive response responses _ hrecv =>
    obtain ⟨-, hsent, -, hcap⟩ := Chan.recv_eq_some hrecv
    refine ⟨hcap.trans hs.cap, ?_⟩
    show responses.sent.length + _ ≤ _
    rw [hsent]
    exact hsends
  | worker e i w w' _ hget hmoves =>
    refine ⟨hs.cap, ?_⟩
    have hle : (st.workers.set i w').countP Worker.mayPush ≤ st.workers.countP Worker.mayPush :=
      countP_set_le hget hmoves.mayPush
    show st.responses.sent.length + (st.workers.set i w').countP Worker.mayPush ≤
      (st.workers.set i w').length
    rw [List.length_set]
    omega
  | push i w response responses hget hphase hsend =>
    obtain ⟨hsent, -, hcap⟩ := Chan.send_eq_some hsend
    refine ⟨hcap.trans hs.cap, ?_⟩
    have hmay : w.mayPush = true := by simp [Worker.mayPush, hphase]
    have hleft := countP_set_finished hget hmay
    show responses.sent.length +
      (st.workers.set i { w with phase := .finished }).countP Worker.mayPush ≤
        (st.workers.set i { w with phase := .finished }).length
    rw [hsent, List.length_append, List.length_singleton, List.length_set]
    omega

theorem counted_of_reaches {st : State A} (h : Reaches (step p) Always (start p) st) :
    Counted p st :=
  h.invariant (counted_start p) fun _ _ _ hs _ hstep => counted_move hs (move_of_step hstep)

/-! ## Every batch is started at most once -/

/-- The goroutines are those of the three batches. -/
theorem workers_length (st : State A) :
    st.workers.length = (st.launched .primaryUDP).length + (st.launched .primaryTCP).length +
      (st.launched .fallbackUDP).length := by
  simp only [State.launched, List.length_map]
  induction st.workers with
  | nil => rfl
  | cons w ws ih =>
    cases hb : w.batch <;> simp [hb, ih] <;> omega

/-- No batch is started beyond the end of its list. -/
theorem launched_isPrefix {st : State A} (h : Reaches (step p) Always (start p) st) (batch : Batch) :
    st.launched batch <+: batch.upstreams p :=
  ⟨_, (staged_of_reaches h).split batch⟩

theorem workers_length_le {st : State A} (h : Reaches (step p) Always (start p) st) :
    st.workers.length ≤ p.primary.length * 2 + p.fallback.length := by
  have hudp : (st.launched .primaryUDP).length ≤ p.primary.length :=
    (launched_isPrefix h .primaryUDP).length_le
  have htcp : (st.launched .primaryTCP).length ≤ p.primary.length :=
    (launched_isPrefix h .primaryTCP).length_le
  have hfallback : (st.launched .fallbackUDP).length ≤ p.fallback.length :=
    (launched_isPrefix h .fallbackUDP).length_le
  rw [workers_length]
  omega

/-- The batch that the main goroutine is starting. -/
def Main.inBatch : Main A → Option Batch
  | .launching batch _ => some batch
  | _ => none

/-- A step from `st` to `st'` enters `startQueries` for the batch, counted as 0 or 1. -/
def entered (batch : Batch) (st st' : State A) : Nat :=
  if st.main.inBatch ≠ some batch ∧ st'.main.inBatch = some batch then 1 else 0

/-- How often a run enters `startQueries` for a batch. -/
def entries (p : Call A) (batch : Batch) : State A → List Event → Nat
  | _, [] => 0
  | st, e :: es =>
    match step p st e with
    | none => 0
    | some st' => entered batch st st' + entries p batch st' es

/-- How often `raceQuery` calls `startQueries` for a batch: it is born inside the first call. -/
def startCalls (p : Call A) (batch : Batch) (es : List Event) : Nat :=
  (if (start p).main.inBatch = some batch then 1 else 0) + entries p batch (start p) es

/-- The calls that the flags still allow. -/
def State.callsLeft (st : State A) : Batch → Nat
  | .primaryUDP => 0
  | .primaryTCP => if st.tcpStarted = true ∨ st.main.inBatch = some .primaryTCP then 0 else 1
  | .fallbackUDP => if st.fallbackStarted = true ∨ st.main.inBatch = some .fallbackUDP then 0 else 1

/-- A step that leaves the flags and starts no batch. -/
theorem callsLeft_stays {st st' : State A} (batch : Batch)
    (htcp : st'.tcpStarted = st.tcpStarted) (hfallback : st'.fallbackStarted = st.fallbackStarted)
    (hmain : st'.main.inBatch = st.main.inBatch) :
    entered batch st st' + st'.callsLeft batch ≤ st.callsLeft batch := by
  have hnot : entered batch st st' = 0 := by
    rw [entered, hmain]
    exact if_neg fun h => h.1 h.2
  rw [hnot, Nat.zero_add]
  cases batch <;> simp [State.callsLeft, htcp, hfallback, hmain]

/-- **A call is paid for**: what a step enters, the flags no longer allow. -/
theorem callsLeft_move {st st' : State A} {e : Event} (batch : Batch) (h : Move p st e st') :
    entered batch st st' + st'.callsLeft batch ≤ st.callsLeft batch := by
  cases h with
  | quiet e st' _ hmain _ _ htcp hfallback =>
    exact callsLeft_stays batch htcp hfallback (by rw [hmain])
  | launch b upstream rest hmain => exact callsLeft_stays batch rfl rfl (by rw [hmain]; rfl)
  | launchedUDP hmain | launchedTCP hmain | launchedFallback hmain =>
    cases batch <;> simp [entered, State.callsLeft, Main.inBatch, hmain]
  | arm main t₁ t₂ t₃ hmain hnext =>
    refine callsLeft_stays batch rfl rfl ?_
    rcases hmain with h | h | h <;> rcases hnext with rfl | rfl | rfl <;> rw [h] <;> rfl
  | receive response responses hmain _ => exact callsLeft_stays batch rfl rfl (by rw [hmain]; rfl)
  | timeout t hmain => exact callsLeft_stays batch rfl rfl (by rw [hmain]; rfl)
  | tickTCP t hmain =>
    cases htcp : st.tcpStarted <;> cases batch <;>
      simp [entered, State.callsLeft, Main.inBatch, hmain, htcp]
  | tickFallback t hmain =>
    cases hfb : st.fallbackStarted <;> cases batch <;>
      simp [entered, State.callsLeft, Main.inBatch, hmain, hfb]
  | worker | push => exact callsLeft_stays batch rfl rfl rfl

theorem entries_le (p : Call A) (batch : Batch) (st : State A) (es : List Event) :
    entries p batch st es ≤ st.callsLeft batch := by
  induction es generalizing st with
  | nil => exact Nat.zero_le _
  | cons e es ih =>
    rw [entries]
    split
    · exact Nat.zero_le _
    · next st' hstep =>
      have hpaid := callsLeft_move batch (move_of_step hstep)
      have hrest := ih st'
      omega

theorem startCalls_le (p : Call A) (batch : Batch) (es : List Event) :
    startCalls p batch es ≤ 1 := by
  have hle := entries_le p batch (start p) es
  have hborn : (if (start p).main.inBatch = some batch then 1 else 0) +
      (start p).callsLeft batch ≤ 1 := by
    by_cases hq : p.query.length < 2 <;> cases batch <;>
      simp [start, hq, Main.inBatch, State.callsLeft] <;> split <;> omega
  rw [startCalls]
  omega

/-! ## No send waits -/

/-- A goroutine that holds an answer finds room for it. -/
theorem push_isSome {st : State A} {i : Nat} {w : Worker A} {response : Bytes}
    (h : Reaches (step p) Always (start p) st) (hget : st.workers[i]? = some w)
    (hphase : w.phase = .holding response) : (step p st (.push i)).isSome = true := by
  have hcounted := counted_of_reaches h
  have hworkers := workers_length_le h
  have hpos : 0 < st.workers.countP Worker.mayPush :=
    List.countP_pos_iff.mpr ⟨w, List.mem_of_getElem? hget, by simp [Worker.mayPush, hphase]⟩
  have hroom : st.responses.sent.length < st.responses.taken + st.responses.cap := by
    have hsends := hcounted.sends
    rw [hcounted.cap]
    omega
  obtain ⟨batch, upstream, phase, queried⟩ := w
  obtain rfl : phase = .holding response := hphase
  show (stepPush st i).isSome = true
  rw [stepPush, hget]
  simp only [Chan.send, dif_pos hroom, Option.map_some, Option.isSome_some]

/-- **No upstream goroutine of `raceQuery` ever waits on its send.**  Whatever the schedule, and
whether or not `raceQuery` has returned: what was sent is at most the capacity of the channel, a
goroutine that holds an answer can send it, and no batch is started a second time. -/
theorem raceQuery_never_blocks (p : Call A) (es : List Event) (st : State A)
    (hrun : run (step p) (start p) es = some st) :
    st.responses.cap = 2 * p.primary.length + p.fallback.length ∧
      st.responses.sent.length ≤ 2 * p.primary.length + p.fallback.length ∧
      (∀ i w response, st.workers[i]? = some w → w.phase = .holding response →
        (step p st (.push i)).isSome = true) ∧
      ∀ batch, startCalls p batch es ≤ 1 ∧ st.launched batch <+: batch.upstreams p := by
  have h : Reaches (step p) Always (start p) st := .of_run .init hrun
  have hcounted := counted_of_reaches h
  have hsends := hcounted.sends
  have hworkers := workers_length_le h
  refine ⟨?_, ?_, ?_, ?_⟩
  · rw [hcounted.cap, Nat.mul_comm]
  · omega
  · intro i w response hget hphase
    exact push_isSome h hget hphase
  · intro batch
    exact ⟨startCalls_le p batch es, launched_isPrefix h batch⟩

/-- The domestic resolver answers after the call has timed out. -/
def answerAfterTimeout : List Event :=
  toSelect ++ [.ask 0, .pass 2000000000, .fire .timeout, .select .timeout,
    .answer 0 ⟨[oneEachAnswer], .eof⟩]

theorem raceQuery_never_blocks_late :
    ∃ st, run (step oneEach) (start oneEach) answerAfterTimeout = some st ∧
      st.main = .returned (.error .timedOut) ∧ (step oneEach st (.push 0)).isSome = true := by
  obtain ⟨st, hrun, hmain, hget⟩ : ∃ st,
      run (step oneEach) (start oneEach) answerAfterTimeout = some st ∧
        st.main = .returned (.error .timedOut) ∧
        st.workers[0]? = some ⟨.primaryUDP, "119.29.29.29:53", .holding oneEachAnswer, true⟩ :=
    ⟨_, rfl, rfl, rfl⟩
  obtain ⟨-, -, hpush, -⟩ := raceQuery_never_blocks oneEach answerAfterTimeout st hrun
  exact ⟨st, hrun, hmain, hpush 0 _ oneEachAnswer hget rfl⟩

end ProxyGateway.Race
