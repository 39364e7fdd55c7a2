/-
# ProxyGateway.Bot.Polling — the main loop and the updates of the server

The server keeps an update until a `getUpdates` asks for a higher offset.  `main` asks for the updates
from `offset` on and passes each to its handler; `offset` is set past an update before the handler is
called, so an exception in the handler does not bring the update back.

A request may fail before the server has seen it or after; `tg` then asks once more for the same offset,
and so does the next turn of the loop.  Between any two steps new updates may arrive.  In every run the
updates that were returned to `main` have increasing numbers, and each that carries a message or a
callback query has been passed to its handler once and in order, but for those of the batch that is not
finished (`handled_exactly_once`).  If new updates have larger numbers and the server returns the first
that it keeps, it drops none before its handler has been called (`no_update_lost`).
-/
import ProxyGateway.Bot.Telegram
import ProxyGateway.Logic.KeyedErase
import ProxyGateway.Logic.Machine
import Mathlib.Data.Int.Order.Basic
import Mathlib.Data.List.Nodup
import Mathlib.Data.List.Pairwise

namespace ProxyGateway.Bot

open ProxyGateway.Lang ProxyGateway.Logic

/-! ## Updates and responses -/

section Model

variable {J : Type}

/-- An update: its number, and its keys `message` and `callback_query`. -/
structure TgUpdate (J : Type) where
  id : Int
  message : Option J
  callbackQuery : Option J
  deriving DecidableEq, Repr

/-- A call of `handle_message` or `handle_callback`. -/
inductive HandlerCall (J : Type) where
  | message (m : J)
  | callback (c : J)
  deriving DecidableEq, Repr

/-- What `main` does with an update. -/
def TgUpdate.handlerCall (u : TgUpdate J) : Option (HandlerCall J) :=
  match u.message with
  | some m => some (.message m)
  | none => u.callbackQuery.map .callback

/-- The keys `ok` and `result` of a response. -/
structure UpdatesReply (J : Type) where
  ok : Bool
  result : Option (List (TgUpdate J))

/-- What becomes of an attempt to get updates: an exception up to the end of the read, a response that
is not JSON, one that is not `ok`, or updates.  `processed` says that the server has seen the request. -/
inductive PollFate (J : Type) where
  | raises (stage : TgStage) (e : Text) (processed : Bool)
  | garbled (time : ℚ) (e : Text) (processed : Bool)
  | refused (time : ℚ) (processed : Bool)
  | updates (time : ℚ) (us : List (TgUpdate J))

def PollFate.outcome : PollFate J → Outcome (UpdatesReply J)
  | .raises stage e _ => .raises stage e
  | .garbled time e _ => .answers time (.error e)
  | .refused time _ => .answers time (.ok ⟨false, none⟩)
  | .updates time us => .answers time (.ok ⟨true, some us⟩)

def PollFate.processed : PollFate J → Bool
  | .raises _ _ processed | .garbled _ _ processed | .refused _ processed => processed
  | .updates .. => true

/-! ## The loop and the server -/

/-- Where `main` is: in an attempt of `tg("getUpdates", …)`, or in the batch, of which `rest` is left. -/
inductive PollPhase (J : Type) where
  | polling (second : Bool)
  | handling (rest : List (TgUpdate J))

structure PollState (J : Type) where
  conn : TgLocal
  offset : Option Int
  phase : PollPhase J
  /-- what the server keeps -/
  queue : List (TgUpdate J)
  /-- what `tg` has returned to `main` so far -/
  returned : List (TgUpdate J)
  /-- the calls of handlers so far, with the number of the update -/
  passed : List (Int × HandlerCall J)

def PollState.start (conn : TgLocal) (queue : List (TgUpdate J)) : PollState J :=
  ⟨conn, none, .polling false, queue, [], []⟩

inductive PollEvent (J : Type) where
  /-- a new update on the server -/
  | arrive (u : TgUpdate J)
  | attempt (now : ℚ) (fate : PollFate J)
  /-- the next update of the batch; the handler raises or not, and calls `tg` on its way -/
  | handle (raised : Bool) (calls : List (TgCall Unit))
  /-- the batch is done -/
  | turn

/-- What the server keeps of its updates when it is asked. -/
def PollState.asked (s : PollState J) : List (TgUpdate J) :=
  match s.offset with
  | none => s.queue
  | some offset => s.queue.filter fun u => offset ≤ u.id

/-- Updates are returned from those that are kept, in increasing order. -/
def PollFate.Possible (s : PollState J) : PollFate J → Prop
  | .updates _ us => (∀ u ∈ us, u ∈ s.asked) ∧ us.Pairwise fun u v => u.id < v.id
  | _ => True

instance [DecidableEq J] (s : PollState J) (fate : PollFate J) : Decidable (fate.Possible s) := by
  unfold PollFate.Possible
  split <;> infer_instance

/-- One attempt of `tg`, and what `main` does with what `tg` returns. -/
def PollState.attempted (s : PollState J) (second : Bool) (now : ℚ) (fate : PollFate J) : PollState J :=
  let done := tgAttempt (lit "getUpdates") ⟨now, fate.outcome⟩ s.conn
  let s' : PollState J :=
    { s with
      conn := done.1
      queue := if fate.processed = true ∧ done.1.sent ≠ s.conn.sent then s.asked else s.queue }
  match done.2 with
  | .ok resp =>
    -- an object without `result` has an empty batch
    if resp.ok then
      { s' with
        phase := .handling (resp.result.getD []), returned := s.returned ++ resp.result.getD [] }
    else { s' with phase := .polling false }
  -- the second failure comes to `main` as a response that is not ok
  | .error _ => { s' with phase := .polling (!second) }

/-- **`main`**, after `set_commands()`, and the server. -/
def pollStep [DecidableEq J] (s : PollState J) : PollEvent J → Option (PollState J)
  | .arrive u => some { s with queue := s.queue ++ [u] }
  | .attempt now fate =>
    match s.phase with
    | .polling second => if fate.Possible s then some (s.attempted second now fate) else none
    | .handling _ => none
  | .handle _ calls =>
    match s.phase with
    | .handling (u :: rest) => some
      { s with
        conn := tgCalls calls s.conn, offset := some (u.id + 1), phase := .handling rest
        passed := s.passed ++ (u.handlerCall.map (u.id, ·)).toList }
    | _ => none
  | .turn =>
    match s.phase with
    | .handling [] => some { s with phase := .polling false }
    | _ => none

end Model

/-! ## Every update once -/

section Once

variable {J : Type}

/-- What is left of the batch. -/
def PollPhase.rest : PollPhase J → List (TgUpdate J)
  | .polling _ => []
  | .handling rest => rest

/-- The calls of handlers that updates lead to. -/
def callsOf (us : List (TgUpdate J)) : List (Int × HandlerCall J) :=
  us.filterMap fun u => u.handlerCall.map (u.id, ·)

/-- **`Handled`** — `done` are the updates that `main` is through with. -/
structure Handled (s : PollState J) (done : List (TgUpdate J)) : Prop where
  returned : s.returned = done ++ s.phase.rest
  passed : s.passed = callsOf done
  order : s.returned.Pairwise fun u v => u.id < v.id
  offset : ∀ u ∈ done, ∃ offset, s.offset = some offset ∧ u.id < offset

/-- What an attempt can do. -/
inductive Attempted (s : PollState J) : PollFate J → PollState J → Prop
  | failed (fate : PollFate J) (conn : TgLocal) (queue : List (TgUpdate J))
      (hqueue : queue = s.queue ∨ queue = s.asked) (second : Bool) :
      Attempted s fate { s with conn, queue, phase := .polling second }
  | updates (conn : TgLocal) (queue : List (TgUpdate J)) (hqueue : queue = s.queue ∨ queue = s.asked)
      (time : ℚ) (us : List (TgUpdate J)) (hmem : ∀ u ∈ us, u ∈ s.asked)
      (horder : us.Pairwise fun u v => u.id < v.id) : Attempted s (.updates time us)
        { s with conn, queue, phase := .handling us, returned := s.returned ++ us }

variable {s s' : PollState J} {e : PollEvent J} {done : List (TgUpdate J)}

theorem attempted_of_possible {fate : PollFate J} (h : fate.Possible s) (second : Bool) (now : ℚ) :
    Attempted s fate (s.attempted second now fate) := by
  have hqueue (p : Prop) [Decidable p] : (if p then s.asked else s.queue) = s.queue ∨
      (if p then s.asked else s.queue) = s.asked := by
    split
    · exact .inr rfl
    · exact .inl rfl
  unfold PollState.attempted
  dsimp only
  split
  · next resp hresp =>
    split
    · next hok =>
      obtain ⟨time, houtcome⟩ := tgAttempt_ok hresp
      cases fate with
      | raises stage e processed | garbled time' e processed => nomatch houtcome
      | refused time' processed =>
        injection houtcome with htime hbody
        obtain rfl := Except.ok.inj hbody
        nomatch hok
      | updates time' us =>
        injection houtcome with htime hbody
        obtain rfl := Except.ok.inj hbody
        exact .updates _ _ (hqueue _) time' us h.1 h.2
    · exact .failed fate _ _ (hqueue _) _
  · exact .failed fate _ _ (hqueue _) _

/-- What a step can do. -/
inductive PollMoves (s : PollState J) : PollEvent J → PollState J → Prop
  | arrive (u : TgUpdate J) : PollMoves s (.arrive u) { s with queue := s.queue ++ [u] }
  | attempt (now : ℚ) (fate : PollFate J) (second : Bool) (hphase : s.phase = .polling second)
      (s' : PollState J) (h : Attempted s fate s') : PollMoves s (.attempt now fate) s'
  | handle (raised : Bool) (calls : List (TgCall Unit)) (u : TgUpdate J) (rest : List (TgUpdate J))
      (hphase : s.phase = .handling (u :: rest)) : PollMoves s (.handle raised calls)
        { s with
          conn := tgCalls calls s.conn, offset := some (u.id + 1), phase := .handling rest
          passed := s.passed ++ (u.handlerCall.map (u.id, ·)).toList }
  | turn (hphase : s.phase = .handling []) : PollMoves s .turn { s with phase := .polling false }

theorem pollMoves_of_step [DecidableEq J] (h : pollStep s e = some s') : PollMoves s e s' := by
  cases e with
  | arrive u =>
    obtain rfl := Option.some.inj h
    exact .arrive u
  | attempt now fate =>
    rw [pollStep] at h
    split at h
    · next second hphase =>
      split at h
      · next hpossible =>
        obtain rfl := Option.some.inj h
        exact .attempt now fate second hphase _ (attempted_of_possible hpossible second now)
      · nomatch h
    · nomatch h
  | handle raised calls =>
    rw [pollStep] at h
    split at h
    · next u rest hphase =>
      obtain rfl := Option.some.inj h
      exact .handle raised calls u rest hphase
    · nomatch h
  | turn =>
    rw [pollStep] at h
    split at h
    · next hphase =>
      obtain rfl := Option.some.inj h
      exact .turn hphase
    · nomatch h

theorem callsOf_append (us vs : List (TgUpdate J)) : callsOf (us ++ vs) = callsOf us ++ callsOf vs :=
  List.filterMap_append

theorem callsOf_singleton (u : TgUpdate J) :
    callsOf [u] = (u.handlerCall.map (u.id, ·)).toList := by
  rw [callsOf, List.filterMap_cons, List.filterMap_nil]
  cases u.handlerCall <;> rfl

/-- What is returned lies past what has been handled. -/
theorem lt_of_mem_asked (hs : Handled s done) {u v : TgUpdate J} (hu : u ∈ done) (hv : v ∈ s.asked) :
    u.id < v.id := by
  obtain ⟨offset, hoffset, hlt⟩ := hs.offset u hu
  rw [PollState.asked, hoffset] at hv
  have hle : offset ≤ v.id := of_decide_eq_true (List.mem_filter.mp hv).2
  exact hlt.trans_le hle

theorem handled_attempted {second : Bool} {fate : PollFate J} (hs : Handled s done)
    (hphase : s.phase = .polling second) (h : Attempted s fate s') : Handled s' done := by
  have hall : s.returned = done := by
    rw [hs.returned, hphase]
    exact List.append_nil done
  cases h with
  | failed _ conn queue hqueue second =>
    exact ⟨hall.trans (List.append_nil done).symm, hs.passed, hs.order, hs.offset⟩
  | updates conn queue hqueue time us hmem horder =>
    refine ⟨congrArg (· ++ us) hall, hs.passed, ?_, hs.offset⟩
    -- nothing of the batch before is left, so all that was returned is below the offset
    refine List.pairwise_append.mpr ⟨hs.order, horder, fun u hu v hv => ?_⟩
    exact lt_of_mem_asked hs (hall ▸ hu) (hmem v hv)

/-- The next update of the batch comes after those that `main` is through with, and before the others. -/
theorem between_of_batch (hs : Handled s done) {u : TgUpdate J} {rest : List (TgUpdate J)}
    (hphase : s.phase = .handling (u :: rest)) :
    (∀ v ∈ done, v.id < u.id) ∧ ∀ v ∈ rest, u.id < v.id := by
  have horder := hs.order
  rw [hs.returned, hphase] at horder
  obtain ⟨-, hbatch, hbefore⟩ := List.pairwise_append.mp horder
  exact ⟨fun v hv => hbefore v hv u (List.mem_cons_self ..), (List.pairwise_cons.mp hbatch).1⟩

theorem handled_next (hs : Handled s done) {u : TgUpdate J} {rest : List (TgUpdate J)}
    (hphase : s.phase = .handling (u :: rest)) (conn : TgLocal) :
    Handled
      { s with
        conn, offset := some (u.id + 1), phase := .handling rest
        passed := s.passed ++ (u.handlerCall.map (u.id, ·)).toList } (done ++ [u]) := by
  refine ⟨?_, ?_, hs.order, fun v hv => ⟨u.id + 1, rfl, ?_⟩⟩
  · rw [List.append_assoc]
    exact hs.returned.trans (by rw [hphase]; rfl)
  · rw [callsOf_append, callsOf_singleton, ← hs.passed]
  · rcases List.mem_append.mp hv with hv | hv
    · exact Int.lt_add_one_of_le ((between_of_batch hs hphase).1 v hv).le
    · rw [List.mem_singleton.mp hv]
      exact Int.lt_succ u.id

theorem handled_turn (hs : Handled s done) (hphase : s.phase = .handling []) :
    Handled { s with phase := .polling false } done := by
  refine ⟨?_, hs.passed, hs.order, hs.offset⟩
  exact hs.returned.trans (by rw [hphase]; rfl)

/-- **`handled_moves`** — an attempt is through with no update, and the loop with one more. -/
theorem handled_moves (hs : Handled s done) (h : PollMoves s e s') : ∃ done', Handled s' done' := by
  cases h with
  | arrive u => exact ⟨done, hs.returned, hs.passed, hs.order, hs.offset⟩
  | attempt now fate second hphase _ hattempt => exact ⟨done, handled_attempted hs hphase hattempt⟩
  | handle raised calls u rest hphase => exact ⟨done ++ [u], handled_next hs hphase _⟩
  | turn hphase => exact ⟨done, handled_turn hs hphase⟩

theorem handled_of_reaches [DecidableEq J] {conn : TgLocal} {queue : List (TgUpdate J)}
    (h : Reaches pollStep Always (.start conn queue) s) : ∃ done, Handled s done := by
  induction h with
  | init => exact ⟨[], rfl, rfl, .nil, nofun⟩
  | step _ _ hstep ih =>
    obtain ⟨done, hs⟩ := ih
    exact handled_moves hs (pollMoves_of_step hstep)

/-- The rest of the batch is handled, whichever handlers raise and whatever they send. -/
theorem run_handles [DecidableEq J] (hs : Handled s done) (handlers : List (Bool × List (TgCall Unit)))
    (hlength : handlers.length = s.phase.rest.length) :
    ∃ s', run pollStep s (handlers.map fun h => .handle h.1 h.2) = some s' ∧
      s'.returned = s.returned ∧ s'.passed = callsOf s.returned := by
  induction handlers generalizing s done with
  | nil =>
    have hrest : s.phase.rest = [] := List.eq_nil_of_length_eq_zero hlength.symm
    refine ⟨s, rfl, rfl, ?_⟩
    rw [hs.returned, hrest, List.append_nil]
    exact hs.passed
  | cons handler handlers ih =>
    cases hphase : s.phase with
    | polling second =>
      rw [hphase] at hlength
      nomatch hlength
    | handling rest =>
      cases rest with
      | nil =>
        rw [hphase] at hlength
        nomatch hlength
      | cons u rest =>
        -- the step is taken whether the handler raises or not
        obtain ⟨s', hstep, hrest, hreturned⟩ : ∃ s', pollStep s (.handle handler.1 handler.2) = some s' ∧
            s'.phase.rest = rest ∧ s'.returned = s.returned := by
          rw [pollStep, hphase]
          exact ⟨_, rfl, rfl, rfl⟩
        obtain ⟨done', hs'⟩ := handled_moves hs (pollMoves_of_step hstep)
        have hlength' : handlers.length = s'.phase.rest.length := by
          rw [hphase] at hlength
          rw [hrest]
          exact Nat.succ.inj hlength
        obtain ⟨t, hrun, ht, hpassed⟩ := ih hs' hlength'
        refine ⟨t, ?_, ht.trans hreturned, hreturned ▸ hpassed⟩
        rw [List.map_cons, run, hstep]
        exact hrun

theorem mem_callsOf {us : List (TgUpdate J)} {u : TgUpdate J} {call : HandlerCall J} (hu : u ∈ us)
    (hcall : u.handlerCall = some call) : (u.id, call) ∈ callsOf us :=
  List.mem_filterMap.mpr ⟨u, hu, by rw [hcall, Option.map_some]⟩

/-- Increasing numbers of updates make increasing numbers of calls. -/
theorem pairwise_callsOf {us : List (TgUpdate J)} (h : us.Pairwise fun u v => u.id < v.id) :
    (callsOf us).Pairwise fun a b => a.1 < b.1 := by
  refine h.filterMap _ fun u v huv a ha b hb => ?_
  obtain ⟨call, -, rfl⟩ := Option.map_eq_some_iff.mp ha
  obtain ⟨call', -, rfl⟩ := Option.map_eq_some_iff.mp hb
  exact huv

/-- A number that increases through a list occurs once. -/
theorem countP_id_of_pairwise {calls : List (Int × HandlerCall J)}
    (h : calls.Pairwise fun a b => a.1 < b.1) {call : Int × HandlerCall J} (hmem : call ∈ calls) :
    calls.countP (fun entry => entry.1 = call.1) = 1 := by
  have hnodup : (calls.map Prod.fst).Nodup := List.pairwise_map.mpr (h.imp ne_of_lt)
  have hcount := List.count_eq_one_of_mem hnodup (List.mem_map_of_mem hmem)
  rwa [count_map_key] at hcount

/-- **`handled_exactly_once`** — in every run: the updates returned to `main` have increasing numbers;
the calls of handlers so far and those of the rest of the batch are those of the updates returned, in
order; each update that `main` is through with has had its call once; and the batch is finished
whichever handlers raise. -/
theorem handled_exactly_once [DecidableEq J] {conn : TgLocal} {queue : List (TgUpdate J)}
    (h : Reaches pollStep Always (.start conn queue) s) :
    (s.returned.Pairwise fun u v => u.id < v.id) ∧
      s.passed ++ callsOf s.phase.rest = callsOf s.returned ∧
      (∀ u ∈ s.returned, u ∉ s.phase.rest → ∀ call, u.handlerCall = some call →
        (u.id, call) ∈ s.passed ∧ s.passed.countP (fun entry => entry.1 = u.id) = 1) ∧
      ∀ handlers : List (Bool × List (TgCall Unit)), handlers.length = s.phase.rest.length →
        ∃ s', run pollStep s (handlers.map fun h => .handle h.1 h.2) = some s' ∧
          s'.returned = s.returned ∧ s'.passed = callsOf s.returned := by
  obtain ⟨done, hs⟩ := handled_of_reaches h
  refine ⟨hs.order, ?_, fun u hu hnot call hcall => ?_, run_handles hs⟩
  · rw [hs.returned, hs.passed, callsOf_append]
  · rw [hs.returned] at hu
    have hdone := (List.mem_append.mp hu).resolve_right hnot
    have hmem := mem_callsOf hdone hcall
    have horder := hs.order
    rw [hs.returned] at horder
    have hincreasing := pairwise_callsOf (List.pairwise_append.mp horder).1
    rw [hs.passed]
    exact ⟨hmem, countP_id_of_pairwise hincreasing hmem⟩

/-- **`attempts_tg`** — the two attempts, nothing arriving in between, are what `tg` does. -/
theorem attempts_tg (s : PollState J) (now now' : ℚ) (fate fate' : PollFate J) :
    (tg ⟨lit "getUpdates", ⟨now, fate.outcome⟩, ⟨now', fate'.outcome⟩⟩ s.conn).1 =
      match (s.attempted false now fate).phase with
      | .polling true => ((s.attempted false now fate).attempted true now' fate').conn
      | _ => (s.attempted false now fate).conn := by
  rw [tg]
  split
  · next s' r heq =>
    have hphase : (s.attempted false now fate).phase ≠ .polling true := by
      unfold PollState.attempted
      rw [heq]
      dsimp only
      split <;> exact fun hpolling => by cases hpolling
    have hconn : (s.attempted false now fate).conn = s' := by
      unfold PollState.attempted
      rw [heq]
      dsimp only
      split <;> rfl
    split
    · next hat => exact absurd hat hphase
    · exact hconn.symm
  · next s' e heq =>
    have hfirst : (s.attempted false now fate).phase = .polling true ∧
        (s.attempted false now fate).conn = s' := by
      unfold PollState.attempted
      rw [heq]
      exact ⟨rfl, rfl⟩
    rw [hfirst.1, PollState.attempted, hfirst.2]
    dsimp only
    split
    · split <;> rfl
    · rfl

/-! ## No update is lost -/

/-- New updates have larger numbers, and the server returns the first of what it keeps. -/
def InOrder (s : PollState J) : PollEvent J → Prop
  | .arrive u => (∀ v ∈ s.queue, v.id < u.id) ∧ ∀ offset, s.offset = some offset → offset ≤ u.id
  | .attempt _ (.updates _ us) => us <+: s.asked
  | _ => True

/-- **`Kept`** — the server has no update below the offset, or before an update of the batch, that `main`
is not through with or about to handle. -/
structure Kept (s : PollState J) (done : List (TgUpdate J)) : Prop where
  handled : Handled s done
  sorted : s.queue.Pairwise fun u v => u.id < v.id
  below : ∀ u ∈ s.queue, ∀ offset, s.offset = some offset → u.id < offset → u ∈ done
  batch : ∀ v ∈ s.phase.rest, v ∈ s.queue
  before : ∀ u ∈ s.queue, ∀ v ∈ s.phase.rest, u.id ≤ v.id → u ∈ done ∨ u ∈ s.phase.rest

/-- What is dropped was below the offset. -/
theorem mem_asked_or_below {u : TgUpdate J} (hu : u ∈ s.queue) :
    u ∈ s.asked ∨ ∃ offset, s.offset = some offset ∧ u.id < offset := by
  unfold PollState.asked
  split
  · exact .inl hu
  · next offset hoffset =>
    by_cases hle : offset ≤ u.id
    · exact .inl (List.mem_filter.mpr ⟨hu, decide_eq_true hle⟩)
    · exact .inr ⟨offset, hoffset, lt_of_not_ge hle⟩

theorem asked_sublist (s : PollState J) : s.asked.Sublist s.queue := by
  unfold PollState.asked
  split
  · exact List.Sublist.refl _
  · exact List.filter_sublist

theorem kept_attempted {second : Bool} {now : ℚ} {fate : PollFate J} (hs : Kept s done)
    (hphase : s.phase = .polling second) (hguard : InOrder s (.attempt now fate))
    (h : Attempted s fate s') : Kept s' done := by
  have hhandled := handled_attempted hs.handled hphase h
  have hsub : ∀ {queue : List (TgUpdate J)}, queue = s.queue ∨ queue = s.asked →
      queue.Sublist s.queue := by
    rintro queue (rfl | rfl)
    · exact List.Sublist.refl _
    · exact asked_sublist s
  cases h with
  | failed _ conn queue hqueue second =>
    refine ⟨hhandled, hs.sorted.sublist (hsub hqueue), fun u hu => ?_, nofun, nofun⟩
    exact hs.below u ((hsub hqueue).subset hu)
  | updates conn queue hqueue time us hmem horder =>
    -- what is kept is the batch and updates after it
    obtain ⟨later, hlater⟩ : us <+: s.asked := hguard
    have hasked := hs.sorted.sublist (asked_sublist s)
    rw [← hlater] at hasked
    refine ⟨hhandled, hs.sorted.sublist (hsub hqueue), fun u hu => ?_, fun v hv => ?_,
      fun u hu v hv hle => ?_⟩
    · exact hs.below u ((hsub hqueue).subset hu)
    · rcases hqueue with rfl | rfl
      · exact (asked_sublist s).subset (hmem v hv)
      · exact hmem v hv
    · rcases mem_asked_or_below ((hsub hqueue).subset hu) with hin | ⟨offset, hoffset, hlt⟩
      · rw [← hlater] at hin
        refine .inr ((List.mem_append.mp hin).resolve_right fun hnot => ?_)
        exact absurd ((List.pairwise_append.mp hasked).2.2 v hv u hnot) (not_lt.mpr hle)
      · exact .inl (hs.below u ((hsub hqueue).subset hu) offset hoffset hlt)

/-- **`kept_moves`** -/
theorem kept_moves (hs : Kept s done) (hguard : InOrder s e) (h : PollMoves s e s') :
    ∃ done', Kept s' done' := by
  cases h with
  | arrive w =>
    obtain ⟨hlast, hpast⟩ := hguard
    have hh := hs.handled
    refine ⟨done, ⟨hh.returned, hh.passed, hh.order, hh.offset⟩, ?_, fun u hu offset hoffset hlt => ?_,
      fun v hv => List.mem_append_left _ (hs.batch v hv), fun u hu v hv hle => ?_⟩
    · refine List.pairwise_append.mpr ⟨hs.sorted, List.pairwise_singleton _ _, fun v hv x hx => ?_⟩
      obtain rfl := List.mem_singleton.mp hx
      exact hlast v hv
    · rcases List.mem_append.mp hu with hu | hu
      · exact hs.below u hu offset hoffset hlt
      · obtain rfl := List.mem_singleton.mp hu
        exact absurd hlt (not_lt.mpr (hpast offset hoffset))
    · rcases List.mem_append.mp hu with hu | hu
      · exact hs.before u hu v hv hle
      · obtain rfl := List.mem_singleton.mp hu
        exact absurd (hlast v (hs.batch v hv)) (not_lt.mpr hle)
  | attempt now fate second hphase _ hattempt =>
    exact ⟨done, kept_attempted hs hphase hguard hattempt⟩
  | handle raised calls u rest hphase =>
    have hbatch := hs.batch
    have hbefore := hs.before
    rw [hphase] at hbatch hbefore
    refine ⟨done ++ [u], handled_next hs.handled hphase _, hs.sorted, fun w hw offset hoffset hlt => ?_,
      fun v hv => hbatch v (.tail u hv), fun w hw v hv hle => ?_⟩
    · -- below the new offset: not after `u`
      obtain rfl := Option.some.inj hoffset
      have hle : w.id ≤ u.id := Int.le_of_lt_add_one hlt
      rcases hbefore w hw u (.head rest) hle with hdone | hin
      · exact List.mem_append_left _ hdone
      · rcases List.mem_cons.mp hin with rfl | hlater
        · exact List.mem_append_right _ (List.mem_singleton_self w)
        · exact absurd hle (not_le.mpr ((between_of_batch hs.handled hphase).2 w hlater))
    · rcases hbefore w hw v (.tail u hv) hle with hdone | hin
      · exact .inl (List.mem_append_left _ hdone)
      · rcases List.mem_cons.mp hin with rfl | hlater
        · exact .inl (List.mem_append_right _ (List.mem_singleton_self w))
        · exact .inr hlater
  | turn hphase => exact ⟨done, handled_turn hs.handled hphase, hs.sorted, hs.below, nofun, nofun⟩

/-- The server drops updates only when it is asked. -/
theorem queue_of_moves (h : PollMoves s e s') : s.queue ⊆ s'.queue ∨ s'.queue = s.asked := by
  cases h with
  | arrive u => exact .inl (List.subset_append_left _ _)
  | attempt now fate second hphase _ hattempt =>
    cases hattempt with
    | failed _ _ _ hqueue | updates _ _ hqueue =>
      exact hqueue.imp_left fun hsame => by rw [hsame]; exact List.Subset.refl _
  | handle | turn => exact .inl (List.Subset.refl _)

/-- **`no_update_lost`** — as long as new updates have larger numbers and the server returns the first
that it keeps, it drops an update only after its handler has been called. -/
theorem no_update_lost [DecidableEq J] {conn : TgLocal} {queue : List (TgUpdate J)}
    (hqueue : queue.Pairwise fun u v => u.id < v.id)
    (h : Reaches pollStep InOrder (.start conn queue) s) (hstep : pollStep s e = some s')
    {u : TgUpdate J} (hu : u ∈ s.queue) (hnot : u ∉ s'.queue) :
    u ∈ s.returned ∧ ∀ call, u.handlerCall = some call → (u.id, call) ∈ s.passed := by
  obtain ⟨done, hs⟩ : ∃ done, Kept s done := by
    clear hstep hu
    induction h with
    | init => exact ⟨[], ⟨rfl, rfl, .nil, nofun⟩, hqueue, nofun, nofun, nofun⟩
    | step _ hguard hstep ih =>
      obtain ⟨done, hs⟩ := ih
      exact kept_moves hs hguard (pollMoves_of_step hstep)
  have hdone : u ∈ done := by
    rcases queue_of_moves (pollMoves_of_step hstep) with hsub | hasked
    · exact absurd (hsub hu) hnot
    · obtain ⟨offset, hoffset, hlt⟩ := (mem_asked_or_below hu).resolve_left (hasked ▸ hnot)
      exact hs.below u hu offset hoffset hlt
  rw [hs.handled.returned, hs.handled.passed]
  exact ⟨List.mem_append_left _ hdone, fun call => mem_callsOf hdone⟩

/-- A response is lost on its way, and the handler of the first update raises. -/
def lostResponse : List (PollEvent Nat) :=
  [.attempt 1 (.raises .requesting [] true), .arrive ⟨8, none, some 80⟩,
    .attempt 2 (.updates 3 [⟨7, some 70, none⟩, ⟨8, none, some 80⟩]), .handle true [], .handle false [],
    .turn, .attempt 4 (.updates 5 [])]

theorem handled_lostResponse : ∃ s, run pollStep (.start .start [⟨7, some 70, none⟩]) lostResponse = some s ∧
    s.passed = [(7, .message 70), (8, .callback 80)] ∧
    (s.returned.Pairwise fun u v => u.id < v.id) ∧
      s.passed ++ callsOf s.phase.rest = callsOf s.returned ∧
      (∀ u ∈ s.returned, u ∉ s.phase.rest → ∀ call, u.handlerCall = some call →
        (u.id, call) ∈ s.passed ∧ s.passed.countP (fun entry => entry.1 = u.id) = 1) ∧
      ∀ handlers : List (Bool × List (TgCall Unit)), handlers.length = s.phase.rest.length →
        ∃ s', run pollStep s (handlers.map fun h => .handle h.1 h.2) = some s' ∧
          s'.returned = s.returned ∧ s'.passed = callsOf s.returned := by
  have hmap : (run pollStep (.start .start [⟨7, some 70, none⟩]) lostResponse).map PollState.passed =
      some [(7, .message 70), (8, .callback 80)] := by
    with_unfolding_all rfl
  obtain ⟨s, hrun, hpassed⟩ := Option.map_eq_some_iff.mp hmap
  exact ⟨s, hrun, hpassed, handled_exactly_once (Reaches.of_run .init hrun)⟩

end Once

end ProxyGateway.Bot
