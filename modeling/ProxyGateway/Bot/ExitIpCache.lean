/-
# ProxyGateway.Bot.ExitIpCache — the cached address of the exit, with threads

The fetch of the address runs outside the lock, between two critical sections: the look into the cache
and the store.  Threads of the pool take these steps in any order, and an invalidation may come between
any two of them.

Calls, fetches and replies are stamped with the number of invalidations before them.  A fetch that began
before an invalidation may be stored after it, and the next call is then answered with the address of
the exit before the switch (`old_address_after_switch`).  As long as no result is stored past an
invalidation, no reply is older than the invalidations before its call; and a store past one always
leads to such a reply (`current_while_timely`).
-/
import ProxyGateway.Lang.Text
import ProxyGateway.Logic.Machine
import Mathlib.Algebra.Order.Group.Unbundled.Basic
import Mathlib.Algebra.Order.Ring.Rat
import Mathlib.Logic.Function.Basic

namespace ProxyGateway.Bot

open ProxyGateway.Lang ProxyGateway.Logic

/-! ## The cache and the threads -/

def exitIpUrls : List Text :=
  [lit "https://api.ipify.org", lit "https://ifconfig.me/ip", lit "https://ipinfo.io/ip"]

/-- **`_exit_ip_fetch`** — `curl url` is what `run2` returns for the command line with `url`. -/
def exitIpFetch (curl : Text → Bool × Text) : Text :=
  (exitIpUrls.findSome? fun url =>
    let out := strip (curl url).2
    if (curl url).1 && out ≠ [] && out.all fun c => c.isDigit || c = '.' then some out else none).getD []

/-- Where a thread is in `get_cached_exit_ip`.  `began` and `fetchBegan` are the numbers of
invalidations before the call and before its fetch. -/
inductive GetPhase where
  | idle
  /-- before the first critical section -/
  | called (began : Nat)
  /-- before `_exit_ip_fetch()` -/
  | missed (began : Nat)
  | fetching (began fetchBegan : Nat)
  /-- before the second critical section -/
  | fetched (began fetchBegan : Nat) (ip : Text)

/-- What a call returned, and the stamp of the fetch that it comes from. -/
structure Reply where
  ip : Text
  began : Nat
  fetchBegan : Option Nat
  deriving DecidableEq, Repr

structure ExitIpState where
  /-- `_EXIT_IP_CACHE` -/
  cache : Text
  /-- `_EXIT_IP_TS` -/
  ts : ℚ
  /-- the stamp of the fetch that filled the cache -/
  source : Option Nat
  invalidations : Nat
  threads : Nat → GetPhase
  replies : List Reply

def ExitIpState.start : ExitIpState := ⟨[], 0, none, 0, fun _ => .idle, []⟩

/-- The steps of thread `t`, each with what `time.time()` and `curl` answer.  An invalidation is its
critical section. -/
inductive ExitIpEvent where
  | call (t : Nat)
  | look (t : Nat) (now : ℚ)
  | fetch (t : Nat)
  | answer (t : Nat) (curl : Text → Bool × Text)
  | store (t : Nat) (now : ℚ)
  | invalidate (t : Nat)

def ExitIpState.goto (s : ExitIpState) (t : Nat) (phase : GetPhase) : ExitIpState :=
  { s with threads := Function.update s.threads t phase }

/-- **`get_cached_exit_ip`**, **`invalidate_exit_ip_cache`** -/
def exitIpStep (s : ExitIpState) : ExitIpEvent → Option ExitIpState
  | .call t =>
    match s.threads t with
    | .idle => some (s.goto t (.called s.invalidations))
    | _ => none
  | .look t now =>
    match s.threads t with
    | .called began => some <|
      if now - s.ts < 300 then
        { s.goto t .idle with replies := s.replies ++ [⟨s.cache, began, s.source⟩] }
      else s.goto t (.missed began)
    | _ => none
  | .fetch t =>
    match s.threads t with
    | .missed began => some (s.goto t (.fetching began s.invalidations))
    | _ => none
  | .answer t curl =>
    match s.threads t with
    | .fetching began fetchBegan => some (s.goto t (.fetched began fetchBegan (exitIpFetch curl)))
    | _ => none
  | .store t now =>
    match s.threads t with
    -- whatever has happened to the cache since the fetch began
    | .fetched began fetchBegan ip => some
      { s.goto t .idle with
        cache := ip, ts := now, source := some fetchBegan
        replies := s.replies ++ [⟨ip, began, some fetchBegan⟩] }
    | _ => none
  | .invalidate t =>
    match s.threads t with
    | .idle => some { s with cache := [], ts := 0, source := none, invalidations := s.invalidations + 1 }
    | _ => none

/-- What a step can do. -/
inductive ExitIpMoves (s : ExitIpState) : ExitIpEvent → ExitIpState → Prop
  | call (t : Nat) : ExitIpMoves s (.call t) (s.goto t (.called s.invalidations))
  | hit (t : Nat) (now : ℚ) (began : Nat) (hat : s.threads t = .called began)
      (hlive : now - s.ts < 300) : ExitIpMoves s (.look t now)
        { s.goto t .idle with replies := s.replies ++ [⟨s.cache, began, s.source⟩] }
  | miss (t : Nat) (now : ℚ) (began : Nat) (hat : s.threads t = .called began)
      (hold : ¬ now - s.ts < 300) : ExitIpMoves s (.look t now) (s.goto t (.missed began))
  | fetch (t began : Nat) (hat : s.threads t = .missed began) :
      ExitIpMoves s (.fetch t) (s.goto t (.fetching began s.invalidations))
  | answer (t : Nat) (curl : Text → Bool × Text) (began fetchBegan : Nat)
      (hat : s.threads t = .fetching began fetchBegan) :
      ExitIpMoves s (.answer t curl) (s.goto t (.fetched began fetchBegan (exitIpFetch curl)))
  | store (t : Nat) (now : ℚ) (began fetchBegan : Nat) (ip : Text)
      (hat : s.threads t = .fetched began fetchBegan ip) : ExitIpMoves s (.store t now)
        { s.goto t .idle with
          cache := ip, ts := now, source := some fetchBegan
          replies := s.replies ++ [⟨ip, began, some fetchBegan⟩] }
  | invalidate (t : Nat) : ExitIpMoves s (.invalidate t)
      { s with cache := [], ts := 0, source := none, invalidations := s.invalidations + 1 }

theorem exitIpMoves_of_step {s s' : ExitIpState} {e : ExitIpEvent} (h : exitIpStep s e = some s') :
    ExitIpMoves s e s' := by
  cases e with
  | call t =>
    rw [exitIpStep] at h
    split at h
    · obtain rfl := Option.some.inj h
      exact .call t
    · nomatch h
  | look t now =>
    rw [exitIpStep] at h
    split at h
    · next began hat =>
      obtain rfl := Option.some.inj h
      split
      · next hlive => exact .hit t now began hat hlive
      · next hold => exact .miss t now began hat hold
    · nomatch h
  | fetch t =>
    rw [exitIpStep] at h
    split at h
    · next began hat =>
      obtain rfl := Option.some.inj h
      exact .fetch t began hat
    · nomatch h
  | answer t curl =>
    rw [exitIpStep] at h
    split at h
    · next began fetchBegan hat =>
      obtain rfl := Option.some.inj h
      exact .answer t curl began fetchBegan hat
    · nomatch h
  | store t now =>
    rw [exitIpStep] at h
    split at h
    · next began fetchBegan ip hat =>
      obtain rfl := Option.some.inj h
      exact .store t now began fetchBegan ip hat
    · nomatch h
  | invalidate t =>
    rw [exitIpStep] at h
    split at h
    · obtain rfl := Option.some.inj h
      exact .invalidate t
    · nomatch h

/-! ## Replies and invalidations -/

/-- **`Current`** — a reply to a call that began after invalidation number `n` comes from a fetch that
began after it. -/
def Current (s : ExitIpState) : Prop :=
  ∀ r ∈ s.replies, ∀ n < r.began, ∃ f, r.fetchBegan = some f ∧ n < f

/-- No invalidation came between the fetch and the store; and where the cache has been emptied, the clock
is past the first five minutes of 1970. -/
def timely (s : ExitIpState) : ExitIpEvent → Bool
  | .look t now =>
    match s.threads t with
    | .called began => began == 0 || s.source.isSome || decide (300 ≤ now)
    | _ => true
  | .store t _ =>
    match s.threads t with
    | .fetched _ fetchBegan _ => fetchBegan == s.invalidations
    | _ => true
  | _ => true

/-- The stamps of a thread are in order. -/
def GetPhase.Ordered (n : Nat) : GetPhase → Prop
  | .idle => True
  | .called began | .missed began => began ≤ n
  | .fetching began fetchBegan | .fetched began fetchBegan _ => began ≤ fetchBegan ∧ fetchBegan ≤ n

/-- **`Stamped`** — what every step keeps. -/
structure Stamped (s : ExitIpState) : Prop where
  threads : ∀ t, (s.threads t).Ordered s.invalidations
  empty : s.source = none → s.ts = 0

/-- **`Fresh`** — what timely steps keep: the cache was filled after the last invalidation. -/
structure Fresh (s : ExitIpState) : Prop where
  stamped : Stamped s
  source : ∀ f, s.source = some f → f = s.invalidations
  replies : Current s

section Invariants

variable {s s' : ExitIpState} {e : ExitIpEvent} {t n : Nat}

theorem GetPhase.Ordered.succ {phase : GetPhase} (h : phase.Ordered n) : phase.Ordered (n + 1) := by
  cases phase with
  | idle => trivial
  | called began | missed began => exact Nat.le_succ_of_le h
  | fetching began f | fetched began f ip => exact ⟨h.1, Nat.le_succ_of_le h.2⟩

theorem Stamped.at (hs : Stamped s) {phase : GetPhase} (hat : s.threads t = phase) :
    phase.Ordered s.invalidations :=
  hat ▸ hs.threads t

/-- A thread goes on, in order. -/
theorem Stamped.goto (hs : Stamped s) (t : Nat) (phase : GetPhase)
    (hphase : phase.Ordered s.invalidations) : Stamped (s.goto t phase) := by
  refine ⟨?_, hs.empty⟩
  exact (Function.forall_update_iff s.threads fun _ p => p.Ordered s.invalidations).mpr
    ⟨hphase, fun u _ => hs.threads u⟩

/-- **`stamped_moves`** -/
theorem stamped_moves (hs : Stamped s) (h : ExitIpMoves s e s') : Stamped s' := by
  cases h with
  | call t => exact hs.goto t (.called _) le_rfl
  | hit t now began hat hlive =>
    have hidle := hs.goto t .idle trivial
    exact ⟨hidle.threads, hidle.empty⟩
  | miss t now began hat hold =>
    have hbegan : began ≤ s.invalidations := hs.at hat
    exact hs.goto t (.missed began) hbegan
  | fetch t began hat =>
    have hbegan : began ≤ s.invalidations := hs.at hat
    exact hs.goto t (.fetching began _) ⟨hbegan, le_rfl⟩
  | answer t curl began f hat =>
    have hbegan : began ≤ f ∧ f ≤ s.invalidations := hs.at hat
    exact hs.goto t (.fetched began f _) hbegan
  | store t now began f ip hat =>
    have hidle := hs.goto t .idle trivial
    exact ⟨hidle.threads, nofun⟩
  | invalidate t => exact ⟨fun u => (hs.threads u).succ, fun _ => rfl⟩

theorem stamped_start : Stamped .start := ⟨fun _ => trivial, fun _ => rfl⟩

theorem fresh_start : Fresh .start := ⟨stamped_start, nofun, nofun⟩

/-- One more reply. -/
theorem current_append {r : Reply} (h : Current s)
    (hr : ∀ n < r.began, ∃ f, r.fetchBegan = some f ∧ n < f) {s' : ExitIpState}
    (hs' : s'.replies = s.replies ++ [r]) : Current s' := by
  intro q hq
  rw [hs'] at hq
  rcases List.mem_append.mp hq with hq | hq
  · exact h q hq
  · obtain rfl := List.mem_singleton.mp hq
    exact hr

/-- **`fresh_moves`** — a hit is answered with what was fetched after the last invalidation, and a
store fills the cache with such. -/
theorem fresh_moves (hs : Fresh s) (hguard : timely s e = true) (h : ExitIpMoves s e s') :
    Fresh s' := by
  have hstamped := stamped_moves hs.stamped h
  cases h with
  | call | miss | fetch | answer => exact ⟨hstamped, hs.source, hs.replies⟩
  | hit t now began hat hlive =>
    refine ⟨hstamped, hs.source, current_append hs.replies (fun n hn => ?_) rfl⟩
    have hbegan : began ≤ s.invalidations := hs.stamped.at hat
    cases hsource : s.source with
    | some f =>
      obtain rfl := hs.source f hsource
      exact ⟨_, rfl, hn.trans_le hbegan⟩
    | none =>
      -- the timestamp is that of the epoch, so the clock has not gone five minutes
      have hlate : 300 ≤ now := by
        simpa [timely, hat, hsource, Nat.ne_of_gt (Nat.zero_lt_of_lt hn)] using hguard
      rw [hs.stamped.empty hsource, sub_zero] at hlive
      exact absurd hlive (not_lt.mpr hlate)
  | store t now began f ip hat =>
    have hf : f = s.invalidations := by simpa [timely, hat] using hguard
    have hbegan : began ≤ f ∧ f ≤ s.invalidations := hs.stamped.at hat
    refine ⟨hstamped, fun g hg => ?_, current_append hs.replies (fun n hn => ?_) rfl⟩
    · obtain rfl := Option.some.inj hg
      exact hf
    · exact ⟨f, rfl, hn.trans_le hbegan.1⟩
  | invalidate t => exact ⟨hstamped, nofun, hs.replies⟩

/-- A reply that is not current stays. -/
theorem not_current_of_mem {r : Reply} (hr : r ∈ s.replies) (hn : n < r.began)
    (hold : ∀ f, r.fetchBegan = some f → f ≤ n) : ¬ Current s := by
  intro h
  obtain ⟨f, hf, hlt⟩ := h r hr n hn
  exact absurd hlt (not_lt.mpr (hold f hf))

/-- A call, at the time of the last store, is answered from the cache. -/
theorem run_call_look (hidle : s.threads t = .idle) :
    ∃ s', run exitIpStep s [.call t, .look t s.ts] = some s' ∧
      s'.replies = s.replies ++ [⟨s.cache, s.invalidations, s.source⟩] := by
  have hcall : exitIpStep s (.call t) = some (s.goto t (.called s.invalidations)) := by
    rw [exitIpStep, hidle]
  have hat : (s.goto t (.called s.invalidations)).threads t = .called s.invalidations :=
    Function.update_self ..
  have hlive : s.ts - s.ts < 300 := by rw [sub_self]; decide
  refine ⟨{ (s.goto t (.called s.invalidations)).goto t .idle with
    replies := s.replies ++ [⟨s.cache, s.invalidations, s.source⟩] }, ?_, rfl⟩
  rw [run, hcall, Option.bind_some, run, exitIpStep, hat]
  exact congrArg (Option.bind · _) (congrArg some (if_pos hlive))

/-- **`untimely_shows`** — the next call is answered with what was stored past an invalidation. -/
theorem untimely_shows (hs : Stamped s) (hguard : timely s e = false) (h : ExitIpMoves s e s') :
    ∃ es t, run exitIpStep s' es = some t ∧ ¬ Current t := by
  cases h with
  | call | fetch | answer | invalidate => nomatch hguard
  | miss t now began hat hold =>
    -- an emptied cache is as old as the clock, so an early look hits
    obtain ⟨⟨-, hsource⟩, hearly⟩ : (began ≠ 0 ∧ s.source = none) ∧ now < 300 := by
      simpa [timely, hat] using hguard
    rw [hs.empty hsource, sub_zero] at hold
    exact absurd hearly hold
  | hit t now began hat hlive =>
    obtain ⟨⟨hpos, hsource⟩, -⟩ : (began ≠ 0 ∧ s.source = none) ∧ now < 300 := by
      simpa [timely, hat] using hguard
    have hmem := List.mem_append_right s.replies
      (List.mem_singleton_self (⟨s.cache, began, s.source⟩ : Reply))
    refine ⟨[], _, rfl, not_current_of_mem hmem (Nat.pos_of_ne_zero hpos) fun f hf => ?_⟩
    exact nomatch hsource.symm.trans hf
  | store t now began f ip hat =>
    have hf : f ≠ s.invalidations := by simpa [timely, hat] using hguard
    have hle : began ≤ f ∧ f ≤ s.invalidations := hs.at hat
    -- the thread is idle again and calls once more
    generalize hs' : ({ s.goto t .idle with
      cache := ip, ts := now, source := some f
      replies := s.replies ++ [⟨ip, began, some f⟩] } : ExitIpState) = s'
    have hidle : s'.threads t = .idle := by
      subst hs'
      exact Function.update_self ..
    obtain ⟨u, hrun, hreplies⟩ := run_call_look hidle
    refine ⟨_, u, hrun, not_current_of_mem (r := ⟨s'.cache, s'.invalidations, s'.source⟩) (n := f)
      ?_ ?_ fun g hg => ?_⟩
    · rw [hreplies]
      exact List.mem_append_right _ (List.mem_singleton_self _)
    · subst hs'
      exact lt_of_le_of_ne hle.2 hf
    · subst hs'
      exact (Option.some.inj hg).ge

/-- **`current_while_timely`** — in a run whose steps are all timely, every reply is current; and the first
step that is not can be followed by others up to a reply that is not current. -/
theorem current_while_timely (h : Reaches exitIpStep (fun s e => timely s e = true) .start s) :
    Current s ∧ ∀ e s', exitIpStep s e = some s' → timely s e = false →
      ∃ es t, run exitIpStep s' es = some t ∧ ¬ Current t := by
  have hfresh := h.invariant fresh_start
    fun _ _ _ hs hguard hstep => fresh_moves hs hguard (exitIpMoves_of_step hstep)
  refine ⟨hfresh.replies, fun e s' hstep hguard => ?_⟩
  exact untimely_shows hfresh.stamped hguard (exitIpMoves_of_step hstep)

/-- The switch of the exit, and then the status panel. -/
def switchThenStatus : List ExitIpEvent :=
  [.invalidate 2, .call 2, .look 2 1000, .fetch 2, .answer 2 fun _ => (true, lit "2.2.2.2\n"),
    .store 2 1001, .call 1, .look 1 1010]

theorem current_switchThenStatus : ∃ s, run exitIpStep .start switchThenStatus = some s ∧
    s.replies = [⟨lit "2.2.2.2", 1, some 1⟩, ⟨lit "2.2.2.2", 1, some 1⟩] ∧ Current s ∧
      ∀ e s', exitIpStep s e = some s' → timely s e = false →
        ∃ es t, run exitIpStep s' es = some t ∧ ¬ Current t := by
  have hmap : (runIf exitIpStep timely .start switchThenStatus).map ExitIpState.replies =
      some [⟨lit "2.2.2.2", 1, some 1⟩, ⟨lit "2.2.2.2", 1, some 1⟩] := by
    with_unfolding_all rfl
  obtain ⟨s, hrun, hreplies⟩ := Option.map_eq_some_iff.mp hmap
  exact ⟨s, run_of_runIf hrun, hreplies, current_while_timely (Reaches.of_runIf .init hrun)⟩

/-- The status panel fetches the address while the exit is switched. -/
def statusAcrossSwitch : List ExitIpEvent :=
  [.call 1, .look 1 1000, .fetch 1, .invalidate 2, .answer 1 fun _ => (true, lit "1.1.1.1\n"),
    .store 1 1001, .call 2, .look 2 1001]

/-- **`old_address_after_switch`** — the call after the invalidation is answered with an address that was
fetched before it. -/
theorem old_address_after_switch : ∃ s, run exitIpStep .start statusAcrossSwitch = some s ∧
    ⟨lit "1.1.1.1", 1, some 0⟩ ∈ s.replies ∧ ¬ Current s := by
  have hmap : (run exitIpStep .start statusAcrossSwitch).map ExitIpState.replies =
      some [⟨lit "1.1.1.1", 0, some 0⟩, ⟨lit "1.1.1.1", 1, some 0⟩] := by
    with_unfolding_all rfl
  obtain ⟨s, hrun, hreplies⟩ := Option.map_eq_some_iff.mp hmap
  have hmem : ⟨lit "1.1.1.1", 1, some 0⟩ ∈ s.replies := by
    rw [hreplies]
    exact .tail _ (.head _)
  refine ⟨s, hrun, hmem, not_current_of_mem hmem Nat.one_pos fun f hf => ?_⟩
  exact (Option.some.inj hf).ge

end Invariants

end ProxyGateway.Bot
