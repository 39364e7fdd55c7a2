/-
# ProxyGateway.Bot.BusyPanels — one long operation for each message

While an operation is on its way, its message is in `BUSY`, and a button under it is answered with a
request to wait.  The main loop looks into `BUSY`, adds the message and submits the task; the task takes
it out again, in another thread, when it is done or has raised.  Between any two of these steps other
tasks may take theirs.

A branch of `handle_callback` submits at most one task (`submissions_branch`), and a press is let through
only where no task of its message is left.  So no message has two tasks, and one that has a task is in
`BUSY` (`OneJob`); when the task is done the message is free until a press under it is let through again
(`one_job_per_panel`).
-/
import ProxyGateway.Bot.Callbacks
import ProxyGateway.Logic.KeyedErase
import Mathlib.Data.Finset.Erase
import Mathlib.Data.Finset.Insert
import Mathlib.Data.Int.Order.Basic

namespace ProxyGateway.Bot

open ProxyGateway.Lang ProxyGateway.Logic

/-! ## The main loop and the pool -/

inductive JobPhase where
  | queued
  | working
  /-- the text is shown, or something has raised: `BUSY.discard(key)` comes next -/
  | leaving
  deriving DecidableEq, Repr

/-- A task of `edit_async` or `edit_ios_async` that is not finished. -/
structure Job where
  key : BusyKey
  phase : JobPhase
  deriving DecidableEq, Repr

/-- Where the main loop is. -/
inductive MainLoop where
  | idle
  | handling (key : BusyKey) (rest : List Call)
  /-- between `BUSY.add(key)` and `_POOL.submit(go)` -/
  | submitting (key : BusyKey) (rest : List Call)

structure PanelState where
  busy : Finset BusyKey
  jobs : List Job
  main : MainLoop

def PanelState.start : PanelState := ⟨∅, [], .idle⟩

/-- **`_busy_key_from_cb`** -/
def Callback.key (c : Callback) : BusyKey := (c.chat, c.message)

/-- `raised` says that an exception ends the step. -/
inductive PanelEvent where
  /-- `handle_callback` begins, with what it finds in the files, in `PENDING` and in
  `LAST_FAILED_DOT_DOMAIN`. -/
  | callback (c : Callback) (d : Console) (pending : Option Pending) (failed : Option Text)
  /-- its next call, up to `BUSY.add(key)` -/
  | call (raised : Bool)
  | submit (raised : Bool)
  /-- a thread of the pool takes job number `i` -/
  | take (i : Nat)
  /-- and ends it, but for the `finally` -/
  | work (i : Nat) (raised : Bool)
  | discard (i : Nat)

def Call.submits : Call → Bool
  | .editAsync .. | .editIosAsync => true
  | _ => false

/-- A job goes from one phase to the next. -/
def PanelState.advance (s : PanelState) (i : Nat) (phase next : JobPhase) : Option PanelState :=
  match s.jobs[i]? with
  | some job => if job.phase = phase then some { s with jobs := s.jobs.set i { job with phase := next } }
      else none
  | none => none

def panelStep (H : BotHost) (admins : List Int) (s : PanelState) : PanelEvent → Option PanelState
  | .callback c d pending failed =>
    match s.main with
    | .idle => some <|
      if authorized admins c.toSender = true ∧ c.key ∉ s.busy then
        { s with main := .handling c.key (H.branch d pending failed c.data) }
      else s
    | _ => none
  | .call raised =>
    match s.main with
    | .handling key (call :: rest) => some <|
      if raised then { s with main := .idle }
      else match call with
        | .raises => { s with main := .idle }
        | .editAsync .. | .editIosAsync =>
          { s with busy := insert key s.busy, main := .submitting key rest }
        | .pending _ | .edit .. => { s with main := .handling key rest }
    | .handling _ [] => some { s with main := .idle }
    | _ => none
  | .submit raised =>
    match s.main with
    | .submitting key rest => some <|
      if raised then { s with main := .idle }
      else { s with jobs := s.jobs ++ [⟨key, .queued⟩], main := .handling key rest }
    | _ => none
  | .take i => s.advance i .queued .working
  | .work i _ => s.advance i .working .leaving
  | .discard i =>
    match s.jobs[i]? with
    | some job =>
      if job.phase = .leaving then
        some { s with busy := s.busy.erase job.key, jobs := s.jobs.eraseIdx i }
      else none
    | none => none

/-- A press under the message is let through. -/
def Accepts (admins : List Int) (key : BusyKey) (s : PanelState) : PanelEvent → Prop
  | .callback c .. => authorized admins c.toSender = true ∧ c.key ∉ s.busy ∧ c.key = key
  | _ => False

/-- What a step can do. -/
inductive Moves (H : BotHost) (admins : List Int) (s : PanelState) : PanelEvent → PanelState → Prop
  | refuse (c : Callback) (d : Console) (pending : Option Pending) (failed : Option Text) :
      Moves H admins s (.callback c d pending failed) s
  | accept (c : Callback) (d : Console) (pending : Option Pending) (failed : Option Text)
      (hfree : authorized admins c.toSender = true ∧ c.key ∉ s.busy) :
      Moves H admins s (.callback c d pending failed)
        { s with main := .handling c.key (H.branch d pending failed c.data) }
  | leave (raised : Bool) : Moves H admins s (.call raised) { s with main := .idle }
  | fail : Moves H admins s (.submit true) { s with main := .idle }
  | go (key : BusyKey) (call : Call) (rest : List Call) (hmain : s.main = .handling key (call :: rest))
      (hcall : call.submits = false) :
      Moves H admins s (.call false) { s with main := .handling key rest }
  | mark (key : BusyKey) (call : Call) (rest : List Call) (hmain : s.main = .handling key (call :: rest))
      (hcall : call.submits = true) : Moves H admins s (.call false)
        { s with busy := insert key s.busy, main := .submitting key rest }
  | submit (key : BusyKey) (rest : List Call) (hmain : s.main = .submitting key rest) :
      Moves H admins s (.submit false)
        { s with jobs := s.jobs ++ [⟨key, .queued⟩], main := .handling key rest }
  | advance (e : PanelEvent) (i : Nat) (job : Job) (phase : JobPhase) (hget : s.jobs[i]? = some job) :
      Moves H admins s e { s with jobs := s.jobs.set i { job with phase } }
  | discard (i : Nat) (job : Job) (hget : s.jobs[i]? = some job) :
      Moves H admins s (.discard i) { s with busy := s.busy.erase job.key, jobs := s.jobs.eraseIdx i }

section Steps

variable {H : BotHost} {admins : List Int} {s s' : PanelState} {e : PanelEvent}

theorem moves_advance {i : Nat} {phase next : JobPhase} (h : s.advance i phase next = some s') :
    Moves H admins s e s' := by
  unfold PanelState.advance at h
  split at h
  · next job hget =>
    split at h
    · obtain rfl := Option.some.inj h
      exact .advance e i job next hget
    · nomatch h
  · nomatch h

theorem moves_of_step (h : panelStep H admins s e = some s') : Moves H admins s e s' := by
  cases e with
  | callback c d pending failed =>
    rw [panelStep] at h
    split at h
    · obtain rfl := Option.some.inj h
      split
      · next hfree => exact .accept c d pending failed hfree
      · exact .refuse c d pending failed
    · nomatch h
  | call raised =>
    rw [panelStep] at h
    split at h
    · next key call rest hmain =>
      obtain rfl := Option.some.inj h
      cases raised with
      | true => exact .leave _
      | false =>
        cases call with
        | raises => exact .leave _
        | editAsync op kb => exact .mark key _ rest hmain rfl
        | editIosAsync => exact .mark key _ rest hmain rfl
        | pending u => exact .go key _ rest hmain rfl
        | edit text kb => exact .go key _ rest hmain rfl
    · obtain rfl := Option.some.inj h
      exact .leave _
    · nomatch h
  | submit raised =>
    rw [panelStep] at h
    split at h
    · next key rest hmain =>
      obtain rfl := Option.some.inj h
      cases raised with
      | true => exact .fail
      | false => exact .submit key rest hmain
    · nomatch h
  | take i => exact moves_advance h
  | work i raised => exact moves_advance h
  | discard i =>
    rw [panelStep] at h
    split at h
    · next job hget =>
      split at h
      · obtain rfl := Option.some.inj h
        exact .discard i job hget
      · nomatch h
    · nomatch h

end Steps

/-! ## One job for each message -/

/-- The tasks that calls submit. -/
def submissions (calls : List Call) : Nat := calls.countP Call.submits

/-- **`submissions_branch`** — no branch submits more than one. -/
theorem submissions_branch (H : BotHost) (d : Console) (pending : Option Pending)
    (failed : Option Text) (data : Text) : submissions (H.branch d pending failed data) ≤ 1 := by
  have hshape := (branch_does H d
    { BotState.start with pending := fun _ => pending, lastFailed := fun _ => failed }
    ⟨⟨none, 0, false⟩, none, data⟩).shape
  revert hshape
  generalize H.branch d pending failed data = calls
  intro hshape
  cases hshape <;> simp [submissions, Call.submits]

/-- What the main loop is about to do fits the jobs that there are. -/
def MainLoop.Fits (jobs : List Job) (busy : Finset BusyKey) : MainLoop → Prop
  | .idle => True
  | .handling key rest => submissions rest ≤ 1 ∧ (0 < submissions rest → key ∉ jobs.map Job.key)
  | .submitting key rest => submissions rest = 0 ∧ key ∈ busy ∧ key ∉ jobs.map Job.key

/-- **`OneJob`** — no message has two jobs, and one that has a job is busy. -/
structure OneJob (s : PanelState) : Prop where
  nodup : (s.jobs.map Job.key).Nodup
  busy : ∀ job ∈ s.jobs, job.key ∈ s.busy
  main : s.main.Fits s.jobs s.busy

/-- **`Free`** — the message is not busy, and the main loop is not about to make it so. -/
structure Free (key : BusyKey) (s : PanelState) : Prop where
  idle : key ∉ s.busy
  handling : ∀ rest, s.main = .handling key rest → submissions rest = 0
  submitting : ∀ rest, s.main ≠ .submitting key rest

section Invariants

variable {H : BotHost} {admins : List Int} {s s' : PanelState} {e : PanelEvent} {key : BusyKey}

theorem submissions_cons (call : Call) (rest : List Call) :
    submissions (call :: rest) = submissions rest + if call.submits = true then 1 else 0 :=
  List.countP_cons

/-- A phase is no part of the key. -/
theorem keys_set {i : Nat} {job : Job} (hget : s.jobs[i]? = some job) (phase : JobPhase) :
    (s.jobs.set i { job with phase }).map Job.key = s.jobs.map Job.key := by
  obtain ⟨hi, hjob⟩ := List.getElem?_eq_some_iff.mp hget
  rw [List.map_set]
  refine List.ext_getElem (by simp) fun n hn hn' => ?_
  rw [List.getElem_set]
  split
  · next hin =>
    subst hin
    rw [List.getElem_map, hjob]
  · rfl

/-- Whoever is busy on account of a job stays so when another message is freed. -/
theorem mem_erase_of_mem_eraseIdx {i : Nat} {job : Job} (hs : OneJob s)
    (hget : s.jobs[i]? = some job) {k : BusyKey} (hk : k ∈ (s.jobs.eraseIdx i).map Job.key) :
    k ∈ s.busy.erase job.key := by
  obtain ⟨hi, hjob⟩ := List.getElem?_eq_some_iff.mp hget
  have hne : k ≠ job.key := by
    rintro rfl
    rw [← List.eraseIdx_map] at hk
    obtain ⟨n, hn, hni, hkn⟩ := List.mem_eraseIdx_iff_getElem.mp hk
    have hi' : i < (s.jobs.map Job.key).length := by rwa [List.length_map]
    have heq : (s.jobs.map Job.key)[n] = (s.jobs.map Job.key)[i] := by
      rw [hkn, List.getElem_map, hjob]
    exact hni (hs.nodup.getElem_inj_iff.mp heq)
  obtain ⟨other, hother, rfl⟩ := List.mem_map.mp hk
  exact Finset.mem_erase.mpr ⟨hne, hs.busy other (List.mem_of_mem_eraseIdx hother)⟩

theorem oneJob_start : OneJob .start := ⟨List.nodup_nil, nofun, trivial⟩

/-- **`oneJob_moves`** -/
theorem oneJob_moves (hs : OneJob s) (h : Moves H admins s e s') : OneJob s' := by
  have hmain := hs.main
  cases h with
  | refuse => exact hs
  | leave | fail => exact ⟨hs.nodup, hs.busy, trivial⟩
  | accept c d pending failed hfree =>
    refine ⟨hs.nodup, hs.busy, submissions_branch .., fun _ hmem => ?_⟩
    obtain ⟨job, hjob, hkey⟩ := List.mem_map.mp hmem
    exact hfree.2 (hkey ▸ hs.busy job hjob)
  | go key call rest hat hcall =>
    rw [hat] at hmain
    obtain ⟨hle, hnew⟩ := hmain
    rw [submissions_cons, hcall] at hle hnew
    exact ⟨hs.nodup, hs.busy, hle, hnew⟩
  | mark key call rest hat hcall =>
    -- the submission that comes next is the only one of the branch
    rw [hat] at hmain
    obtain ⟨hle, hnew⟩ := hmain
    rw [submissions_cons, if_pos hcall] at hle hnew
    refine ⟨hs.nodup, fun job hjob => Finset.mem_insert_of_mem (hs.busy job hjob), ?_⟩
    exact ⟨by omega, Finset.mem_insert_self _ _, hnew (Nat.succ_pos _)⟩
  | submit key rest hat =>
    rw [hat] at hmain
    obtain ⟨hnone, hbusy, hnew⟩ := hmain
    constructor
    · rw [List.map_append, List.nodup_append_comm]
      exact List.nodup_cons.mpr ⟨hnew, hs.nodup⟩
    · intro job hjob
      rcases List.mem_append.mp hjob with hjob | hjob
      · exact hs.busy job hjob
      · rw [List.mem_singleton.mp hjob]
        exact hbusy
    · refine ⟨hnone.trans_le (Nat.zero_le 1), fun hpos => ?_⟩
      rw [hnone] at hpos
      nomatch hpos
  | advance _ i job phase hget =>
    have hkeys := keys_set hget phase
    have hfits : s.main.Fits (s.jobs.set i { job with phase }) s.busy ↔ s.main.Fits s.jobs s.busy := by
      cases s.main <;> simp only [MainLoop.Fits, hkeys]
    refine ⟨hkeys ▸ hs.nodup, fun other hother => ?_, hfits.mpr hmain⟩
    have hmem : other.key ∈ s.jobs.map Job.key := hkeys ▸ List.mem_map_of_mem hother
    obtain ⟨old, hold, hkey⟩ := List.mem_map.mp hmem
    exact hkey ▸ hs.busy old hold
  | discard i job hget =>
    have hsub : (s.jobs.eraseIdx i).map Job.key ⊆ s.jobs.map Job.key :=
      ((List.eraseIdx_sublist _ _).map _).subset
    have hjob : job.key ∈ s.jobs.map Job.key :=
      List.mem_map_of_mem (List.mem_of_getElem? hget)
    refine ⟨hs.nodup.sublist ((List.eraseIdx_sublist _ _).map _), fun other hother => ?_, ?_⟩
    · exact mem_erase_of_mem_eraseIdx hs hget (List.mem_map_of_mem hother)
    · cases hat : s.main with
      | idle => trivial
      | handling key rest =>
        rw [hat] at hmain
        exact ⟨hmain.1, fun hpos hmem => hmain.2 hpos (hsub hmem)⟩
      | submitting key rest =>
        -- the message about to get a job has none yet, so it is not the one freed
        rw [hat] at hmain
        refine ⟨hmain.1, Finset.mem_erase.mpr ⟨?_, hmain.2.1⟩, fun hmem => hmain.2.2 (hsub hmem)⟩
        rintro rfl
        exact hmain.2.2 hjob

/-- **`free_discard`** — a job that finishes leaves its message free. -/
theorem free_discard (hs : OneJob s) {i : Nat} {job : Job} (hget : s.jobs[i]? = some job) :
    Free job.key { s with busy := s.busy.erase job.key, jobs := s.jobs.eraseIdx i } := by
  have hmain := hs.main
  have hjob : job.key ∈ s.jobs.map Job.key := List.mem_map_of_mem (List.mem_of_getElem? hget)
  constructor
  · exact Finset.notMem_erase _ _
  · intro rest (hat : s.main = _)
    rw [hat] at hmain
    exact Nat.eq_zero_of_not_pos fun hpos => hmain.2 hpos hjob
  · intro rest (hat : s.main = _)
    rw [hat] at hmain
    exact hmain.2.2 hjob

/-- **`free_moves`** — it stays free as long as no press under it is let through. -/
theorem free_moves (hs : Free key s) (hnot : ¬ Accepts admins key s e) (h : Moves H admins s e s') :
    Free key s' := by
  cases h with
  | refuse => exact hs
  | leave | fail => exact ⟨hs.idle, nofun, nofun⟩
  | accept c d pending failed hfree =>
    refine ⟨hs.idle, fun rest hat => ?_, nofun⟩
    injection hat with hkey
    exact absurd ⟨hfree.1, hfree.2, hkey⟩ hnot
  | go k call rest hat hcall =>
    refine ⟨hs.idle, fun rest' hat' => ?_, nofun⟩
    injection hat' with hkey hrest
    have hzero := hs.handling _ (hkey ▸ hat)
    rw [submissions_cons] at hzero
    exact hrest ▸ Nat.eq_zero_of_add_eq_zero_right hzero
  | mark k call rest hat hcall =>
    have hne : key ≠ k := by
      rintro rfl
      have hzero := hs.handling _ hat
      rw [submissions_cons, if_pos hcall] at hzero
      nomatch hzero
    refine ⟨?_, nofun, fun rest' hat' => ?_⟩
    · rw [Finset.mem_insert, not_or]
      exact ⟨hne, hs.idle⟩
    · injection hat' with hkey
      exact hne hkey.symm
  | submit k rest hat =>
    refine ⟨hs.idle, fun rest' hat' => ?_, nofun⟩
    injection hat' with hkey
    exact absurd (hkey ▸ hat) (hs.submitting _)
  | advance => exact ⟨hs.idle, hs.handling, hs.submitting⟩
  | discard i job hget =>
    exact ⟨fun hmem => hs.idle (Finset.mem_of_mem_erase hmem), hs.handling, hs.submitting⟩

theorem oneJob_of_reaches (h : Reaches (panelStep H admins) Always .start s) : OneJob s :=
  h.invariant oneJob_start fun _ _ _ hs _ hstep => oneJob_moves hs (moves_of_step hstep)

/-- **`one_job_per_panel`** — in every run: no message has two unfinished tasks, one that has is busy, and
one whose task finishes is not busy until a press under it is let through. -/
theorem one_job_per_panel (h : Reaches (panelStep H admins) Always .start s) :
    (∀ key, s.jobs.countP (fun job => job.key = key) ≤ 1) ∧ (∀ job ∈ s.jobs, job.key ∈ s.busy) ∧
      ∀ i job s', s.jobs[i]? = some job → panelStep H admins s (.discard i) = some s' →
        ∀ t, Reaches (panelStep H admins) (fun r e => ¬ Accepts admins job.key r e) s' t →
          job.key ∉ t.busy := by
  have hs := oneJob_of_reaches h
  refine ⟨fun key => ?_, hs.busy, fun i job s' hget hstep t ht => ?_⟩
  · have hcount := List.nodup_iff_count_le_one.mp hs.nodup key
    rwa [count_map_key] at hcount
  · rw [panelStep, hget] at hstep
    split at hstep
    · next job' hjob' =>
      obtain rfl := Option.some.inj hjob'
      split at hstep
      · obtain rfl := Option.some.inj hstep
        have hfree : Free job.key t := ht.invariant (free_discard hs hget)
          fun _ _ _ hr hguard hstep => free_moves hr hguard (moves_of_step hstep)
        exact hfree.idle
      · nomatch hstep
    · nomatch hstep

/-- A console of a machine with one exit. -/
def quietConsole : Console where
  toPanel := extrasPanel []
  status := []
  dotStatus := []
  gfwlistShow := []
  portDescription _ := []

/-- The exit is switched, while the button is pressed once more. -/
def switching : List PanelEvent :=
  [.callback ⟨admin, some 1, lit "exit:us"⟩ quietConsole none none, .call false, .call false,
    .submit false, .call false, .callback ⟨admin, some 1, lit "exit:us"⟩ quietConsole none none,
    .take 0, .work 0 true]

theorem one_job_switching : ∃ s, run (panelStep plainBot [7]) .start switching = some s ∧
    s.jobs = [⟨(7, some 1), .leaving⟩] ∧
    (∀ key, s.jobs.countP (fun job => job.key = key) ≤ 1) ∧ (∀ job ∈ s.jobs, job.key ∈ s.busy) ∧
      ∀ i job s', s.jobs[i]? = some job → panelStep plainBot [7] s (.discard i) = some s' →
        ∀ t, Reaches (panelStep plainBot [7]) (fun r e => ¬ Accepts [7] job.key r e) s' t →
          job.key ∉ t.busy :=
  ⟨_, rfl, rfl, @one_job_per_panel plainBot [7] _ (@Reaches.of_run _ _ _ _ switching _ _ .init rfl)⟩

end Invariants

end ProxyGateway.Bot
