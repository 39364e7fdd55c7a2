/-
# ProxyGateway.Bot.Telegram — the connection that a thread keeps to the Telegram server

`tg` sends a request over the connection that its thread has kept from the last call, unless that was
idle for more than 20 s, and opens a new one otherwise; after a failure it drops the connection and
tries once more.  The timeout belongs to the connection: 70 s if it was opened for a `getUpdates`,
which the server may hold back for 50 s, and 15 s if it was opened for anything else.

A kept connection is used for whatever comes next, so a `getUpdates` soon after another method runs
with 15 s (`first_poll_on_short_timeout`; `main` begins that way).  All requests of a thread run with
their own timeout just where no call follows a call of the other kind, answered at most 20 s before
(`own_timeout_iff`).
-/
import ProxyGateway.Lang.Text
import Mathlib.Algebra.Order.Ring.Rat

namespace ProxyGateway.Bot

open ProxyGateway.Lang

/-! ## One attempt -/

/-- An `HTTPSConnection`. -/
structure Conn where
  timeout : Nat
  deriving DecidableEq, Repr

/-- A call of `conn.request`, with the timeout of `conn`. -/
structure Sent where
  method : Text
  timeout : Nat
  deriving DecidableEq, Repr

/-- `_TG_LOCAL`, and the requests that the thread has sent. -/
structure TgLocal where
  conn : Option Conn
  lastUsed : ℚ
  sent : List Sent

def TgLocal.start : TgLocal := ⟨none, 0, []⟩

/-- What an attempt can raise in: `conn.close()`, `HTTPSConnection(…)`, and all from `conn.request` on. -/
inductive TgStage where
  | closing
  | opening
  | requesting
  deriving DecidableEq, Repr

/-- What becomes of an attempt: the first step from `stage` on that is taken raises `e`, or the response
is read at `time` and `json.loads` turns it into a value or raises. -/
inductive Outcome (α : Type) where
  | raises (stage : TgStage) (e : Text)
  | answers (time : ℚ) (body : Except Text α)

/-- An attempt whose look at the clock says `now`. -/
structure Attempt (α : Type) where
  now : ℚ
  outcome : Outcome α

variable {α : Type}

def Outcome.atClosing : Outcome α → Option Text
  | .raises .closing e => some e
  | _ => none

def Outcome.atOpening : Outcome α → Option Text
  | .raises .closing e | .raises .opening e => some e
  | _ => none

def requestTimeout (method : Text) : Nat := if method = lit "getUpdates" then 70 else 15

/-- The `except` branch. -/
def TgLocal.drop (s : TgLocal) : TgLocal := { s with conn := none, lastUsed := 0 }

/-- From `conn.request` on. -/
def sendOn (c : Conn) (method : Text) (o : Outcome α) (s : TgLocal) : TgLocal × Except Text α :=
  let s : TgLocal := { s with sent := s.sent ++ [⟨method, c.timeout⟩] }
  match o with
  | .raises _ e => (s.drop, .error e)
  | .answers time (.ok r) => ({ s with lastUsed := time }, .ok r)
  | .answers _ (.error e) => (s.drop, .error e)

/-- From `if conn is None` on. -/
def sendRequest (method : Text) (o : Outcome α) (s : TgLocal) : TgLocal × Except Text α :=
  match s.conn with
  | some c => sendOn c method o s
  | none =>
    match o.atOpening with
    | some e => (s.drop, .error e)
    | none => sendOn ⟨requestTimeout method⟩ method o { s with conn := some ⟨requestTimeout method⟩ }

/-- The body of the loop in `tg`. -/
def tgAttempt (method : Text) (a : Attempt α) (s : TgLocal) : TgLocal × Except Text α :=
  if s.conn ≠ none ∧ a.now - s.lastUsed > 20 then
    match a.outcome.atClosing with
    | some e => (s.drop, .error e)
    | none => sendRequest method a.outcome { s with conn := none }
  else sendRequest method a.outcome s

/-- A call of `tg`, with what would become of each attempt.  The parameters of the request play no part. -/
structure TgCall (α : Type) where
  method : Text
  first : Attempt α
  second : Attempt α

/-- **`tg`** — an error stands for `{"ok": False, "error": …}`. -/
def tg (c : TgCall α) (s : TgLocal) : TgLocal × Except Text α :=
  match tgAttempt c.method c.first s with
  | (s', .ok r) => (s', .ok r)
  | (s', .error _) => tgAttempt c.method c.second s'

/-- The calls of a thread, one after the other. -/
def tgCalls (calls : List (TgCall α)) (s : TgLocal) : TgLocal :=
  calls.foldl (fun s c => (tg c s).1) s

/-! ## The timeout of each request -/

/-- A request runs with the timeout that its method is given. -/
def Sent.OwnTimeout (r : Sent) : Prop :=
  (r.method = lit "getUpdates" → r.timeout = 70) ∧ (r.method ≠ lit "getUpdates" → r.timeout = 15)

/-- When the response of an attempt came. -/
def Outcome.time : Outcome α → Option ℚ
  | .answers time (.ok _) => some time
  | _ => none

/-- When the response of a call came. -/
def TgCall.time (c : TgCall α) : Option ℚ :=
  match c.first.outcome.time with
  | some t => some t
  | none => c.second.outcome.time

/-- **`KeepsKind`** — if the call `d` comes at most 20 s after the response of `c`, they are both
`getUpdates` or both something else. -/
def KeepsKind (c d : TgCall α) : Prop :=
  ∀ t, c.time = some t → d.first.now - t ≤ 20 →
    (c.method = lit "getUpdates" ↔ d.method = lit "getUpdates")

/-- What an attempt leaves to the next: the connection that was used, if its response came. -/
structure Keeps (c : Conn) (time : Option ℚ) (s : TgLocal) : Prop where
  used : ∀ t, time = some t → s.conn = some c ∧ s.lastUsed = t
  dropped : time = none → s.conn = none

/-- All requests so far ran with their own timeout. -/
def OwnTimeouts (s : TgLocal) : Prop := ∀ r ∈ s.sent, r.OwnTimeout

section Timeouts

variable {s : TgLocal} {c : Conn} {method : Text} {a : Attempt α} {o : Outcome α}

theorem ownTimeout_iff {t : Nat} : (⟨method, t⟩ : Sent).OwnTimeout ↔ t = requestTimeout method := by
  unfold Sent.OwnTimeout requestTimeout
  split
  · next h => exact ⟨fun hown => hown.1 h, fun ht => ⟨fun _ => ht, fun hne => absurd h hne⟩⟩
  · next h => exact ⟨fun hown => hown.2 h, fun ht => ⟨fun heq => absurd heq h, fun _ => ht⟩⟩

theorem requestTimeout_eq_iff {m m' : Text} : requestTimeout m = requestTimeout m' ↔
    (m = lit "getUpdates" ↔ m' = lit "getUpdates") := by
  unfold requestTimeout
  split <;> split <;> simp [*]

/-! ### What an attempt does -/

theorem sendOn_sent (c : Conn) (method : Text) (o : Outcome α) (s : TgLocal) :
    (sendOn c method o s).1.sent = s.sent ++ [⟨method, c.timeout⟩] := by
  unfold sendOn
  split <;> rfl

theorem sendOn_keeps (hc : s.conn = some c) : Keeps c o.time (sendOn c method o s).1 := by
  unfold sendOn
  split
  · exact ⟨nofun, fun _ => rfl⟩
  · refine ⟨fun t ht => ⟨hc, ?_⟩, nofun⟩
    exact Option.some.inj ht
  · exact ⟨nofun, fun _ => rfl⟩

theorem sendOn_isOk (c : Conn) (method : Text) (o : Outcome α) (s : TgLocal) :
    (sendOn c method o s).2.isOk = o.time.isSome := by
  unfold sendOn
  split <;> rfl

theorem sendOn_ok {r : α} (h : (sendOn c method o s).2 = .ok r) : ∃ time, o = .answers time (.ok r) := by
  unfold sendOn at h
  split at h
  · nomatch h
  · next time r' =>
    obtain rfl := Except.ok.inj h
    exact ⟨time, rfl⟩
  · nomatch h

theorem time_of_atOpening {e : Text} (h : o.atOpening = some e) : o.time = none := by
  unfold Outcome.atOpening at h
  split at h
  · rfl
  · rfl
  · nomatch h

theorem time_of_atClosing {e : Text} (h : o.atClosing = some e) : o.time = none := by
  unfold Outcome.atClosing at h
  split at h
  · rfl
  · nomatch h

/-- A connection that was used at most 20 s ago is used again. -/
theorem tgAttempt_reuses (hc : s.conn = some c) (hlive : a.now - s.lastUsed ≤ 20) :
    tgAttempt method a s = sendOn c method a.outcome s := by
  have hnot : ¬ (s.conn ≠ none ∧ a.now - s.lastUsed > 20) := fun h => absurd h.2 (not_lt.mpr hlive)
  rw [tgAttempt, if_neg hnot, sendRequest, hc]

theorem sendRequest_opens (hc : s.conn = none) :
    sendRequest method o s =
        sendOn ⟨requestTimeout method⟩ method o { s with conn := some ⟨requestTimeout method⟩ } ∨
      o.time = none ∧ ∃ e, sendRequest method o s = (s.drop, .error e) := by
  rw [sendRequest, hc]
  cases hopen : o.atOpening with
  | none => exact .inl rfl
  | some e => exact .inr ⟨time_of_atOpening hopen, e, rfl⟩

/-- Otherwise it opens a new one, or fails before it has. -/
theorem tgAttempt_opens (method : Text) (h : ∀ c, s.conn = some c → ¬ a.now - s.lastUsed ≤ 20) :
    tgAttempt method a s = sendOn ⟨requestTimeout method⟩ method a.outcome
        { s with conn := some ⟨requestTimeout method⟩ } ∨
      a.outcome.time = none ∧ ∃ e, tgAttempt method a s = (s.drop, .error e) := by
  cases hc : s.conn with
  | none =>
    rw [tgAttempt, if_neg fun hidle => hidle.1 hc]
    exact sendRequest_opens hc
  | some c =>
    have hidle : s.conn ≠ none ∧ a.now - s.lastUsed > 20 :=
      ⟨hc ▸ Option.some_ne_none c, lt_of_not_ge (h c hc)⟩
    rw [tgAttempt, if_pos hidle]
    cases hclose : a.outcome.atClosing with
    | some e => exact .inr ⟨time_of_atClosing hclose, e, rfl⟩
    | none => exact sendRequest_opens (s := { s with conn := none }) rfl

/-- What an attempt returns is what the response says. -/
theorem tgAttempt_ok {r : α} (h : (tgAttempt method a s).2 = .ok r) :
    ∃ time, a.outcome = .answers time (.ok r) := by
  by_cases hlive : ∃ c, s.conn = some c ∧ a.now - s.lastUsed ≤ 20
  · obtain ⟨c, hc, hlive⟩ := hlive
    rw [tgAttempt_reuses hc hlive] at h
    exact sendOn_ok h
  · rcases tgAttempt_opens method fun c hc hle => hlive ⟨c, hc, hle⟩ with heq | ⟨-, e, heq⟩
    · rw [heq] at h
      exact sendOn_ok h
    · rw [heq] at h
      nomatch h

/-- The connection that the next attempt would use again, if any, has the timeout of `method`. -/
def Fits (method : Text) (a : Attempt α) (s : TgLocal) : Prop :=
  ∀ c, s.conn = some c → a.now - s.lastUsed ≤ 20 → c.timeout = requestTimeout method

theorem fits_of_conn (method : Text) (a : Attempt α) (h : s.conn = none) : Fits method a s :=
  fun _ hc => nomatch h.symm.trans hc

/-- **`tgAttempt_own`** — a fitting attempt sends with the timeout of its method. -/
theorem tgAttempt_own (hfits : Fits method a s) (hown : OwnTimeouts s) :
    OwnTimeouts (tgAttempt method a s).1 ∧
      Keeps ⟨requestTimeout method⟩ a.outcome.time (tgAttempt method a s).1 ∧
      (tgAttempt method a s).2.isOk = a.outcome.time.isSome := by
  have hsend : ∀ s : TgLocal, OwnTimeouts s → s.conn = some ⟨requestTimeout method⟩ →
      OwnTimeouts (sendOn ⟨requestTimeout method⟩ method a.outcome s).1 ∧
        Keeps ⟨requestTimeout method⟩ a.outcome.time
          (sendOn ⟨requestTimeout method⟩ method a.outcome s).1 ∧
        (sendOn ⟨requestTimeout method⟩ method a.outcome s).2.isOk = a.outcome.time.isSome := by
    intro s hs hc
    refine ⟨fun r hr => ?_, sendOn_keeps hc, sendOn_isOk ..⟩
    rw [sendOn_sent] at hr
    rcases List.mem_append.mp hr with hr | hr
    · exact hs r hr
    · rw [List.mem_singleton.mp hr]
      exact ownTimeout_iff.mpr rfl
  by_cases hlive : ∃ c, s.conn = some c ∧ a.now - s.lastUsed ≤ 20
  · obtain ⟨⟨timeout⟩, hc, hlive⟩ := hlive
    obtain rfl : timeout = requestTimeout method := hfits _ hc hlive
    rw [tgAttempt_reuses hc hlive]
    exact hsend s hown hc
  · rcases tgAttempt_opens method fun c hc hle => hlive ⟨c, hc, hle⟩ with heq | ⟨htime, e, heq⟩
    · rw [heq]
      exact hsend _ hown rfl
    · rw [heq, htime]
      exact ⟨hown, ⟨nofun, fun _ => rfl⟩, rfl⟩

theorem sent_sendRequest (s : TgLocal) : s.sent <+: (sendRequest method o s).1.sent := by
  rw [sendRequest]
  split
  · exact sendOn_sent .. ▸ List.prefix_append ..
  · split
    · exact List.prefix_rfl
    · exact sendOn_sent .. ▸ List.prefix_append ..

theorem sent_tgAttempt (method : Text) (a : Attempt α) (s : TgLocal) :
    s.sent <+: (tgAttempt method a s).1.sent := by
  rw [tgAttempt]
  split
  · split
    · exact List.prefix_rfl
    · exact sent_sendRequest { s with conn := none }
  · exact sent_sendRequest s

/-! ### Calls, one after the other -/

/-- **`tg_own`** — so does a call, whose second attempt finds no connection. -/
theorem tg_own {d : TgCall α} (hfits : Fits d.method d.first s) (hown : OwnTimeouts s) :
    OwnTimeouts (tg d s).1 ∧ Keeps ⟨requestTimeout d.method⟩ d.time (tg d s).1 := by
  obtain ⟨hfirst, hkeeps, hok⟩ := tgAttempt_own hfits hown
  rw [tg, TgCall.time]
  split
  · next s' r heq =>
    rw [heq] at hfirst hkeeps hok
    obtain ⟨t, ht⟩ := Option.isSome_iff_exists.mp hok.symm
    rw [ht] at hkeeps ⊢
    exact ⟨hfirst, hkeeps⟩
  · next s' e heq =>
    -- the failure has dropped the connection
    rw [heq] at hfirst hkeeps hok
    have htime := Option.isSome_eq_false_iff.mp hok.symm
    rw [Option.isNone_iff_eq_none.mp htime] at hkeeps ⊢
    have hsecond := tgAttempt_own (fits_of_conn d.method d.second (hkeeps.dropped rfl)) hfirst
    exact ⟨hsecond.1, hsecond.2.1⟩

theorem sent_tg (d : TgCall α) (s : TgLocal) : s.sent <+: (tg d s).1.sent := by
  have hfirst := sent_tgAttempt d.method d.first s
  rw [tg]
  split
  · next heq =>
    rw [heq] at hfirst
    exact hfirst
  · next heq =>
    rw [heq] at hfirst
    exact hfirst.trans (sent_tgAttempt _ _ _)

theorem sent_tgCalls (calls : List (TgCall α)) (s : TgLocal) :
    s.sent <+: (tgCalls calls s).sent := by
  induction calls generalizing s with
  | nil => exact List.prefix_rfl
  | cons d calls ih => exact (sent_tg d s).trans (ih _)

/-- A call that does not fit sends with another timeout. -/
theorem not_own_tg {d : TgCall α} (hc : s.conn = some c) (hlive : d.first.now - s.lastUsed ≤ 20)
    (hne : c.timeout ≠ requestTimeout d.method) : ¬ OwnTimeouts (tg d s).1 := by
  have hmem : (⟨d.method, c.timeout⟩ : Sent) ∈ (tgAttempt d.method d.first s).1.sent := by
    rw [tgAttempt_reuses hc hlive, sendOn_sent]
    exact List.mem_append_right _ (List.mem_singleton_self _)
  have hin : (⟨d.method, c.timeout⟩ : Sent) ∈ (tg d s).1.sent := by
    rw [tg]
    split
    · next heq =>
      rw [heq] at hmem
      exact hmem
    · next heq =>
      rw [heq] at hmem
      exact (sent_tgAttempt _ _ _).subset hmem
  exact fun hown => hne (ownTimeout_iff.mp (hown _ hin))

/-- From a call on. -/
theorem own_tgCalls_iff (c : TgCall α) (calls : List (TgCall α))
    (hkeeps : Keeps ⟨requestTimeout c.method⟩ c.time s) (hown : OwnTimeouts s) :
    OwnTimeouts (tgCalls calls s) ↔ (c :: calls).IsChain KeepsKind := by
  induction calls generalizing c s with
  | nil => exact ⟨fun _ => .singleton c, fun _ => hown⟩
  | cons d calls ih =>
    rw [List.isChain_cons_cons]
    by_cases hkind : KeepsKind c d
    · -- a connection that is used again was opened for a method of the same kind
      have hfits : Fits d.method d.first s := by
        intro conn hconn hlive
        cases ht : c.time with
        | none => exact nomatch (hkeeps.dropped ht).symm.trans hconn
        | some t =>
          obtain ⟨hused, hlast⟩ := hkeeps.used t ht
          obtain rfl := Option.some.inj (hused.symm.trans hconn)
          exact requestTimeout_eq_iff.mpr (hkind t ht (hlast ▸ hlive))
      obtain ⟨hnext, hkept⟩ := tg_own hfits hown
      rw [and_iff_right hkind]
      exact ih d hkept hnext
    · -- the request on the wrong connection stays among those sent
      refine iff_of_false (fun hall => ?_) fun hchain => hkind hchain.1
      simp only [KeepsKind, not_forall] at hkind
      obtain ⟨t, ht, hgap, hne⟩ := hkind
      obtain ⟨hused, hlast⟩ := hkeeps.used t ht
      have hbad := not_own_tg (d := d) hused (hlast ▸ hgap) (mt requestTimeout_eq_iff.mp hne)
      exact hbad fun r hr => hall r ((sent_tgCalls calls _).subset hr)

/-- **`own_timeout_iff`** — all requests of a thread run with their own timeout if and only if no call
comes at most 20 s after the response of a call of the other kind. -/
theorem own_timeout_iff (calls : List (TgCall α)) :
    OwnTimeouts (tgCalls calls .start) ↔ calls.IsChain KeepsKind := by
  cases calls with
  | nil => exact ⟨fun _ => .nil, fun _ => nofun⟩
  | cons d calls =>
    obtain ⟨hown, hkeeps⟩ := tg_own (d := d) (s := .start) (fits_of_conn _ _ rfl) nofun
    exact own_tgCalls_iff d calls hkeeps hown

/-- What `set_commands` calls, and the first `getUpdates` of `main`. -/
def setupMethods : List Text :=
  List.replicate 4 (lit "deleteMyCommands") ++ List.replicate 2 (lit "setMyCommands") ++
    [lit "setChatMenuButton", lit "getUpdates"]

/-- Each of them is answered at once. -/
def setupCalls : List (TgCall Unit) :=
  setupMethods.map fun method => ⟨method, ⟨1, .answers 1 (.ok ())⟩, ⟨1, .raises .requesting []⟩⟩

/-- **`first_poll_on_short_timeout`** — the first long poll of `main` runs with 15 s. -/
theorem first_poll_on_short_timeout :
    ⟨lit "getUpdates", 15⟩ ∈ (tgCalls setupCalls .start).sent ∧
      ¬ OwnTimeouts (tgCalls setupCalls .start) := by
  have hsent : (tgCalls setupCalls .start).sent = setupMethods.map (⟨·, 15⟩) := by
    with_unfolding_all rfl
  have hmem : (⟨lit "getUpdates", 15⟩ : Sent) ∈ (tgCalls setupCalls .start).sent := by
    rw [hsent]
    exact List.mem_map_of_mem (List.mem_append_right _ (.tail _ (.head _)))
  exact ⟨hmem, fun hall => absurd ((hall _ hmem).1 rfl) (by decide)⟩

end Timeouts

end ProxyGateway.Bot
