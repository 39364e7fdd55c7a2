/-
# ProxyGateway.Race.TcpService — `handleTCPConnection`: one frame in, one frame out

The TCP side of the race proxy reads length-prefixed queries off one connection and writes one
length-prefixed answer for each.  Nothing but the lengths keeps the two directions in step: a length
that is off by one would shift every later query.

`queries` is the meaning of a received stream, as a list of messages; `replies` is what a service that
answers in order would write.  `handleTCPConnection_written` says that the loop writes exactly that, by
induction over the stream, and the theorem about the frames is read off it.  The race itself is a
parameter: its outcome on the i-th query of the connection.
-/
import ProxyGateway.Race.Query

namespace ProxyGateway.Race

open ProxyGateway.Lang
open ProxyGateway.Quic (Bytes beNat beBytes)

/-! ## The loop -/

/-- The log lines of `handleTCPConnection`. -/
inductive LogLine where
  | readLength (e : ReadError)
  | tooShort (queryLen : Nat)
  | readQuery (e : ReadError)
  | raceFailed (e : RaceError)
  | tooLarge (responseLen : Nat)
  | writeFailed (e : String)
  deriving DecidableEq, Repr

/-- What one connection did: its completed writes, its log, and whether it brought the program
down. -/
structure Served where
  written : List Bytes
  log : List LogLine
  panicked : Bool
  deriving DecidableEq, Repr

/-- Lines and writes that precede the rest of the loop. -/
def Served.after (s : Served) (written : List Bytes) (log : List LogLine) : Served :=
  { s with written := written ++ s.written, log := log ++ s.log }

/-- `return`, with the last log lines. -/
def closed (log : List LogLine) : Served := ⟨[], log, false⟩

/-- The response to one query, as the loop computes it: from the race, or as SERVFAIL. -/
def respond (outcome : Except RaceError Bytes) (query : Bytes) : Scan Bytes × List LogLine :=
  match outcome with
  | .ok response => (.ok response, [])
  | .error e => (dnsErrorResponse query 2, [.raceFailed e])

/-- What follows once a query was read: its response is framed and written, and the loop goes on;
`writeError` is the error of this `conn.Write`, if it has one. -/
def serveQuery (outcome : Except RaceError Bytes) (writeError : Option String) (query : Bytes)
    (next : Served) : Served :=
  match respond outcome query with
  | (.reject, log) => closed log
  | (.panic, log) => ⟨[], log, true⟩
  | (.ok response, log) =>
    if 65535 < response.length then closed (log ++ [.tooLarge response.length])
    else
      match writeError with
      | some e => closed (log ++ [.writeFailed e])
      | none => next.after [framed response] log

/-- **`handleTCPConnection`** from its `i`-th query on.  `race` gives the outcome of each call of
`raceQuery`, `write` the error of each `conn.Write`, if it has one. -/
def handleTCPConnection (race : Nat → Bytes → Except RaceError Bytes) (write : Nat → Option String)
    (i : Nat) (conn : Conn) : Served :=
  match _h₁ : readFull 2 conn with
  | (.error e, _) =>
    if e = .eof ∨ e = .unexpectedEOF then closed [] else closed [.readLength e]
  | (.ok lengthBytes, conn₁) =>
    if beNat lengthBytes < 12 then closed [.tooShort (beNat lengthBytes)]
    else
      match _h₂ : readFull (beNat lengthBytes) conn₁ with
      | (.error e, _) => closed [.readQuery e]
      | (.ok query, conn₂) =>
        serveQuery (race i query) (write i) query (handleTCPConnection race write (i + 1) conn₂)
termination_by conn.stream.length
decreasing_by
  obtain ⟨hle, -, hrest⟩ := readFull_eq_ok _h₁
  obtain ⟨-, -, hrest'⟩ := readFull_eq_ok _h₂
  rw [hrest', hrest, List.length_drop, List.length_drop]
  omega

/-! ## What a stream says -/

/-- One message at the front of a stream, with what follows it: a length of at least 12 and that many
bytes. -/
def nextQuery (stream : Bytes) : Option (Bytes × Bytes) :=
  let n := beNat (stream.take 2)
  if stream.length < 2 ∨ n < 12 ∨ (stream.drop 2).length < n then none
  else some ((stream.drop 2).take n, (stream.drop 2).drop n)

theorem nextQuery_lt {stream query rest : Bytes} (h : nextQuery stream = some (query, rest)) :
    rest.length < stream.length := by
  simp only [nextQuery] at h
  split at h
  · nomatch h
  · next hc =>
    obtain ⟨-, rfl⟩ := Prod.mk.inj (Option.some.inj h)
    simp only [List.length_drop]
    omega

/-- **`queries`** — the queries of a stream, up to the first that is malformed or truncated. -/
def queries (stream : Bytes) : List Bytes :=
  match _h : nextQuery stream with
  | none => []
  | some (query, rest) => query :: queries rest
termination_by stream.length
decreasing_by exact nextQuery_lt _h

/-- The answer to the `i`-th query: the winner of the race, else a SERVFAIL if one can be made. -/
def answer (race : Nat → Bytes → Except RaceError Bytes) (i : Nat) (query : Bytes) : Option Bytes :=
  match race i query with
  | .ok response => some response
  | .error _ =>
    match dnsErrorResponse query 2 with
    | .ok response => some response
    | _ => none

/-- **`replies`** — the answers to a list of queries, up to the first that has none. -/
def replies (race : Nat → Bytes → Except RaceError Bytes) : Nat → List Bytes → List Bytes
  | _, [] => []
  | i, query :: rest =>
    match answer race i query with
    | some response => response :: replies race (i + 1) rest
    | none => []

/-! ## The loop writes the replies -/

section Loop

variable {race : Nat → Bytes → Except RaceError Bytes} {write : Nat → Option String}

/-- Without a further query the loop ends and has written nothing more. -/
theorem handleTCPConnection_none {i : Nat} {conn : Conn} (h : nextQuery conn.stream = none) :
    ∃ log, handleTCPConnection race write i conn = closed log := by
  unfold handleTCPConnection
  split
  · split
    · exact ⟨_, rfl⟩
    · exact ⟨_, rfl⟩
  · next lengthBytes conn₁ h₁ =>
    obtain ⟨hle, rfl, hrest⟩ := readFull_eq_ok h₁
    split
    · exact ⟨_, rfl⟩
    · next hlen =>
      split
      · exact ⟨_, rfl⟩
      · next query conn₂ h₂ =>
        obtain ⟨hle₂, -, -⟩ := readFull_eq_ok h₂
        simp only [nextQuery] at h
        split at h
        · next hc => rw [hrest] at hle₂; omega
        · nomatch h

/-- A further query is served, and the loop goes on behind it. -/
theorem handleTCPConnection_some {i : Nat} {conn : Conn} {query rest : Bytes}
    (h : nextQuery conn.stream = some (query, rest)) :
    ∃ conn₂, conn₂.stream = rest ∧ handleTCPConnection race write i conn =
      serveQuery (race i query) (write i) query
        (handleTCPConnection race write (i + 1) conn₂) := by
  simp only [nextQuery] at h
  split at h
  · nomatch h
  · next hc =>
    obtain ⟨rfl, rfl⟩ := Prod.mk.inj (Option.some.inj h)
    rw [handleTCPConnection]
    split
    · next e conn₁ h₁ =>
      have hok := (readFull_ok (show 2 ≤ conn.stream.length by omega)).1
      rw [h₁] at hok
      nomatch hok
    · next lengthBytes conn₁ h₁ =>
      obtain ⟨-, rfl, hrest⟩ := readFull_eq_ok h₁
      rw [if_neg (by omega)]
      split
      · next e conn₂ h₂ =>
        have hok := (readFull_ok (n := beNat (conn.stream.take 2)) (c := conn₁)
          (by rw [hrest]; omega)).1
        rw [h₂] at hok
        nomatch hok
      · next query conn₂ h₂ =>
        obtain ⟨-, rfl, hrest₂⟩ := readFull_eq_ok h₂
        rw [hrest] at hrest₂ ⊢
        exact ⟨conn₂, hrest₂, rfl⟩

/-- What raceQuery promises about its outcomes. -/
def Fitting (race : Nat → Bytes → Except RaceError Bytes) : Prop :=
  ∀ i query response, race i query = .ok response →
    validDNSResponse query response = true ∧ response.length ≤ 65535

/-- Every answer passes the test of answers and fits into a frame. -/
theorem answer_fits (hrace : Fitting race) {i : Nat} {query response : Bytes}
    (hlen : query.length ≤ 65535) (h : answer race i query = some response) :
    validDNSResponse query response = true ∧ response.length ≤ 65535 := by
  unfold answer at h
  split at h
  · next r hr =>
    obtain rfl := Option.some.inj h
    exact hrace i query r hr
  · split at h
    · next r hr =>
      obtain rfl := Option.some.inj h
      obtain ⟨hle, hvalid⟩ := (dnsErrorResponse_safe query 2).of_eq_ok hr
      exact ⟨hvalid, Nat.le_trans hle hlen⟩
    · nomatch h

/-- One query is served with its answer, or ends the loop when it has none. -/
theorem serveQuery_eq (hrace : Fitting race) {i : Nat} {query : Bytes} {next : Served}
    (hlen : query.length ≤ 65535) (hnext : next.panicked = false) :
    (serveQuery (race i query) none query next).panicked = false ∧
    (serveQuery (race i query) none query next).written =
      match answer race i query with
      | some response => framed response :: next.written
      | none => [] := by
  have hfits : ∀ response, answer race i query = some response → response.length ≤ 65535 :=
    fun _ h => (answer_fits hrace hlen h).2
  unfold serveQuery respond
  unfold answer at hfits ⊢
  cases hr : race i query with
  | ok response =>
    simp only [hr] at hfits ⊢
    rw [if_neg (Nat.not_lt.mpr (hfits response rfl))]
    exact ⟨hnext, rfl⟩
  | error e =>
    simp only [hr] at hfits ⊢
    cases hd : dnsErrorResponse query 2 with
    | ok response =>
      simp only [hd] at hfits ⊢
      rw [if_neg (Nat.not_lt.mpr (hfits response rfl))]
      exact ⟨hnext, rfl⟩
    | reject => exact ⟨rfl, rfl⟩
    | panic => exact absurd hd (dnsErrorResponse_safe query 2).ne_panic

/-- The messages of a stream are as long as their two length bytes can say. -/
theorem nextQuery_length {stream query rest : Bytes} (h : nextQuery stream = some (query, rest)) :
    12 ≤ query.length ∧ query.length ≤ 65535 := by
  simp only [nextQuery] at h
  split at h
  · nomatch h
  · next hc =>
    obtain ⟨rfl, -⟩ := Prod.mk.inj (Option.some.inj h)
    have hlt : beNat (stream.take 2) < 256 ^ 2 := by
      refine Nat.lt_of_lt_of_le (ProxyGateway.Quic.beNat_lt _)
        (Nat.pow_le_pow_right (by decide) ?_)
      rw [List.length_take]
      exact Nat.min_le_left _ _
    rw [List.length_take]
    omega

theorem mem_queries_length {stream query : Bytes} (h : query ∈ queries stream) :
    12 ≤ query.length ∧ query.length ≤ 65535 := by
  induction stream using queries.induct with
  | case1 stream hnext =>
    rw [queries] at h
    split at h
    · nomatch h
    · next hsome => rw [hnext] at hsome; nomatch hsome
  | case2 stream query' rest hnext ih =>
    rw [queries] at h
    split at h
    · nomatch h
    · next q r hsome =>
      obtain ⟨rfl, rfl⟩ : query' = q ∧ rest = r := by simpa [hnext] using hsome
      rcases List.mem_cons.mp h with rfl | hmem
      · exact nextQuery_length hnext
      · exact ih hmem

/-- **The loop writes the replies.**  One frame for each reply, in order, and nothing else; whatever
the pieces in which the stream arrives. -/
theorem handleTCPConnection_written (hrace : Fitting race) (hwrite : ∀ i, write i = none) (i : Nat)
    (conn : Conn) :
    (handleTCPConnection race write i conn).panicked = false ∧
      (handleTCPConnection race write i conn).written =
        (replies race i (queries conn.stream)).map framed := by
  -- strong induction on what is left to read
  induction hn : conn.stream.length using Nat.strong_induction_on generalizing i conn with
  | _ n ih =>
    rw [queries]
    split
    · next hnone =>
      obtain ⟨log, hlog⟩ := @handleTCPConnection_none race write i conn hnone
      rw [hlog]
      exact ⟨rfl, rfl⟩
    · next query rest hsome =>
      obtain ⟨conn₂, rfl, heq⟩ := @handleTCPConnection_some race write i conn query rest hsome
      obtain ⟨hquiet, hwritten⟩ := ih conn₂.stream.length (hn ▸ nextQuery_lt hsome) (i + 1) conn₂ rfl
      obtain ⟨hquiet', hwritten'⟩ := serveQuery_eq hrace (i := i) (nextQuery_length hsome).2 hquiet
      rw [heq, hwrite i]
      refine ⟨hquiet', ?_⟩
      rw [hwritten', replies]
      cases answer race i query with
      | some response => rw [hwritten]; rfl
      | none => rfl

/-- The replies answer the queries one by one. -/
theorem replies_get {qs : List Bytes} {i k : Nat} {r : Bytes}
    (hr : (replies race i qs)[k]? = some r) :
    ∃ q, qs[k]? = some q ∧ answer race (i + k) q = some r := by
  induction qs generalizing i k with
  | nil => nomatch hr
  | cons query rest ih =>
    rw [replies] at hr
    split at hr
    · next response hresponse =>
      cases k with
      | zero =>
        obtain rfl : response = r := by simpa using hr
        exact ⟨query, rfl, hresponse⟩
      | succ k =>
        obtain ⟨q, hq, ha⟩ := ih (by simpa using hr)
        exact ⟨q, by simpa using hq, by rwa [Nat.add_right_comm] at ha⟩
    · nomatch hr

/-- There is a `k`-th reply when all queries up to the `k`-th have an answer. -/
theorem lt_replies_length {qs : List Bytes} {i k : Nat}
    (h : ∀ j ≤ k, ∃ q, qs[j]? = some q ∧ (answer race (i + j) q).isSome) :
    k < (replies race i qs).length := by
  induction qs generalizing i k with
  | nil =>
    obtain ⟨q, hq, -⟩ := h 0 (Nat.zero_le k)
    nomatch hq
  | cons query rest ih =>
    obtain ⟨q, hq, hsome⟩ := h 0 (Nat.zero_le k)
    obtain rfl : query = q := by simpa using hq
    obtain ⟨response, hresponse⟩ := Option.isSome_iff_exists.mp hsome
    rw [Nat.add_zero] at hresponse
    rw [replies, hresponse, List.length_cons]
    cases k with
    | zero => exact Nat.succ_pos _
    | succ k =>
      refine Nat.succ_lt_succ (ih fun j hj => ?_)
      obtain ⟨q, hq, ha⟩ := h (j + 1) (Nat.succ_le_succ hj)
      exact ⟨q, by simpa using hq, by rwa [Nat.add_right_comm]⟩

theorem lt_replies_length_iff {qs : List Bytes} {k : Nat} :
    k < (replies race 0 qs).length ↔
      ∀ j ≤ k, ∃ q, qs[j]? = some q ∧ (answer race j q).isSome := by
  constructor
  · intro hk j hj
    obtain ⟨q, hq, ha⟩ := replies_get (List.getElem?_eq_getElem (Nat.lt_of_le_of_lt hj hk))
    rw [Nat.zero_add] at ha
    exact ⟨q, hq, by rw [ha]; rfl⟩
  · intro h
    refine lt_replies_length fun j hj => ?_
    rw [Nat.zero_add]
    exact h j hj

/-- **In order and in frame.**  What is written is a sequence of frames, one for each query up to the
first that is malformed, truncated or has no answer; the `k`-th frame carries an answer to the `k`-th
query of the stream. -/
theorem tcp_service_in_frame (race : Nat → Bytes → Except RaceError Bytes)
    (write : Nat → Option String) (conn : Conn) (hrace : Fitting race)
    (hwrite : ∀ i, write i = none) :
    ∃ rs : List Bytes, (handleTCPConnection race write 0 conn).written = rs.map framed ∧
      (∀ (k : Nat) (r : Bytes), rs[k]? = some r → ∃ q : Bytes, (queries conn.stream)[k]? = some q ∧
        12 ≤ r.length ∧ r.length ≤ 65535 ∧ beNat ((framed r).take 2) = r.length ∧
        (framed r).drop 2 = r ∧ QR r ∧ r.take 2 = q.take 2) ∧
      (∀ k, k < rs.length ↔
        ∀ j ≤ k, ∃ q : Bytes, (queries conn.stream)[j]? = some q ∧ (answer race j q).isSome) := by
  refine ⟨_, (handleTCPConnection_written hrace hwrite 0 conn).2, fun k r hr => ?_,
    fun k => lt_replies_length_iff⟩
  obtain ⟨q, hq, ha⟩ := replies_get hr
  have hlen := mem_queries_length (List.mem_of_getElem? hq)
  obtain ⟨hvalid, hfit⟩ := answer_fits hrace hlen.2 ha
  obtain ⟨-, h12, h0, h1, hqr⟩ := (validDNSResponse_iff q r).mp hvalid
  refine ⟨q, hq, h12, hfit, framed_header hfit, framed_drop r, hqr, ?_⟩
  have hid : ∀ n : Nat, (r.take 2)[n]? = (q.take 2)[n]? := by
    intro n
    match n with
    | 0 => simpa using h0
    | 1 => simpa using h1
    | n + 2 => simp
  exact List.ext_getElem? hid

end Loop

/-- A query with one question, for the root. -/
def rootQuery (id : UInt8) : Bytes := [0, id, 1, 0, 0, 1, 0, 0, 0, 0, 0, 0, 0, 0, 1, 0, 1]

/-- Two queries in odd pieces, then a third that is cut short. -/
def twoAndAHalf : Conn where
  pieces := [[0], [17] ++ rootQuery 1 ++ [0, 17, 0], [], (rootQuery 2).drop 1 ++ [0, 17, 0, 3]]
  ending := .eof

/-- The race is won on the first query and lost on every other. -/
def oneWon (_ : Nat) (query : Bytes) : Except RaceError Bytes :=
  if query = rootQuery 1 then .ok [0, 1, 0x81, 0x80, 0, 0, 0, 0, 0, 0, 0, 0] else .error .timedOut

theorem tcp_service_in_frame_two :
    ∃ rs : List Bytes,
      (handleTCPConnection oneWon (fun _ => none) 0 twoAndAHalf).written = rs.map framed ∧
      ∀ (k : Nat) (r : Bytes), rs[k]? = some r → ∃ q : Bytes,
        (queries twoAndAHalf.stream)[k]? = some q ∧ 12 ≤ r.length ∧ r.take 2 = q.take 2 := by
  have hfitting : Fitting oneWon := by
    intro i query response h
    unfold oneWon at h
    split at h
    · next hq =>
      subst hq
      obtain rfl := Except.ok.inj h
      decide
    · nomatch h
  obtain ⟨rs, hwritten, hreplies, -⟩ :=
    tcp_service_in_frame oneWon (fun _ => none) twoAndAHalf hfitting (fun _ => rfl)
  refine ⟨rs, hwritten, fun k r hr => ?_⟩
  obtain ⟨q, hq, h12, -, -, -, -, hid⟩ := hreplies k r hr
  exact ⟨q, hq, h12, hid⟩

/-- The service behind `raceQuery` itself: its outcomes are fitting. -/
theorem fitting_of_races {A : Type} {race : Nat → Bytes → Except RaceError Bytes}
    (h : ∀ i query, ∃ (p : Call A) (st : State A), p.query = query ∧
      Logic.Reaches (step p) Logic.Always (start p) st ∧ st.main = .returned (race i query)) :
    Fitting race := by
  intro i query response hok
  obtain ⟨p, st, rfl, hreach, hmain⟩ := h i query
  exact fits_of_returned hreach (hok ▸ hmain)

end ProxyGateway.Race
