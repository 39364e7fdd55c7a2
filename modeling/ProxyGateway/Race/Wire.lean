/-
# ProxyGateway.Race.Wire — what the DNS race proxy reads and writes

The functions below `raceQuery` and `handleTCPConnection`: reading an exact number of bytes from a
connection that delivers them in pieces, the two-byte length in front of a DNS message over TCP, the
two ways to ask one upstream, the test of an answer, and the SERVFAIL that is made from a query.

A connection is the list of pieces it will still deliver and the error that follows them.
`readFull_eq` says that the pieces do not matter: a read takes the front of their concatenation, or
fails because it is too short.  Everything after this module argues about the concatenation.
-/
import ProxyGateway.Quic.Varint
import Mathlib.Tactic.Ring

namespace ProxyGateway.Race

open ProxyGateway.Lang
open ProxyGateway.Quic (Bytes beNat beBytes)

/-! ## Connections -/

/-- What a read ends with when there is nothing left to read. -/
inductive ReadError where
  | eof
  | unexpectedEOF
  | other (text : String)
  deriving DecidableEq, Repr

/-- The receiving side of a `net.Conn`.  A piece may be empty: a read may bring nothing. -/
structure Conn where
  pieces : List Bytes
  ending : ReadError
  deriving DecidableEq, Repr

/-- All that the connection will still deliver. -/
def Conn.stream (c : Conn) : Bytes := c.pieces.flatten

/-- The loop of `io.ReadFull`: reads until `n` more bytes have come. -/
def readLoop : Nat → Bytes → List Bytes → ReadError → Except ReadError Bytes × List Bytes
  | n, got, [], ending =>
    if n = 0 then (.ok got, [])
    else (.error (if got ≠ [] ∧ ending = .eof then .unexpectedEOF else ending), [])
  | n, got, piece :: rest, ending =>
    if n = 0 then (.ok got, piece :: rest)
    else if piece.length ≤ n then readLoop (n - piece.length) (got ++ piece) rest ending
    else (.ok (got ++ piece.take n), piece.drop n :: rest)

/-- `io.ReadFull(conn, buf)` with `len(buf) = n`. -/
def readFull (n : Nat) (c : Conn) : Except ReadError Bytes × Conn :=
  let (result, pieces) := readLoop n [] c.pieces c.ending
  (result, { c with pieces := pieces })

/-- A read that has enough to read takes the front of the stream and leaves the rest. -/
theorem readLoop_ok (n : Nat) (got : Bytes) (pieces : List Bytes) (ending : ReadError)
    (h : n ≤ pieces.flatten.length) :
    (readLoop n got pieces ending).1 = .ok (got ++ pieces.flatten.take n) ∧
      (readLoop n got pieces ending).2.flatten = pieces.flatten.drop n := by
  induction pieces generalizing n got with
  | nil =>
    obtain rfl : n = 0 := by simpa using h
    simp [readLoop]
  | cons piece rest ih =>
    unfold readLoop
    by_cases hn : n = 0
    · simp [hn]
    · rw [if_neg hn]
      by_cases hle : piece.length ≤ n
      · simp only [if_pos hle]
        have hrest : n - piece.length ≤ rest.flatten.length := by
          rw [List.flatten_cons, List.length_append] at h
          omega
        obtain ⟨h₁, h₂⟩ := ih (n - piece.length) (got ++ piece) hrest
        rw [h₁, h₂, List.flatten_cons, List.take_append, List.drop_append,
          List.take_of_length_le hle, List.drop_of_length_le hle, List.append_assoc]
        exact ⟨rfl, rfl⟩
      · have hlt : n ≤ piece.length := Nat.le_of_not_le hle
        simp only [if_neg hle, List.flatten_cons]
        rw [List.take_append_of_le_length hlt, List.drop_append_of_le_length hlt]
        exact ⟨rfl, rfl⟩

/-- A read that lacks bytes fails. -/
theorem readLoop_error (n : Nat) (got : Bytes) (pieces : List Bytes) (ending : ReadError)
    (h : pieces.flatten.length < n) : ∃ e, (readLoop n got pieces ending).1 = .error e := by
  induction pieces generalizing n got with
  | nil =>
    unfold readLoop
    rw [if_neg (Nat.ne_of_gt (Nat.lt_of_le_of_lt (Nat.zero_le _) h))]
    exact ⟨_, rfl⟩
  | cons piece rest ih =>
    rw [List.flatten_cons, List.length_append] at h
    unfold readLoop
    rw [if_neg (by omega)]
    simp only [if_pos (show piece.length ≤ n by omega)]
    exact ih _ _ (by omega)

/-- **What `io.ReadFull` reads.**  Only the concatenation of the pieces matters. -/
theorem readFull_ok {n : Nat} {c : Conn} (h : n ≤ c.stream.length) :
    (readFull n c).1 = .ok (c.stream.take n) ∧ (readFull n c).2.stream = c.stream.drop n := by
  obtain ⟨h₁, h₂⟩ := readLoop_ok n [] c.pieces c.ending h
  exact ⟨h₁, h₂⟩

theorem readFull_error {n : Nat} {c : Conn} (h : c.stream.length < n) :
    ∃ e, (readFull n c).1 = .error e := readLoop_error n [] c.pieces c.ending h

/-- A read that succeeded, seen from its result. -/
theorem readFull_eq_ok {n : Nat} {c c' : Conn} {bs : Bytes} (h : readFull n c = (.ok bs, c')) :
    n ≤ c.stream.length ∧ bs = c.stream.take n ∧ c'.stream = c.stream.drop n := by
  rcases Nat.lt_or_ge c.stream.length n with hlt | hge
  · obtain ⟨e, he⟩ := readFull_error hlt
    rw [h] at he
    nomatch he
  · obtain ⟨h₁, h₂⟩ := readFull_ok hge
    rw [h] at h₁ h₂
    exact ⟨hge, by simpa using h₁, h₂⟩

/-! ## Frames -/

/-- `PutUint16` of the length, then `copy`: a message as it travels over TCP. -/
def framed (message : Bytes) : Bytes := beBytes 2 message.length ++ message

theorem framed_drop (message : Bytes) : (framed message).drop 2 = message := by
  rw [framed, List.drop_append_of_le_length (ProxyGateway.Quic.beBytes_length 2 _).ge,
    List.drop_of_length_le (ProxyGateway.Quic.beBytes_length 2 _).le, List.nil_append]

/-- The two length bytes of a frame denote the length of what follows them. -/
theorem framed_header {message : Bytes} (h : message.length ≤ 65535) :
    beNat ((framed message).take 2) = message.length := by
  have hlen : (beBytes 2 message.length).length = 2 := ProxyGateway.Quic.beBytes_length 2 _
  rw [framed, List.take_append_of_le_length hlen.ge, List.take_of_length_le hlen.le,
    ProxyGateway.Quic.beNat_beBytes, Nat.mod_eq_of_lt (Nat.lt_of_le_of_lt h (by decide))]

/-! ## Answers -/

/-- `validDNSResponse`: long enough, the ID of the query, and the QR bit.  The indices are in range
once the first test has passed. -/
def validDNSResponse (query response : Bytes) : Bool :=
  if query.length < 2 ∨ response.length < 12 then false
  else if response[0]? ≠ query[0]? ∨ response[1]? ≠ query[1]? then false
  else response.getD 2 0 &&& 0x80 != 0

/-- The QR bit of a DNS header. -/
def QR (message : Bytes) : Prop := message.getD 2 0 &&& 0x80 ≠ 0

instance (message : Bytes) : Decidable (QR message) := inferInstanceAs (Decidable (_ ≠ _))

theorem validDNSResponse_iff (query response : Bytes) :
    validDNSResponse query response = true ↔
      2 ≤ query.length ∧ 12 ≤ response.length ∧ response[0]? = query[0]? ∧
        response[1]? = query[1]? ∧ QR response := by
  unfold validDNSResponse QR
  split
  · next h => simp only [Bool.false_eq_true, false_iff]; omega
  · next h =>
    split
    · next hid =>
      simp only [Bool.false_eq_true, false_iff]
      rintro ⟨-, -, h₀, h₁, -⟩
      exact hid.elim (fun hne => hne h₀) (fun hne => hne h₁)
    · next hid =>
      simp only [not_or, not_not] at hid
      rw [bne_iff_ne]
      constructor
      · intro hqr
        exact ⟨by omega, by omega, hid.1, hid.2, hqr⟩
      · rintro ⟨-, -, -, -, hqr⟩
        exact hqr

/-! ## One upstream -/

/-- The `network` argument of `queryUpstream`. -/
inductive Network where
  | udp
  | tcp
  deriving DecidableEq, Repr

/-- `queryUDPUpstream` once the query is out: the first datagram, as far as the buffer reaches. -/
def queryUDPUpstream (c : Conn) : Except ReadError Bytes :=
  match c.pieces with
  | datagram :: _ => .ok (datagram.take 4096)
  | [] => .error c.ending

/-- `queryTCPUpstream` once the query is out. -/
def queryTCPUpstream (c : Conn) : Except ReadError Bytes :=
  match readFull 2 c with
  | (.error e, _) => .error e
  | (.ok lengthBytes, c) =>
    if beNat lengthBytes < 12 then .error (.other "tcp response too short")
    else (readFull (beNat lengthBytes) c).1

/-- `queryUpstream`; a query that is too large for TCP is refused before it is sent. -/
def queryUpstream (network : Network) (c : Conn) : Except ReadError Bytes :=
  match network with
  | .udp => queryUDPUpstream c
  | .tcp => queryTCPUpstream c

/-- `len(query) > 65535` in `queryTCPUpstream`. -/
def Network.carries (network : Network) (query : Bytes) : Bool :=
  match network with
  | .udp => true
  | .tcp => decide (query.length ≤ 65535)

/-- No upstream brings an answer that a frame could not carry. -/
theorem queryUpstream_length {network : Network} {c : Conn} {response : Bytes}
    (h : queryUpstream network c = .ok response) : response.length ≤ 65535 := by
  cases network with
  | udp =>
    simp only [queryUpstream, queryUDPUpstream] at h
    split at h
    · obtain rfl := Except.ok.inj h
      rw [List.length_take]
      omega
    · nomatch h
  | tcp =>
    simp only [queryUpstream, queryTCPUpstream] at h
    split at h
    · nomatch h
    · next lengthBytes c' hread =>
      split at h
      · nomatch h
      · have hlen : lengthBytes.length ≤ 2 := by
          rw [(readFull_eq_ok hread).2.1, List.length_take]
          exact Nat.min_le_left _ _
        have hlt : beNat lengthBytes < 256 ^ 2 :=
          Nat.lt_of_lt_of_le (ProxyGateway.Quic.beNat_lt lengthBytes)
            (Nat.pow_le_pow_right (by decide) hlen)
        have heq := (readFull_eq_ok (Prod.ext h rfl)).2.1
        rw [heq, List.length_take]
        omega

/-! ## SERVFAIL -/

/-- The inner loop of `dnsErrorResponse`: one name, from offset `e` on. -/
def skipName (query : Bytes) (e : Nat) : Scan Nat :=
  if h : query.length ≤ e then .reject
  else
    let labelLen := (query.get ⟨e, Nat.lt_of_not_le h⟩).toNat
    if labelLen = 0 then .ok (e + 1)
    else if labelLen &&& 0xc0 = 0xc0 then
      if query.length ≤ e + 1 then .reject else .ok (e + 2)
    else if labelLen &&& 0xc0 ≠ 0 ∨ query.length < e + 1 + labelLen then .reject
    else skipName query (e + 1 + labelLen)
termination_by query.length - e

/-- The outer loop: `n` questions. -/
def skipQuestions (query : Bytes) : Nat → Nat → Scan Nat
  | 0, e => .ok e
  | n + 1, e => do
    let e ← skipName query e
    refuseIf (query.length < e + 4)
    skipQuestions query n (e + 4)

/-- The header flags of the answer: QR set, the old response code replaced. -/
def errorFlags (b₂ b₃ rcode : UInt8) : UInt16 :=
  let flags := b₂.toUInt16 <<< 8 ||| b₃.toUInt16
  let flags := flags ||| 0x8000
  let flags := flags &&& ~~~0x000f
  flags ||| (rcode &&& 0x0f).toUInt16

/-- `dnsErrorResponse`; `reject` is the result `nil`. -/
def dnsErrorResponse (query : Bytes) (rcode : UInt8) : Scan Bytes := do
  refuseIf (query.length < 12)
  let qd₁ ← index query 4
  let qd₀ ← index query 5
  let e ← skipQuestions query (qd₁.toNat <<< 8 ||| qd₀.toNat) 12
  let response ← slice query 0 e
  let b₂ ← index response 2
  let b₃ ← index response 3
  let flags := errorFlags b₂ b₃ rcode
  pure ((((((((response.set 2 (flags >>> 8).toUInt8).set 3 flags.toUInt8).set 6 0).set 7 0).set 8 0).set
    9 0).set 10 0).set 11 0)

theorem skipName_safe (query : Bytes) (e : Nat) :
    Safe (skipName query e) (fun e' => e < e' ∧ e' ≤ query.length) := by
  induction e using skipName.induct query with
  | case1 e h => rw [skipName, dif_pos h]; exact safe_reject
  | case2 e h labelLen hzero =>
    rw [skipName, dif_neg h]
    simp only [labelLen] at hzero
    simp only [if_pos hzero]
    exact safe_ok (by omega)
  | case3 e h labelLen hzero hptr hend =>
    rw [skipName, dif_neg h]
    simp only [labelLen] at hzero hptr
    simp only [if_neg hzero, if_pos hptr, if_pos hend]
    exact safe_reject
  | case4 e h labelLen hzero hptr hend =>
    rw [skipName, dif_neg h]
    simp only [labelLen] at hzero hptr
    simp only [if_neg hzero, if_pos hptr, if_neg hend]
    exact safe_ok (by omega)
  | case5 e h labelLen hzero hptr hbad =>
    rw [skipName, dif_neg h]
    simp only [labelLen] at hzero hptr hbad
    simp only [if_neg hzero, if_neg hptr, if_pos hbad]
    exact safe_reject
  | case6 e h labelLen hzero hptr hbad ih =>
    rw [skipName, dif_neg h]
    simp only [labelLen] at hzero hptr hbad ih
    simp only [if_neg hzero, if_neg hptr, if_neg hbad]
    exact ih.mono fun e' he' => ⟨by omega, he'.2⟩

theorem skipQuestions_safe (query : Bytes) (n e : Nat) (h : e ≤ query.length) :
    Safe (skipQuestions query n e) (fun e' => e ≤ e' ∧ e' ≤ query.length) := by
  induction n generalizing e with
  | zero => exact safe_ok ⟨Nat.le_refl e, h⟩
  | succ n ih =>
    refine (skipName_safe query e).bind fun e₁ h₁ => ?_
    refine safe_refuseIf.bind fun _ h₂ => ?_
    exact (ih (e₁ + 4) (Nat.le_of_not_lt h₂)).mono fun e' he' => ⟨by omega, he'.2⟩

/-- The high byte of the new flags has the QR bit. -/
theorem errorFlags_qr (b₂ b₃ rcode : UInt8) :
    (errorFlags b₂ b₃ rcode >>> 8).toUInt8 &&& 0x80 ≠ 0 := by
  intro h
  have hbit := congrArg (fun b : UInt8 => b.toBitVec.getLsbD 7) h
  simp [errorFlags] at hbit

/-- **What `dnsErrorResponse` makes of a query**: it never panics, and its answer is no longer than
the query and passes the test that answers of upstreams have to pass. -/
theorem dnsErrorResponse_safe (query : Bytes) (rcode : UInt8) :
    Safe (dnsErrorResponse query rcode)
      (fun r => r.length ≤ query.length ∧ validDNSResponse query r = true) := by
  refine safe_refuseIf.bind fun _ hlen => ?_
  have h12 : 12 ≤ query.length := Nat.le_of_not_lt hlen
  refine (safe_index (show 4 < query.length by omega)).bind fun qd₁ _ => ?_
  refine (safe_index (show 5 < query.length by omega)).bind fun qd₀ _ => ?_
  refine (skipQuestions_safe query _ 12 h12).bind fun e he => ?_
  rw [slice_of_le (Nat.zero_le e) he.2]
  have hr : (query.take e).length = e := List.length_take_of_le he.2
  simp only [Scan.ok_bind, List.drop_zero]
  refine (safe_index (show 2 < (query.take e).length by omega)).bind fun b₂ _ => ?_
  refine (safe_index (show 3 < (query.take e).length by omega)).bind fun b₃ _ => ?_
  refine safe_ok ⟨by simp only [List.length_set, hr]; exact he.2, ?_⟩
  rw [validDNSResponse_iff]
  have h0 : (query.take e)[0]? = query[0]? := List.getElem?_take_of_lt (by omega)
  have h1 : (query.take e)[1]? = query[1]? := List.getElem?_take_of_lt (by omega)
  refine ⟨by omega, by simp only [List.length_set, hr]; exact he.1, ?_, ?_, ?_⟩
  · simpa [List.getElem?_set_ne] using h0
  · simpa [List.getElem?_set_ne] using h1
  · have hget : 2 < (query.take e).length := by omega
    simp only [QR, List.getD_eq_getElem?_getD, List.getElem?_set_ne (show (11 : Nat) ≠ 2 by decide),
      List.getElem?_set_ne (show (10 : Nat) ≠ 2 by decide),
      List.getElem?_set_ne (show (9 : Nat) ≠ 2 by decide),
      List.getElem?_set_ne (show (8 : Nat) ≠ 2 by decide),
      List.getElem?_set_ne (show (7 : Nat) ≠ 2 by decide),
      List.getElem?_set_ne (show (6 : Nat) ≠ 2 by decide),
      List.getElem?_set_ne (show (3 : Nat) ≠ 2 by decide), List.getElem?_set_self hget,
      Option.getD_some]
    exact errorFlags_qr b₂ b₃ rcode

end ProxyGateway.Race
