/-
# ProxyGateway.Race.ErrorResponse — which queries get an error answer, and what is in it

`dnsErrorResponse` walks the questions of a query with an offset.  This module writes down, without
offsets, the byte strings that it walks over: `QName` is a name as a question spells it,
`Questions n` is `n` questions in a row.  `skipQuestions_eq_ok_iff` is the square: the walk ends at
an offset exactly when `n` questions stand between the start and that offset.

What the answer is made of is then one equation, `dnsErrorResponse_append`: twelve bytes of header,
the questions, and nothing of what followed them.  The fields of the header are read off it.
-/
import ProxyGateway.Race.Wire

namespace ProxyGateway.Race

open ProxyGateway.Lang
open ProxyGateway.Quic (Bytes beNat)

/-! ## The grammar of a question -/

/-- **`QName bs`** — `bs` is a name as a question spells it: labels of at most 63 bytes behind their
length, closed by a zero byte or by the two bytes of a compression pointer. -/
inductive QName : Bytes → Prop where
  | root : QName [0]
  | pointer {high low : UInt8} (h : 192 ≤ high.toNat) : QName [high, low]
  | label {len : UInt8} {bytes rest : Bytes} (hpos : 0 < len.toNat) (h63 : len.toNat ≤ 63)
      (hlen : bytes.length = len.toNat) (hrest : QName rest) : QName (len :: (bytes ++ rest))

/-- **`Question bs`** — a name, and the four bytes of type and class. -/
def Question (bs : Bytes) : Prop := ∃ name fixed, QName name ∧ fixed.length = 4 ∧ bs = name ++ fixed

/-- **`Questions n bs`** — `bs` is `n` questions in a row. -/
inductive Questions : Nat → Bytes → Prop where
  | none : Questions 0 []
  | more {n : Nat} {question rest : Bytes} (hq : Question question) (hrest : Questions n rest) :
      Questions (n + 1) (question ++ rest)

/-! ## The walk -/

/-- The two top bits of a length byte tell labels, pointers and nonsense apart. -/
theorem top_bits (b : UInt8) :
    (b.toNat &&& 0xc0 = 0xc0 ↔ 192 ≤ b.toNat) ∧ (b.toNat &&& 0xc0 = 0 ↔ b.toNat ≤ 63) := by
  have hb : b.toNat < 256 := b.toNat_lt
  have hmask : b.toNat &&& 0xc0 = b.toNat / 64 % 4 * 64 := by
    have h : (0xc0 : Nat) = (2 ^ 2 - 1) <<< 6 := rfl
    rw [h, ← Nat.shiftRight_eq_div_pow b.toNat 6, show (4 : Nat) = 2 ^ 2 from rfl,
      ← Nat.and_two_pow_sub_one_eq_mod, show (64 : Nat) = 2 ^ 6 from rfl, ← Nat.shiftLeft_eq]
    apply Nat.eq_of_testBit_eq
    intro i
    simp only [Nat.testBit_and, Nat.testBit_shiftLeft, Nat.testBit_shiftRight]
    by_cases h6 : 6 ≤ i
    · simp [h6, Nat.add_sub_cancel' h6]
    · simp [h6]
  rw [hmask]
  constructor <;> constructor <;> intro h <;> omega

theorem skipName_eq (query : Bytes) (pre : Bytes) (len : UInt8) (post : Bytes)
    (hq : query = pre ++ len :: post) :
    skipName query pre.length =
      if len.toNat = 0 then .ok (pre.length + 1)
      else if len.toNat &&& 0xc0 = 0xc0 then
        if query.length ≤ pre.length + 1 then .reject else .ok (pre.length + 2)
      else if len.toNat &&& 0xc0 ≠ 0 ∨ query.length < pre.length + 1 + len.toNat then .reject
      else skipName query (pre.length + 1 + len.toNat) := by
  subst hq
  have hlt : ¬ (pre ++ len :: post).length ≤ pre.length := by
    rw [List.length_append, List.length_cons]
    omega
  rw [skipName, dif_neg hlt]
  simp only [List.get_eq_getElem, List.getElem_append_right (Nat.le_refl pre.length), Nat.sub_self,
    List.getElem_cons_zero]

/-- The walk over a name that stands in the query ends behind it. -/
theorem skipName_of_qname {name : Bytes} (h : QName name) (query pre post : Bytes)
    (hq : query = pre ++ (name ++ post)) :
    skipName query pre.length = .ok (pre.length + name.length) := by
  induction h generalizing pre with
  | root =>
    rw [skipName_eq query pre 0 post hq]
    rfl
  | @pointer high low hhigh =>
    have hlen : query.length = pre.length + (2 + post.length) := by
      rw [hq]
      simp only [List.length_append, List.length_cons, List.length_nil]
    have hptr : high.toNat &&& 0xc0 = 0xc0 := (top_bits high).1.mpr hhigh
    rw [skipName_eq query pre high (low :: post) hq, if_neg (by omega), if_pos hptr,
      if_neg (by omega)]
    rfl
  | @label len bytes rest hpos h63 hbytes _ ih =>
    have hlen : query.length = pre.length + (1 + bytes.length + rest.length + post.length) := by
      rw [hq]
      simp only [List.length_append, List.length_cons]
      omega
    have hlabel : len.toNat &&& 0xc0 = 0 := (top_bits len).2.mpr h63
    rw [skipName_eq query pre len (bytes ++ rest ++ post) hq, if_neg (by omega),
      if_neg (by rw [hlabel]; decide), if_neg (by omega)]
    have hnext := ih (pre ++ len :: bytes)
      (by rw [hq]; simp only [List.append_assoc, List.cons_append])
    rw [List.length_append, List.length_cons, hbytes] at hnext
    rw [show pre.length + 1 + len.toNat = pre.length + (len.toNat + 1) by omega, hnext,
      List.length_cons, List.length_append, hbytes]
    congr 1
    omega

/-- A walk that ended has walked over a name. -/
theorem qname_of_skipName (query : Bytes) (e : Nat) (n : Nat) :
    ∀ pre post, post.length ≤ n → query = pre ++ post → skipName query pre.length = .ok e →
      ∃ name rest, post = name ++ rest ∧ QName name ∧ e = pre.length + name.length := by
  induction n with
  | zero =>
    intro pre post hn hq h
    obtain rfl : post = [] := List.eq_nil_of_length_eq_zero (Nat.le_zero.mp hn)
    rw [skipName, dif_pos (by rw [hq, List.append_nil])] at h
    cases h
  | succ n ih =>
    intro pre post hn hq h
    cases post with
    | nil =>
      rw [skipName, dif_pos (by rw [hq, List.append_nil])] at h
      cases h
    | cons len post =>
      have hlen : query.length = pre.length + (1 + post.length) := by
        rw [hq, List.length_append, List.length_cons, Nat.add_comm 1]
      rw [skipName_eq query pre len post hq] at h
      split at h
      · next hzero =>
        obtain rfl : len = 0 := UInt8.toNat_inj.mp hzero
        exact ⟨[0], post, rfl, .root, (Scan.ok.inj h).symm⟩
      · next hzero =>
        split at h
        · next hptr =>
          split at h
          · cases h
          · next hroom =>
            obtain ⟨low, rest, rfl⟩ : ∃ low rest, post = low :: rest :=
              List.exists_cons_of_length_pos (by omega)
            exact ⟨[len, low], rest, rfl, .pointer ((top_bits len).1.mp hptr), (Scan.ok.inj h).symm⟩
        · next hptr =>
          split at h
          · cases h
          · next hroom =>
            simp only [not_or, not_not, Nat.not_lt] at hroom
            have hfits : len.toNat ≤ post.length := by omega
            obtain ⟨bytes, rest, rfl, hbytes⟩ := exists_split hfits
            have hpre : (pre ++ len :: bytes).length = pre.length + 1 + len.toNat := by
              rw [List.length_append, List.length_cons, hbytes]
              omega
            rw [← hpre] at h
            have hshort : rest.length ≤ n := by
              simp only [List.length_cons, List.length_append] at hn
              omega
            obtain ⟨name, tail, rfl, hname, he⟩ := ih (pre ++ len :: bytes) rest hshort
              (by rw [hq, List.append_assoc, List.cons_append]) h
            refine ⟨len :: (bytes ++ name), tail, ?_, ?_, ?_⟩
            · rw [List.cons_append, List.append_assoc]
            · exact .label (Nat.pos_of_ne_zero hzero) ((top_bits len).2.mp hroom.1) hbytes hname
            · rw [he, hpre, List.length_cons, List.length_append, hbytes]
              omega

/-- **The square of the walk**: it ends exactly behind `n` questions. -/
theorem skipQuestions_eq_ok_iff (query : Bytes) (n e : Nat) (pre post : Bytes)
    (hq : query = pre ++ post) :
    skipQuestions query n pre.length = .ok e ↔
      ∃ questions rest, post = questions ++ rest ∧ Questions n questions ∧
        e = pre.length + questions.length := by
  induction n generalizing pre post with
  | zero =>
    show Scan.ok pre.length = Scan.ok e ↔ _
    constructor
    · intro h
      exact ⟨[], post, rfl, .none, (Scan.ok.inj h).symm⟩
    · rintro ⟨_, _, _, ⟨⟩, he⟩
      rw [he]
      rfl
  | succ n ih =>
    constructor
    · intro h
      obtain ⟨e₁, hname, h⟩ := Scan.bind_eq_ok.mp h
      obtain ⟨_, hroom, h⟩ := Scan.bind_eq_ok.mp h
      rw [refuseIf_eq_ok, Nat.not_lt] at hroom
      obtain ⟨name, rest, rfl, hqname, rfl⟩ :=
        qname_of_skipName query e₁ _ pre post (Nat.le_refl _) hq hname
      have hfour : 4 ≤ rest.length := by
        rw [hq] at hroom
        simp only [List.length_append] at hroom
        omega
      obtain ⟨fixed, rest, rfl, hfixed⟩ := exists_split hfour
      have hpre : pre.length + name.length + 4 = (pre ++ (name ++ fixed)).length := by
        simp only [List.length_append, hfixed, Nat.add_assoc]
      rw [hpre] at h
      obtain ⟨questions, tail, rfl, hquestions, he⟩ :=
        (ih (pre ++ (name ++ fixed)) rest (by rw [hq]; simp only [List.append_assoc])).mp h
      refine ⟨name ++ fixed ++ questions, tail, ?_,
        .more ⟨name, fixed, hqname, hfixed, rfl⟩ hquestions, ?_⟩
      · simp only [List.append_assoc]
      · rw [he]
        simp only [List.length_append, Nat.add_assoc]
    · rintro ⟨_, rest, hpost, hmore, he⟩
      obtain _ | @⟨_, question, questions, ⟨name, fixed, hqname, hfixed, rfl⟩, hquestions⟩ := hmore
      have hquery : query = pre ++ (name ++ (fixed ++ (questions ++ rest))) := by
        rw [hq, hpost]
        simp only [List.append_assoc]
      have hpre : pre.length + name.length + 4 = (pre ++ (name ++ fixed)).length := by
        simp only [List.length_append, hfixed, Nat.add_assoc]
      refine Scan.bind_of_ok (skipName_of_qname hqname query pre _ hquery) ?_
      refine Scan.bind_of_ok (refuseIf_neg ?_) ?_
      · rw [hquery]
        simp only [List.length_append, hfixed]
        omega
      · rw [hpre]
        refine (ih (pre ++ (name ++ fixed)) (questions ++ rest)
          (by rw [hquery]; simp only [List.append_assoc])).mpr
          ⟨questions, rest, rfl, hquestions, ?_⟩
        rw [he]
        simp only [List.length_append, Nat.add_assoc]

/-! ## The header -/

/-- ID. -/
def ident (message : Bytes) : Bytes := message.take 2

/-- OPCODE, four bits of the third byte. -/
def opcode (message : Bytes) : UInt8 := (message.getD 2 0 &&& 0x78) >>> 3

/-- RD, the lowest bit of the third byte. -/
def recursionDesired (message : Bytes) : UInt8 := message.getD 2 0 &&& 0x01

/-- RCODE, the four low bits of the fourth byte. -/
def responseCode (message : Bytes) : UInt8 := message.getD 3 0 &&& 0x0f

/-- QDCOUNT. -/
def qdCount (message : Bytes) : Nat := beNat ((message.drop 4).take 2)

/-- ANCOUNT. -/
def anCount (message : Bytes) : Nat := beNat ((message.drop 6).take 2)

/-- NSCOUNT. -/
def nsCount (message : Bytes) : Nat := beNat ((message.drop 8).take 2)

/-- ARCOUNT. -/
def arCount (message : Bytes) : Nat := beNat ((message.drop 10).take 2)

/-- The header of the answer to a query whose first six bytes are given. -/
def errorHeader (id₁ id₀ b₂ b₃ qd₁ qd₀ rcode : UInt8) : Bytes :=
  [id₁, id₀, b₂ ||| 0x80, b₃ &&& 0xf0 ||| rcode &&& 0x0f, qd₁, qd₀, 0, 0, 0, 0, 0, 0]

/-- Two bytes with the same eight bits. -/
theorem byte_ext {a b : UInt8}
    (h : ∀ i, i = 0 ∨ i = 1 ∨ i = 2 ∨ i = 3 ∨ i = 4 ∨ i = 5 ∨ i = 6 ∨ i = 7 →
      a.toBitVec.getLsbD i = b.toBitVec.getLsbD i) : a = b := by
  apply UInt8.eq_of_toBitVec_eq
  apply BitVec.eq_of_getLsbD_eq
  intro i hi
  exact h i (by omega)

/-- The flags are computed in sixteen bits, but each byte of them depends on one byte of the
query. -/
theorem errorFlags_high (b₂ b₃ rcode : UInt8) :
    (errorFlags b₂ b₃ rcode >>> 8).toUInt8 = b₂ ||| 0x80 := by
  apply byte_ext
  rintro i (rfl | rfl | rfl | rfl | rfl | rfl | rfl | rfl) <;> simp [errorFlags]

theorem errorFlags_low (b₂ b₃ rcode : UInt8) :
    (errorFlags b₂ b₃ rcode).toUInt8 = b₃ &&& 0xf0 ||| rcode &&& 0x0f := by
  apply byte_ext
  rintro i (rfl | rfl | rfl | rfl | rfl | rfl | rfl | rfl) <;> simp [errorFlags]

/-- The count of the loop is the number in the two bytes. -/
theorem count_eq (qd₁ qd₀ : UInt8) : qd₁.toNat <<< 8 ||| qd₀.toNat = beNat [qd₁, qd₀] := by
  rw [ProxyGateway.Quic.shiftLeft_or_eq qd₀.toNat_lt]
  simp

/-- A header is twelve bytes. -/
theorem exists_header {header : Bytes} (h : header.length = 12) :
    ∃ id₁ id₀ b₂ b₃ qd₁ qd₀ an₁ an₀ ns₁ ns₀ ar₁ ar₀,
      header = [id₁, id₀, b₂, b₃, qd₁, qd₀, an₁, an₀, ns₁, ns₀, ar₁, ar₀] := by
  match header, h with
  | [id₁, id₀, b₂, b₃, qd₁, qd₀, an₁, an₀, ns₁, ns₀, ar₁, ar₀], _ =>
    exact ⟨id₁, id₀, b₂, b₃, qd₁, qd₀, an₁, an₀, ns₁, ns₀, ar₁, ar₀, rfl⟩

/-! ## The answer -/

/-- **`Parses query`** — a header, as many questions as its QDCOUNT says, and anything behind. -/
def Parses (query : Bytes) : Prop :=
  ∃ header questions rest, query = header ++ (questions ++ rest) ∧ header.length = 12 ∧
    Questions (qdCount query) questions

/-- **The answer as one equation.**  The header is rewritten, the questions are kept and what stood
behind them is cut off. -/
theorem dnsErrorResponse_append {id₁ id₀ b₂ b₃ qd₁ qd₀ an₁ an₀ ns₁ ns₀ ar₁ ar₀ : UInt8}
    {query questions rest : Bytes} (rcode : UInt8)
    (hq : query = [id₁, id₀, b₂, b₃, qd₁, qd₀, an₁, an₀, ns₁, ns₀, ar₁, ar₀] ++ (questions ++ rest))
    (h : Questions (beNat [qd₁, qd₀]) questions) :
    dnsErrorResponse query rcode =
      .ok (errorHeader id₁ id₀ b₂ b₃ qd₁ qd₀ rcode ++ questions) := by
  have hlen : query.length = 12 + (questions.length + rest.length) := by
    rw [hq, List.length_append, List.length_append]
    rfl
  refine Scan.bind_of_ok (refuseIf_neg (by omega)) ?_
  refine Scan.bind_of_ok (index_append [id₁, id₀, b₂, b₃] hq rfl) ?_
  refine Scan.bind_of_ok (index_append [id₁, id₀, b₂, b₃, qd₁] hq rfl) ?_
  rw [count_eq]
  refine Scan.bind_of_ok ((skipQuestions_eq_ok_iff query _ _ _ _ hq).mpr
    ⟨questions, rest, rfl, h, rfl⟩) ?_
  have hcut : slice query 0 (12 + questions.length) =
      .ok ([id₁, id₀, b₂, b₃, qd₁, qd₀, an₁, an₀, ns₁, ns₀, ar₁, ar₀] ++ questions) :=
    slice_append [] _ (by rw [hq, List.nil_append, List.append_assoc]) rfl
      (by simp only [List.length_append, List.length_cons, List.length_nil, Nat.zero_add])
  refine Scan.bind_of_ok hcut ?_
  show Scan.ok _ = Scan.ok _
  rw [errorFlags_high, errorFlags_low]
  rfl

/-- An answer was made, so the query parses. -/
theorem parses_of_dnsErrorResponse {query response : Bytes} {rcode : UInt8}
    (h : dnsErrorResponse query rcode = .ok response) : Parses query := by
  obtain ⟨_, hlen, h⟩ := Scan.bind_eq_ok.mp h
  obtain ⟨qd₁, h₁, h⟩ := Scan.bind_eq_ok.mp h
  obtain ⟨qd₀, h₀, h⟩ := Scan.bind_eq_ok.mp h
  obtain ⟨e, hskip, _⟩ := Scan.bind_eq_ok.mp h
  rw [refuseIf_eq_ok, Nat.not_lt] at hlen
  obtain ⟨header, post, rfl, hheader⟩ := exists_split hlen
  obtain ⟨id₁, id₀, b₂, b₃, c₁, c₀, an₁, an₀, ns₁, ns₀, ar₁, ar₀, rfl⟩ := exists_header hheader
  obtain rfl : c₁ = qd₁ := Scan.ok.inj h₁
  obtain rfl : c₀ = qd₀ := Scan.ok.inj h₀
  obtain ⟨questions, rest, rfl, hquestions, _⟩ :=
    (skipQuestions_eq_ok_iff _ _ e _ post rfl).mp hskip
  refine ⟨_, questions, rest, rfl, hheader, ?_⟩
  rw [count_eq] at hquestions
  exact hquestions

/-- **`ErrorAnswer query rcode response`** — `response` is `query` cut behind its last question,
with the header of an error: what identifies the query is kept, QR and the code are set, no
records. -/
structure ErrorAnswer (query : Bytes) (rcode : UInt8) (response : Bytes) : Prop where
  /-- Behind its header the answer is the questions of the query, and nothing else. -/
  cut : ∃ header questions rest, query = header ++ (questions ++ rest) ∧ header.length = 12 ∧
    Questions (qdCount query) questions ∧ response.length = 12 + questions.length ∧
      response.drop 12 = questions
  ident : ident response = ident query
  opcode : opcode response = opcode query
  recursionDesired : recursionDesired response = recursionDesired query
  qdCount : qdCount response = qdCount query
  qr : QR response
  code : (responseCode response).toNat = rcode.toNat % 16
  anCount : anCount response = 0
  nsCount : nsCount response = 0
  arCount : arCount response = 0

/-- What the masks keep of the two flag bytes. -/
theorem flag_bits (b₂ b₃ rcode : UInt8) :
    (b₂ ||| 0x80) &&& 0x78 = b₂ &&& 0x78 ∧ (b₂ ||| 0x80) &&& 0x01 = b₂ &&& 0x01 ∧
      (b₂ ||| 0x80) &&& 0x80 = 0x80 ∧ (b₃ &&& 0xf0 ||| rcode &&& 0x0f) &&& 0x0f = rcode &&& 0x0f ∧
        (b₃ &&& 0xf0 ||| rcode &&& 0x0f) &&& 0xf0 = b₃ &&& 0xf0 ∧
          (b₂ ||| 0x80) ||| 0x80 = b₂ ||| 0x80 := by
  refine ⟨?_, ?_, ?_, ?_, ?_, ?_⟩ <;> apply byte_ext <;>
    rintro i (rfl | rfl | rfl | rfl | rfl | rfl | rfl | rfl) <;> simp

/-- A second error answer only changes the code. -/
theorem errorHeader_again (id₁ id₀ b₂ b₃ qd₁ qd₀ rcode rcode' : UInt8) :
    errorHeader id₁ id₀ (b₂ ||| 0x80) (b₃ &&& 0xf0 ||| rcode &&& 0x0f) qd₁ qd₀ rcode' =
      errorHeader id₁ id₀ b₂ b₃ qd₁ qd₀ rcode' := by
  obtain ⟨_, _, _, _, hcode, hqr⟩ := flag_bits b₂ b₃ rcode
  rw [errorHeader, hqr, hcode]
  rfl

/-- **The answer to every query that parses.** -/
theorem dnsErrorResponse_of_parses {query : Bytes} (rcode : UInt8) (h : Parses query) :
    ∃ response, dnsErrorResponse query rcode = .ok response ∧ ErrorAnswer query rcode response ∧
      ∀ rcode', dnsErrorResponse response rcode' = dnsErrorResponse query rcode' := by
  obtain ⟨header, questions, rest, hq, hheader, hquestions⟩ := h
  obtain ⟨id₁, id₀, b₂, b₃, qd₁, qd₀, an₁, an₀, ns₁, ns₀, ar₁, ar₀, rfl⟩ := exists_header hheader
  have hcount : qdCount query = beNat [qd₁, qd₀] := by rw [hq]; rfl
  have hfit : Questions (beNat [qd₁, qd₀]) questions := hcount ▸ hquestions
  obtain ⟨hopcode, hrd, hqr, hcode, _, _⟩ := flag_bits b₂ b₃ rcode
  refine ⟨_, dnsErrorResponse_append rcode hq hfit, ?_, ?_⟩
  · refine
      { cut := ⟨_, questions, rest, hq, hheader, hquestions, ?_, rfl⟩
        ident := by rw [hq]; rfl
        opcode := ?_
        recursionDesired := ?_
        qdCount := by rw [hcount]; rfl
        qr := ?_
        code := ?_
        anCount := rfl
        nsCount := rfl
        arCount := rfl }
    · rw [List.length_append]
      rfl
    · rw [hq]
      show ((b₂ ||| 0x80) &&& 0x78) >>> 3 = (b₂ &&& 0x78) >>> 3
      rw [hopcode]
    · rw [hq]
      exact hrd
    · show (b₂ ||| 0x80) &&& 0x80 ≠ 0
      rw [hqr]
      decide
    · show ((b₃ &&& 0xf0 ||| rcode &&& 0x0f) &&& 0x0f).toNat = rcode.toNat % 16
      rw [hcode, UInt8.toNat_and]
      exact Nat.and_two_pow_sub_one_eq_mod rcode.toNat 4
  · intro rcode'
    have hagain : errorHeader id₁ id₀ b₂ b₃ qd₁ qd₀ rcode ++ questions =
        errorHeader id₁ id₀ b₂ b₃ qd₁ qd₀ rcode ++ (questions ++ []) := by rw [List.append_nil]
    rw [dnsErrorResponse_append rcode' hq hfit, dnsErrorResponse_append rcode' hagain hfit,
      errorHeader_again]

/-- **`dnsErrorResponse` builds the right error for every query.**  It does not panic; it answers
exactly the queries that parse; the answer is the query cut behind its last question, passes the
test of answers, and is as good a query for another error as the query itself. -/
theorem dnsErrorResponse_correct (query : Bytes) (rcode : UInt8) :
    dnsErrorResponse query rcode ≠ .panic ∧
      ((∃ response, dnsErrorResponse query rcode = .ok response) ↔ Parses query) ∧
      ∀ response, dnsErrorResponse query rcode = .ok response →
        ErrorAnswer query rcode response ∧ validDNSResponse query response = true ∧
          ∀ rcode', dnsErrorResponse response rcode' = dnsErrorResponse query rcode' := by
  have hsafe := dnsErrorResponse_safe query rcode
  refine ⟨hsafe.ne_panic, ⟨?_, ?_⟩, ?_⟩
  · rintro ⟨response, h⟩
    exact parses_of_dnsErrorResponse h
  · intro hparses
    obtain ⟨response, h, _⟩ := dnsErrorResponse_of_parses rcode hparses
    exact ⟨response, h⟩
  · intro response h
    obtain ⟨response', h', hanswer, hagain⟩ :=
      dnsErrorResponse_of_parses rcode (parses_of_dnsErrorResponse h)
    obtain rfl : response = response' := Scan.ok.inj (h.symm.trans h')
    rw [h] at hsafe
    exact ⟨hanswer, hsafe.2, hagain⟩

/-- A query for `a.`, with two bytes behind its question. -/
def exampleQuery : Bytes := [7, 7, 1, 0, 0, 1, 0, 0, 0, 0, 0, 1, 1, 97, 0, 0, 1, 0, 1, 0, 0]

theorem dnsErrorResponse_correct_servfail :
    ∃ response, dnsErrorResponse exampleQuery 2 = .ok response ∧
      ErrorAnswer exampleQuery 2 response := by
  have hname : QName [1, 97, 0] :=
    @QName.label 1 [97] [0] (by decide) (by decide) rfl .root
  have hquestions : Questions 1 ([1, 97, 0] ++ [0, 1, 0, 1] ++ []) :=
    .more ⟨_, _, hname, rfl, rfl⟩ .none
  obtain ⟨_, hiff, hanswer⟩ := dnsErrorResponse_correct exampleQuery 2
  obtain ⟨response, h⟩ := hiff.mpr
    ⟨[7, 7, 1, 0, 0, 1, 0, 0, 0, 0, 0, 1], [1, 97, 0, 0, 1, 0, 1], [0, 0], rfl, rfl, hquestions⟩
  exact ⟨response, h, (hanswer response h).1⟩

end ProxyGateway.Race
